import Mathlib.Data.List.TakeDrop

/-!
# Channels that close

A channel accepts items until its receiver is gone; from then on every send fails. A sender either
goes on after a failed send or stops there. Both have then sent the same prefix of their items, and
all of them exactly when the channel stays open long enough.
-/

namespace EdgeOrchestrator

/-- What a channel has accepted, and how many more items it accepts if it ever closes. -/
structure ClosingChannel (Item : Type) where
  accepted : List Item := []
  closesAfter : Option ℕ := none
  deriving DecidableEq, Repr

namespace ClosingChannel

variable {Item : Type}

/-- Send one item; it is accepted or it is lost. -/
def send (channel : ClosingChannel Item) (item : Item) : Bool × ClosingChannel Item :=
  match channel.closesAfter with
  | none => (true, { channel with accepted := channel.accepted ++ [item] })
  | some 0 => (false, channel)
  | some (room + 1) =>
    (true, { accepted := channel.accepted ++ [item], closesAfter := some room })

/-- Send every item, whatever becomes of the others. -/
def sendEach (channel : ClosingChannel Item) (items : List Item) : ClosingChannel Item :=
  items.foldl (fun channel item ↦ (channel.send item).2) channel

/-- Send the items up to the first one that is lost. -/
def sendUntil (channel : ClosingChannel Item) : List Item → Bool × ClosingChannel Item
  | [] => (true, channel)
  | item :: rest =>
    match channel.send item with
    | (true, channel) => channel.sendUntil rest
    | (false, channel) => (false, channel)

/-- The channel accepts the next items, that many of them. -/
def Accepts (channel : ClosingChannel Item) (count : ℕ) : Prop :=
  ∀ room, channel.closesAfter = some room → count ≤ room

/-- The items that get through. -/
def passing (channel : ClosingChannel Item) (items : List Item) : List Item :=
  match channel.closesAfter with
  | none => items
  | some room => items.take room

variable (channel : ClosingChannel Item) (item : Item) (items : List Item)

theorem accepts_zero : channel.Accepts 0 := fun _ _ ↦ Nat.zero_le _

/-- The channel accepts an item and more exactly when it takes the item and accepts the others. -/
theorem accepts_succ_iff (count : ℕ) :
    channel.Accepts (count + 1) ↔
      (channel.send item).1 = true ∧ (channel.send item).2.Accepts count := by
  rcases channel with ⟨accepted, _ | _ | room⟩ <;> simp [Accepts, send]

theorem send_of_lost {channel : ClosingChannel Item} {item : Item}
    (hlost : (channel.send item).1 = false) :
    channel.closesAfter = some 0 ∧ channel.send item = (false, channel) := by
  rcases channel with ⟨accepted, _ | _ | room⟩
  · cases hlost
  · exact ⟨rfl, rfl⟩
  · cases hlost

/-- A closed channel loses everything. -/
theorem sendEach_of_closed {channel : ClosingChannel Item}
    (hclosed : channel.closesAfter = some 0) : channel.sendEach items = channel := by
  induction items with
  | nil => rfl
  | cons item rest ih =>
    have hsend : (channel.send item).2 = channel := by rw [send, hclosed]
    rw [sendEach, List.foldl_cons, hsend]
    exact ih

/-- Going on after a lost item gets nothing more through. -/
theorem sendUntil_snd : (channel.sendUntil items).2 = channel.sendEach items := by
  induction items generalizing channel with
  | nil => rfl
  | cons item rest ih =>
    cases hsent : (channel.send item).1 with
    | true =>
      have hsend : channel.send item = (true, (channel.send item).2) := Prod.ext hsent rfl
      rw [sendUntil, hsend]
      exact ih (channel.send item).2
    | false =>
      obtain ⟨hclosed, hsend⟩ := send_of_lost hsent
      rw [sendUntil, hsend, sendEach_of_closed _ hclosed]

/-- Sending up to the first lost item ends well exactly when the channel accepts all of them. -/
theorem sendUntil_fst_iff :
    (channel.sendUntil items).1 = true ↔ channel.Accepts items.length := by
  induction items generalizing channel with
  | nil => exact iff_of_true rfl channel.accepts_zero
  | cons item rest ih =>
    rw [List.length_cons, channel.accepts_succ_iff item, ← ih, sendUntil]
    rcases channel.send item with ⟨_ | _, next⟩ <;> simp

theorem accepted_sendEach :
    (channel.sendEach items).accepted = channel.accepted ++ channel.passing items := by
  induction items generalizing channel with
  | nil => rcases channel with ⟨accepted, _ | room⟩ <;> simp [sendEach, passing]
  | cons item rest ih =>
    rw [sendEach, List.foldl_cons, ← sendEach, ih]
    rcases channel with ⟨accepted, _ | _ | room⟩ <;> simp [send, passing]

/-- Everything gets through exactly when the channel accepts that many items. -/
theorem passing_eq_self_iff : channel.passing items = items ↔ channel.Accepts items.length := by
  rcases channel with ⟨accepted, _ | room⟩ <;> simp [passing, Accepts]

/-- An item gets through exactly when the channel accepts everything up to it. -/
theorem mem_passing_iff {before : List Item} (hbefore : item ∉ before) (after : List Item) :
    item ∈ channel.passing (before ++ item :: after) ↔ channel.Accepts (before.length + 1) := by
  rcases channel with ⟨accepted, _ | room⟩
  · simp [passing, Accepts]
  · simp only [passing, Accepts, Option.some.injEq, forall_eq', List.take_append, List.mem_append]
    rw [or_iff_right fun hmem ↦ hbefore (List.mem_of_mem_take hmem)]
    cases hrest : room - before.length with
    | zero =>
      rw [List.take_zero]
      exact iff_of_false List.not_mem_nil (by omega)
    | succ more =>
      rw [List.take_succ_cons]
      exact iff_of_true List.mem_cons_self (by omega)

theorem mem_of_mem_passing {channel : ClosingChannel Item} {item : Item} {items : List Item}
    (hmem : item ∈ channel.passing items) : item ∈ items := by
  rcases channel with ⟨accepted, _ | room⟩
  · exact hmem
  · exact List.mem_of_mem_take hmem

theorem accepted_sendEach_eq_iff :
    (channel.sendEach items).accepted = channel.accepted ++ items ↔
      channel.Accepts items.length := by
  rw [accepted_sendEach, List.append_cancel_left_eq, passing_eq_self_iff]

end ClosingChannel

end EdgeOrchestrator

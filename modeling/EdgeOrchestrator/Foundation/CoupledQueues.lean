import EdgeOrchestrator.Foundation.Execution

/-!
# Two processes over two bounded queues

The first process emits batches of items into a bounded queue that the second one drains. The second
process sends batches of replies into a bounded queue that the first one drains. A process that has a
rest of its batch left takes nothing from the other queue: it waits for room in its own. The two wait
for each other when both queues are full and both processes have a rest left.

Moving a rest into its queue never changes how much either side has under way. It follows that such a
circular wait is possible exactly when both sides have more under way than their queues hold.
-/

namespace EdgeOrchestrator

/-- The two queues and the rests of the batches that the processes are working on. -/
structure CoupledQueues (Item Reply : Type) where
  items : List Item := []
  replies : List Reply := []
  emitting : List Item := []
  sending : List Reply := []

/-- Moves of a process that is in the middle of a batch. -/
inductive Transfer
  | emit
  | send
  deriving DecidableEq, Repr

namespace CoupledQueues

open Execution

/-- The head of a list and the rest of it, when the condition is met. -/
def takeHead {Item : Type} (ready : Bool) : List Item → Option (Item × List Item)
  | [] => none
  | head :: rest => if ready then some (head, rest) else none

theorem takeHead_eq_some {Item : Type} {ready : Bool} {list rest : List Item} {head : Item} :
    takeHead ready list = some (head, rest) ↔ list = head :: rest ∧ ready = true := by
  cases list with
  | nil => simp [takeHead]
  | cons first others =>
    simp only [takeHead, Option.ite_none_right_eq_some, Option.some.injEq, Prod.mk.injEq,
      List.cons.injEq, and_comm]

variable {Item Reply : Type} (itemCapacity replyCapacity : ℕ)

/-- Move the head of a rest into its queue, if there is room. -/
def transfer (queues : CoupledQueues Item Reply) : Transfer → Option (CoupledQueues Item Reply)
  | .emit =>
    (takeHead (queues.items.length < itemCapacity) queues.emitting).map fun taken ↦
      { queues with items := queues.items ++ [taken.1], emitting := taken.2 }
  | .send =>
    (takeHead (queues.replies.length < replyCapacity) queues.sending).map fun taken ↦
      { queues with replies := queues.replies ++ [taken.1], sending := taken.2 }

/-- Give the first process a batch of items, once it is done with the one before. -/
def startEmitting (queues : CoupledQueues Item Reply) (batch : List Item) :
    Option (CoupledQueues Item Reply) :=
  if queues.emitting.isEmpty then some { queues with emitting := batch } else none

/-- Give the second process a batch of replies, once it is done with the one before. -/
def startSending (queues : CoupledQueues Item Reply) (batch : List Reply) :
    Option (CoupledQueues Item Reply) :=
  if queues.sending.isEmpty then some { queues with sending := batch } else none

/-- The first process takes a reply, once it is done with its batch. -/
def takeReply (queues : CoupledQueues Item Reply) : Option (Reply × CoupledQueues Item Reply) :=
  (takeHead queues.emitting.isEmpty queues.replies).map fun taken ↦
    (taken.1, { queues with replies := taken.2 })

/-- The second process takes an item, once it is done with its batch. -/
def takeItem (queues : CoupledQueues Item Reply) : Option (Item × CoupledQueues Item Reply) :=
  (takeHead queues.sending.isEmpty queues.items).map fun taken ↦
    (taken.1, { queues with items := taken.2 })

/-- Items that are queued or still to be emitted. -/
def itemLoad (queues : CoupledQueues Item Reply) : ℕ :=
  queues.items.length + queues.emitting.length

/-- Replies that are queued or still to be sent. -/
def replyLoad (queues : CoupledQueues Item Reply) : ℕ :=
  queues.replies.length + queues.sending.length

/-- Neither queue holds more than its capacity. -/
structure Bounded (queues : CoupledQueues Item Reply) : Prop where
  items : queues.items.length ≤ itemCapacity
  replies : queues.replies.length ≤ replyCapacity

/-- One of the sides has no more under way than its queue holds. -/
def Fits (queues : CoupledQueues Item Reply) : Prop :=
  queues.itemLoad ≤ itemCapacity ∨ queues.replyLoad ≤ replyCapacity

/-- Both processes wait for room in a full queue that only the other one drains. -/
structure CircularWait (queues : CoupledQueues Item Reply) : Prop where
  emitting : queues.emitting ≠ []
  itemsFull : queues.items.length = itemCapacity
  sending : queues.sending ≠ []
  repliesFull : queues.replies.length = replyCapacity

/-- There is no circular wait, and none is reached when both processes only go on with their
batches. -/
def Safe (queues : CoupledQueues Item Reply) : Prop :=
  ∀ transfers reached, run (transfer itemCapacity replyCapacity) queues transfers = some reached →
    ¬ CircularWait itemCapacity replyCapacity reached

theorem startEmitting_eq_some {queues next : CoupledQueues Item Reply} {batch : List Item} :
    queues.startEmitting batch = some next ↔
      queues.emitting = [] ∧ next = { queues with emitting := batch } := by
  simp only [startEmitting, List.isEmpty_iff, Option.ite_none_right_eq_some, Option.some.injEq]
  rw [@eq_comm _ _ next]

theorem startSending_eq_some {queues next : CoupledQueues Item Reply} {batch : List Reply} :
    queues.startSending batch = some next ↔
      queues.sending = [] ∧ next = { queues with sending := batch } := by
  simp only [startSending, List.isEmpty_iff, Option.ite_none_right_eq_some, Option.some.injEq]
  rw [@eq_comm _ _ next]

theorem takeReply_eq_some {queues next : CoupledQueues Item Reply} {reply : Reply} :
    queues.takeReply = some (reply, next) ↔
      ∃ rest, queues.replies = reply :: rest ∧ queues.emitting = [] ∧
        next = { queues with replies := rest } := by
  simp only [takeReply, Option.map_eq_some_iff, Prod.exists, takeHead_eq_some, List.isEmpty_iff,
    Prod.mk.injEq]
  constructor
  · intro ⟨head, rest, ⟨hreplies, hidle⟩, hhead, hnext⟩
    rw [hhead] at hreplies
    exact ⟨rest, hreplies, hidle, hnext.symm⟩
  · intro ⟨rest, hreplies, hidle, hnext⟩
    exact ⟨reply, rest, ⟨hreplies, hidle⟩, rfl, hnext.symm⟩

theorem takeItem_eq_some {queues next : CoupledQueues Item Reply} {item : Item} :
    queues.takeItem = some (item, next) ↔
      ∃ rest, queues.items = item :: rest ∧ queues.sending = [] ∧
        next = { queues with items := rest } := by
  simp only [takeItem, Option.map_eq_some_iff, Prod.exists, takeHead_eq_some, List.isEmpty_iff,
    Prod.mk.injEq]
  constructor
  · intro ⟨head, rest, ⟨hitems, hidle⟩, hhead, hnext⟩
    rw [hhead] at hitems
    exact ⟨rest, hitems, hidle, hnext.symm⟩
  · intro ⟨rest, hitems, hidle, hnext⟩
    exact ⟨item, rest, ⟨hitems, hidle⟩, rfl, hnext.symm⟩

variable {itemCapacity replyCapacity}

theorem transfer_emit_eq_some {queues next : CoupledQueues Item Reply} :
    queues.transfer itemCapacity replyCapacity .emit = some next ↔
      ∃ item rest, queues.emitting = item :: rest ∧ queues.items.length < itemCapacity ∧
        next = { queues with items := queues.items ++ [item], emitting := rest } := by
  simp only [transfer, Option.map_eq_some_iff, Prod.exists, takeHead_eq_some, decide_eq_true_eq,
    and_assoc, @eq_comm _ _ next]

theorem transfer_send_eq_some {queues next : CoupledQueues Item Reply} :
    queues.transfer itemCapacity replyCapacity .send = some next ↔
      ∃ reply rest, queues.sending = reply :: rest ∧ queues.replies.length < replyCapacity ∧
        next = { queues with replies := queues.replies ++ [reply], sending := rest } := by
  simp only [transfer, Option.map_eq_some_iff, Prod.exists, takeHead_eq_some, decide_eq_true_eq,
    and_assoc, @eq_comm _ _ next]

/-- A transfer keeps the bounds and what both sides have under way. -/
theorem transfer_spec {queues next : CoupledQueues Item Reply} {move : Transfer}
    (hstep : queues.transfer itemCapacity replyCapacity move = some next) :
    next.itemLoad = queues.itemLoad ∧ next.replyLoad = queues.replyLoad ∧
      (Bounded itemCapacity replyCapacity queues → Bounded itemCapacity replyCapacity next) := by
  cases move with
  | emit =>
    obtain ⟨item, rest, hemitting, hroom, rfl⟩ := transfer_emit_eq_some.mp hstep
    have hlength : (queues.items ++ [item]).length = queues.items.length + 1 := by simp
    refine ⟨?_, rfl, fun hbounded ↦ ⟨?_, hbounded.replies⟩⟩
    · simp only [itemLoad, hlength, hemitting, List.length_cons]
      omega
    · rw [hlength]
      exact hroom
  | send =>
    obtain ⟨reply, rest, hsending, hroom, rfl⟩ := transfer_send_eq_some.mp hstep
    have hlength : (queues.replies ++ [reply]).length = queues.replies.length + 1 := by simp
    refine ⟨rfl, ?_, fun hbounded ↦ ⟨hbounded.items, ?_⟩⟩
    · simp only [replyLoad, hlength, hsending, List.length_cons]
      omega
    · rw [hlength]
      exact hroom

theorem fits_transfer_iff {queues next : CoupledQueues Item Reply} {move : Transfer}
    (hstep : queues.transfer itemCapacity replyCapacity move = some next) :
    Fits itemCapacity replyCapacity next ↔ Fits itemCapacity replyCapacity queues := by
  obtain ⟨hitems, hreplies, -⟩ := transfer_spec hstep
  rw [Fits, Fits, hitems, hreplies]

/-- A circular wait overloads both sides. -/
theorem not_fits_of_circularWait {queues : CoupledQueues Item Reply}
    (hwait : CircularWait itemCapacity replyCapacity queues) :
    ¬ Fits itemCapacity replyCapacity queues := by
  have hemitting := List.length_pos_iff.mpr hwait.emitting
  have hsending := List.length_pos_iff.mpr hwait.sending
  have hitems := hwait.itemsFull
  have hreplies := hwait.repliesFull
  simp only [Fits, itemLoad, replyLoad]
  omega

/-- In a circular wait neither process moves again. -/
theorem CircularWait.stuck {queues : CoupledQueues Item Reply}
    (hwait : CircularWait itemCapacity replyCapacity queues) :
    (∀ move, queues.transfer itemCapacity replyCapacity move = none) ∧
      (∀ batch, queues.startEmitting batch = none) ∧
      (∀ batch, queues.startSending batch = none) ∧
      queues.takeReply = none ∧ queues.takeItem = none := by
  have hitems := hwait.itemsFull
  have hreplies := hwait.repliesFull
  refine ⟨fun move ↦ ?_, fun batch ↦ ?_, fun batch ↦ ?_, ?_, ?_⟩
  · apply Option.eq_none_iff_forall_ne_some.mpr
    intro next hstep
    cases move with
    | emit =>
      obtain ⟨_, _, _, hroom, _⟩ := transfer_emit_eq_some.mp hstep
      omega
    | send =>
      obtain ⟨_, _, _, hroom, _⟩ := transfer_send_eq_some.mp hstep
      omega
  · apply Option.eq_none_iff_forall_ne_some.mpr
    intro next hstep
    exact hwait.emitting (startEmitting_eq_some.mp hstep).1
  · apply Option.eq_none_iff_forall_ne_some.mpr
    intro next hstep
    exact hwait.sending (startSending_eq_some.mp hstep).1
  · apply Option.eq_none_iff_forall_ne_some.mpr
    intro ⟨reply, next⟩ hstep
    obtain ⟨_, _, hidle, _⟩ := takeReply_eq_some.mp hstep
    exact hwait.emitting hidle
  · apply Option.eq_none_iff_forall_ne_some.mpr
    intro ⟨item, next⟩ hstep
    obtain ⟨_, _, hidle, _⟩ := takeItem_eq_some.mp hstep
    exact hwait.sending hidle

/-- From an overloaded state the processes reach a circular wait by going on with their batches. -/
theorem exists_circularWait {queues : CoupledQueues Item Reply}
    (hbounded : Bounded itemCapacity replyCapacity queues)
    (hover : ¬ Fits itemCapacity replyCapacity queues) :
    ∃ transfers reached,
      run (transfer itemCapacity replyCapacity) queues transfers = some reached ∧
        CircularWait itemCapacity replyCapacity reached := by
  induction hroom : itemCapacity - queues.items.length + (replyCapacity - queues.replies.length)
    generalizing queues with
  | zero =>
    have hitems := hbounded.items
    have hreplies := hbounded.replies
    simp only [Fits, itemLoad, replyLoad, not_or, Nat.not_le] at hover
    refine ⟨[], queues, rfl, ?_, by omega, ?_, by omega⟩
    · intro hempty
      simp only [hempty, List.length_nil] at hover
      omega
    · intro hempty
      simp only [hempty, List.length_nil] at hover
      omega
  | succ room ih =>
    have hmove : ∃ move next, queues.transfer itemCapacity replyCapacity move = some next ∧
        itemCapacity - next.items.length + (replyCapacity - next.replies.length) = room := by
      simp only [Fits, itemLoad, replyLoad, not_or, Nat.not_le] at hover
      by_cases hitems : queues.items.length < itemCapacity
      · cases hemitting : queues.emitting with
        | nil =>
          simp only [hemitting, List.length_nil] at hover
          omega
        | cons item rest =>
          refine ⟨.emit, _, transfer_emit_eq_some.mpr ⟨item, rest, hemitting, hitems, rfl⟩, ?_⟩
          simp only [List.length_append, List.length_cons, List.length_nil]
          omega
      · cases hsending : queues.sending with
        | nil =>
          simp only [hsending, List.length_nil] at hover
          omega
        | cons reply rest =>
          have hreplies : queues.replies.length < replyCapacity := by omega
          refine ⟨.send, _, transfer_send_eq_some.mpr ⟨reply, rest, hsending, hreplies, rfl⟩, ?_⟩
          simp only [List.length_append, List.length_cons, List.length_nil]
          omega
    obtain ⟨move, next, hstep, hnext⟩ := hmove
    have hkept := (transfer_spec hstep).2.2 hbounded
    have hstill : ¬ Fits itemCapacity replyCapacity next :=
      fun hfits ↦ hover ((fits_transfer_iff hstep).mp hfits)
    obtain ⟨transfers, reached, hrun, hwait⟩ := ih hkept hstill hnext
    exact ⟨move :: transfers, reached, (run_cons_eq_some _).mpr ⟨next, hstep, hrun⟩, hwait⟩

/-- The processes are safe from a circular wait exactly when one side fits its queue. -/
theorem safe_iff_fits {queues : CoupledQueues Item Reply}
    (hbounded : Bounded itemCapacity replyCapacity queues) :
    Safe itemCapacity replyCapacity queues ↔ Fits itemCapacity replyCapacity queues := by
  constructor
  · intro hsafe
    by_contra hover
    obtain ⟨transfers, reached, hrun, hwait⟩ := exists_circularWait hbounded hover
    exact hsafe transfers reached hrun hwait
  · intro hfits transfers reached hrun hwait
    have hreached := invariant_of_run (Fits itemCapacity replyCapacity)
      (fun _ _ _ hbefore hstep ↦ (fits_transfer_iff hstep).mpr hbefore) hfits hrun
    exact not_fits_of_circularWait hwait hreached

/-- Taking a reply keeps the bounds and adds nothing to what is under way. -/
theorem takeReply_spec {queues next : CoupledQueues Item Reply} {reply : Reply}
    (hstep : queues.takeReply = some (reply, next))
    (hbounded : Bounded itemCapacity replyCapacity queues) :
    Bounded itemCapacity replyCapacity next ∧ next.itemLoad = queues.itemLoad ∧
      next.replyLoad ≤ queues.replyLoad := by
  obtain ⟨rest, hreplies, -, rfl⟩ := takeReply_eq_some.mp hstep
  have hlength : queues.replies.length = rest.length + 1 := by simp [hreplies]
  have hbound := hbounded.replies
  refine ⟨⟨hbounded.items, by simp only; omega⟩, rfl, ?_⟩
  simp only [replyLoad]
  omega

end CoupledQueues

end EdgeOrchestrator

import Mathlib.Data.List.Basic
import Mathlib.Logic.Function.Basic

/-!
# Blocks packed end to end

Blocks of items are appended under keys, end to end and with nothing between them. A directory
keeps, for every key, where its latest block lies. A block never moves, so an entry of the
directory stays right when more blocks are appended; the block that an entry no longer points at
stays as dead items.
-/

namespace EdgeOrchestrator.PackedBlocks

variable {Item Key : Type}

/-- As many items as the length says, from the offset on. -/
def sliceAt (items : List Item) (offset length : ℕ) : List Item := (items.drop offset).take length

theorem sliceAt_append_of_le {items : List Item} {offset length : ℕ}
    (hinside : offset + length ≤ items.length) (more : List Item) :
    sliceAt (items ++ more) offset length = sliceAt items offset length := by
  rw [sliceAt, List.drop_append_of_le_length (by omega),
    List.take_append_of_le_length (by rw [List.length_drop]; omega), sliceAt]

theorem sliceAt_end (items block : List Item) :
    sliceAt (items ++ block) items.length block.length = block := by
  rw [sliceAt, List.drop_left, List.take_length]

def packed (blocks : List (Key × List Item)) : List Item := blocks.flatMap Prod.snd

@[simp]
theorem packed_append_singleton (blocks : List (Key × List Item)) (key : Key)
    (block : List Item) : packed (blocks ++ [(key, block)]) = packed blocks ++ block := by
  simp [packed]

variable [DecidableEq Key]

/-- The block appended last under a key. -/
def latest (blocks : List (Key × List Item)) (key : Key) : Option (List Item) :=
  (blocks.reverse.find? fun block ↦ block.1 = key).map Prod.snd

theorem latest_append_singleton (blocks : List (Key × List Item)) (key : Key)
    (block : List Item) :
    latest (blocks ++ [(key, block)]) = Function.update (latest blocks) key (some block) := by
  funext other
  rw [latest, List.reverse_append, List.reverse_singleton, List.singleton_append, List.find?_cons]
  by_cases hother : other = key
  · rw [hother, Function.update_self]
    simp
  · have hne : (key, block).1 ≠ other := fun heq ↦ hother heq.symm
    rw [Function.update_of_ne hother, decide_eq_false hne]
    rfl

/-- The directory points at the latest block of every key, and at nothing for every other key. -/
structure Locates (directory : Key → Option (ℕ × ℕ)) (blocks : List (Key × List Item)) : Prop where
  absent : ∀ key, directory key = none → latest blocks key = none
  present : ∀ key offset length, directory key = some (offset, length) →
    offset + length ≤ (packed blocks).length ∧
      latest blocks key = some (sliceAt (packed blocks) offset length)

theorem locates_nil : Locates (fun _ ↦ none) ([] : List (Key × List Item)) where
  absent _ _ := rfl
  present := by
    intro key offset length hentry
    cases hentry

/-- A block is located where the packed items ended before it. -/
theorem Locates.append {directory : Key → Option (ℕ × ℕ)} {blocks : List (Key × List Item)}
    (hlocates : Locates directory blocks) (key : Key) (block : List Item) :
    Locates (Function.update directory key (some ((packed blocks).length, block.length)))
      (blocks ++ [(key, block)]) where
  absent := by
    intro other hentry
    rw [latest_append_singleton]
    by_cases hother : other = key
    · rw [hother, Function.update_self] at hentry
      cases hentry
    · rw [Function.update_of_ne hother] at hentry ⊢
      exact hlocates.absent other hentry
  present := by
    intro other offset length hentry
    rw [latest_append_singleton, packed_append_singleton, List.length_append]
    by_cases hother : other = key
    · rw [hother, Function.update_self, Option.some_inj, Prod.mk.injEq] at hentry
      rw [hother, Function.update_self, ← hentry.1, ← hentry.2, sliceAt_end]
      exact ⟨Nat.le_refl _, rfl⟩
    · rw [Function.update_of_ne hother] at hentry ⊢
      obtain ⟨hinside, hlatest⟩ := hlocates.present other offset length hentry
      rw [sliceAt_append_of_le hinside]
      exact ⟨by omega, hlatest⟩

/-- What a directory points at is what was appended last. -/
theorem Locates.latest_eq {directory : Key → Option (ℕ × ℕ)} {blocks : List (Key × List Item)}
    (hlocates : Locates directory blocks) (key : Key) :
    latest blocks key =
      (directory key).map fun entry ↦ sliceAt (packed blocks) entry.1 entry.2 := by
  cases hentry : directory key with
  | none => exact hlocates.absent key hentry
  | some entry => exact (hlocates.present key entry.1 entry.2 hentry).2

end EdgeOrchestrator.PackedBlocks

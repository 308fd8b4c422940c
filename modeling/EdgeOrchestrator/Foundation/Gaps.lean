import Mathlib.Data.List.Basic

/-!
# Gaps of a scan

A scan goes through a range of indices and finds an item at some of them. A property of the first
item behind a point, or of the first item behind every gap that the scan reaches, is followed from
one index to the next.
-/

namespace EdgeOrchestrator.Gaps

variable {Item : Type}

/-- The first item found from `start` on, if there is one, has the property. -/
def FirstFound (found : ℕ → Option Item) (property : Item → Prop) (start count : ℕ) : Prop :=
  ∀ next item, start ≤ next → next < start + count →
    (∀ index, start ≤ index → index < next → found index = none) →
    found next = some item → property item

/-- At every gap that is reached from `start` on, the first item behind it has the property. What
is found behind a gap may depend on the gap. -/
def AtGaps (found : ℕ → ℕ → Option Item) (property : ℕ → Item → Prop) (start count : ℕ) : Prop :=
  ∀ gap next item, start ≤ gap → gap < next → next < start + count →
    (∀ index, start ≤ index → index < gap → (found index index).isSome) →
    (∀ index, gap ≤ index → index < next → found gap index = none) →
    found gap next = some item → property gap item

theorem forall_from_iff {holds : ℕ → Prop} {start stop : ℕ} (hstart : holds start) :
    (∀ index, start ≤ index → index < stop → holds index) ↔
      ∀ index, start + 1 ≤ index → index < stop → holds index := by
  constructor
  · intro hall index hfrom
    exact hall index (Nat.le_of_succ_le hfrom)
  · intro hall index hfrom hto
    rcases Nat.eq_or_lt_of_le hfrom with hsame | hlater
    · rwa [← hsame]
    · exact hall index hlater hto

section FirstFound

variable {found : ℕ → Option Item} {property : Item → Prop} {start : ℕ}

theorem firstFound_zero : FirstFound found property start 0 := by
  intro next item hfrom hto
  omega

theorem firstFound_succ_of_none (count : ℕ) (hnone : found start = none) :
    FirstFound found property start (count + 1) ↔ FirstFound found property (start + 1) count := by
  constructor
  · intro hfirst next item hfrom hto hmissing
    exact hfirst next item (by omega) (by omega) ((forall_from_iff hnone).mpr hmissing)
  · intro hfirst next item hfrom hto hmissing hnext
    have hne : start ≠ next := by
      intro hsame
      rw [← hsame, hnone] at hnext
      cases hnext
    exact hfirst next item (by omega) (by omega) ((forall_from_iff hnone).mp hmissing) hnext

theorem firstFound_succ_of_some (count : ℕ) {item : Item} (hsome : found start = some item) :
    FirstFound found property start (count + 1) ↔ property item := by
  constructor
  · intro hfirst
    exact hfirst start item (Nat.le_refl _) (by omega) (by omega) hsome
  · intro hitem next other hfrom hto hmissing hnext
    rcases Nat.eq_or_lt_of_le hfrom with hsame | hlater
    · rw [← hsame, hsome, Option.some_inj] at hnext
      rwa [← hnext]
    · have hnone := hmissing start (Nat.le_refl _) hlater
      rw [hsome] at hnone
      cases hnone

end FirstFound

section AtGaps

variable {found : ℕ → ℕ → Option Item} {property : ℕ → Item → Prop} {start : ℕ}

theorem atGaps_zero : AtGaps found property start 0 := by
  intro gap next item hfrom hbehind hto
  omega

/-- Nothing is reached without a gap behind a gap. -/
theorem atGaps_succ_of_none (count : ℕ) (hnone : found start start = none) :
    AtGaps found property start (count + 1) ↔
      FirstFound (found start) (property start) (start + 1) count := by
  constructor
  · intro hgaps next item hfrom hto hmissing
    exact hgaps start next item (Nat.le_refl _) hfrom (by omega) (by omega)
      ((forall_from_iff hnone).mpr hmissing)
  · intro hfirst gap next item hfrom hbehind hto hreached hmissing
    rcases Nat.eq_or_lt_of_le hfrom with hsame | hlater
    · rw [← hsame] at hbehind hmissing ⊢
      exact hfirst next item hbehind (by omega) ((forall_from_iff hnone).mp hmissing)
    · have hsome := hreached start (Nat.le_refl _) hlater
      rw [hnone] at hsome
      cases hsome

theorem atGaps_succ_of_some (count : ℕ) (hsome : (found start start).isSome) :
    AtGaps found property start (count + 1) ↔ AtGaps found property (start + 1) count := by
  constructor
  · intro hgaps gap next item hfrom hbehind hto hreached
    exact hgaps gap next item (by omega) hbehind (by omega) ((forall_from_iff hsome).mpr hreached)
  · intro hgaps gap next item hfrom hbehind hto hreached hmissing
    have hne : start ≠ gap := by
      intro hsame
      have hnone := hmissing gap (Nat.le_refl _) hbehind
      rw [← hsame] at hnone
      rw [hnone] at hsome
      cases hsome
    exact hgaps gap next item (by omega) hbehind (by omega) ((forall_from_iff hsome).mp hreached)
      hmissing

end AtGaps

end EdgeOrchestrator.Gaps

import Mathlib.Data.List.Infix

/-!
# Longest prefixes with a property

A loop that takes the items of a list one after the other and stops at the first one that would
break a property ends with the longest prefix that has it, provided that the prefixes of a list with
the property have it as well.
-/

namespace EdgeOrchestrator

variable {Item : Type}

/-- The prefix has the property, and every prefix with the property is a part of it. -/
structure IsLongestPrefix (property : List Item → Prop) (all kept : List Item) : Prop where
  isPrefix : kept <+: all
  holds : property kept
  longest : ∀ other, other <+: all → property other → other <+: kept

/-- Whatever is in front of a list with the property has it. -/
def PrefixClosed (property : List Item → Prop) : Prop :=
  ∀ front list, front <+: list → property list → property front

namespace IsLongestPrefix

variable {property : List Item → Prop} {all kept other : List Item}

/-- There is only one longest prefix. -/
theorem unique (hkept : IsLongestPrefix property all kept)
    (hother : IsLongestPrefix property all other) : kept = other := by
  have hfront : kept <+: other := hother.longest kept hkept.isPrefix hkept.holds
  have hback : other <+: kept := hkept.longest other hother.isPrefix hother.holds
  exact hfront.eq_of_length_le hback.length_le

/-- A list with the property is its own longest prefix. -/
theorem of_holds (hall : property all) : IsLongestPrefix property all all where
  isPrefix := List.prefix_rfl
  holds := hall
  longest := fun _ hprefix _ ↦ hprefix

theorem eq_of_holds (hkept : IsLongestPrefix property all kept) (hall : property all) :
    kept = all :=
  hkept.unique (of_holds hall)

/-- The loop stops where the next item would break the property. -/
theorem of_next (hclosed : PrefixClosed property) (hkept : property kept) {next : Item}
    (hnext : ¬ property (kept ++ [next])) (rest : List Item) :
    IsLongestPrefix property (kept ++ next :: rest) kept where
  isPrefix := List.prefix_append kept (next :: rest)
  holds := hkept
  longest := by
    intro other hother hholds
    have hcut : kept ++ [next] <+: kept ++ next :: rest :=
      (List.prefix_append_right_inj kept).mpr ⟨rest, rfl⟩
    rcases List.prefix_or_prefix_of_prefix hother hcut with hshort | hlong
    · rcases List.prefix_concat_iff.mp hshort with hwhole | hfront
      · rw [hwhole] at hholds
        exact absurd hholds hnext
      · exact hfront
    · exact absurd (hclosed (kept ++ [next]) other hlong hholds) hnext

end IsLongestPrefix

end EdgeOrchestrator

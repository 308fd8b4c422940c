import Mathlib.Data.List.Basic

/-!
# Texts cut at a separator

A text that is cut at a separator is read back without ambiguity only if the separator does not
occur in the pieces. The rules below say what is left when it may occur: of two ways to cut a
text, one piece goes on where the other ends.

A record format prints a record as a header, a body and a terminator. The headers of the records
that are allowed have one width and never hold the terminator, but the bodies may. A listing of
records is read back exactly as long as no body holds a terminator that such a header follows.
-/

namespace EdgeOrchestrator.DelimitedText

variable {Symbol : Type}

section Cuts

variable {separator : Symbol} {left right front back rest other : List Symbol}

/-- Of two ways to cut a text at a separator, the pieces agree or one of them goes on with the
separator. -/
theorem eq_or_extends (htext : left ++ separator :: rest = right ++ separator :: other) :
    left = right ∧ rest = other ∨
      (∃ middle, right = left ++ separator :: middle ∧ rest = middle ++ separator :: other) ∨
      ∃ middle, left = right ++ separator :: middle ∧ other = middle ++ separator :: rest := by
  have hcut : ∀ {first second firstRest secondRest middle : List Symbol},
      second = first ++ middle → separator :: firstRest = middle ++ separator :: secondRest →
      first = second ∧ firstRest = secondRest ∨
        ∃ middle, second = first ++ separator :: middle ∧
          firstRest = middle ++ separator :: secondRest := by
    intro first second firstRest secondRest middle hsecond hrest
    cases middle with
    | nil =>
      rw [List.nil_append, List.cons_eq_cons] at hrest
      rw [List.append_nil] at hsecond
      exact Or.inl ⟨hsecond.symm, hrest.2⟩
    | cons symbol middle =>
      rw [List.cons_append, List.cons_eq_cons] at hrest
      rw [← hrest.1] at hsecond
      exact Or.inr ⟨middle, hsecond, hrest.2⟩
  rcases List.append_eq_append_iff.mp htext with ⟨middle, hright, hrest⟩ | ⟨middle, hleft, hrest⟩
  · rcases hcut hright hrest with hsame | hlonger
    · exact Or.inl hsame
    · exact Or.inr (Or.inl hlonger)
  · rcases hcut hleft hrest with hsame | hlonger
    · exact Or.inl ⟨hsame.1.symm, hsame.2.symm⟩
    · exact Or.inr (Or.inr hlonger)

/-- The text in front of the first separator and the text behind it are determined. -/
theorem cut_first (hleft : separator ∉ left) (hright : separator ∉ right)
    (htext : left ++ separator :: rest = right ++ separator :: other) :
    left = right ∧ rest = other := by
  rcases eq_or_extends htext with hsame | ⟨middle, hlonger, -⟩ | ⟨middle, hlonger, -⟩
  · exact hsame
  · exact absurd (by simp [hlonger]) hright
  · exact absurd (by simp [hlonger]) hleft

/-- The text in front of the last separator and the text behind it are determined. -/
theorem cut_last (hrest : separator ∉ rest) (hother : separator ∉ other)
    (htext : left ++ separator :: rest = right ++ separator :: other) :
    left = right ∧ rest = other := by
  rcases eq_or_extends htext with hsame | ⟨middle, -, hlonger⟩ | ⟨middle, -, hlonger⟩
  · exact hsame
  · exact absurd (by simp [hlonger]) hrest
  · exact absurd (by simp [hlonger]) hother

/-- A front without the separator lies inside the first piece. -/
theorem front_of_cut (hfront : separator ∉ front)
    (htext : front ++ back = left ++ separator :: rest) :
    ∃ middle, left = front ++ middle ∧ back = middle ++ separator :: rest := by
  rcases List.append_eq_append_iff.mp htext with ⟨middle, hleft, hback⟩ | ⟨middle, hleft, hback⟩
  · exact ⟨middle, hleft, hback⟩
  · cases middle with
    | nil =>
      rw [List.append_nil] at hleft
      rw [List.nil_append] at hback
      exact ⟨[], by rw [hleft, List.append_nil], hback.symm⟩
    | cons symbol middle =>
      rw [List.cons_append, List.cons_eq_cons] at hback
      exact absurd (by simp [hleft, ← hback.1]) hfront

end Cuts

/-- Records printed as a header, a body and a terminator. -/
structure RecordFormat (Symbol Record : Type) where
  terminator : Symbol
  header : Record → List Symbol
  body : Record → List Symbol

namespace RecordFormat

variable {Record : Type} (format : RecordFormat Symbol Record)

def text (record : Record) : List Symbol :=
  format.header record ++ (format.body record ++ [format.terminator])

def listing (records : List Record) : List Symbol := records.flatMap format.text

/-- The headers of the allowed records have the given width and do not hold the terminator. A
header and a body determine the record. -/
structure Framed (allowed : Record → Prop) (width : ℕ) : Prop where
  length : ∀ record, allowed record → (format.header record).length = width
  terminator_notMem : ∀ record, allowed record → format.terminator ∉ format.header record
  ext : ∀ first second, format.header first = format.header second →
    format.body first = format.body second → first = second

/-- The body holds a terminator that the header of an allowed record follows. -/
def Embeds (allowed : Record → Prop) (record : Record) : Prop :=
  ∃ before inner after, allowed inner ∧
    format.body record = before ++ format.terminator :: (format.header inner ++ after)

variable {format} {allowed : Record → Prop} {width : ℕ}

theorem listing_cons (record : Record) (records : List Record) :
    format.listing (record :: records) =
      format.header record ++
        (format.body record ++ format.terminator :: format.listing records) := by
  rw [listing, List.flatMap_cons, text, List.append_assoc, List.append_assoc,
    List.singleton_append]
  rfl

theorem listing_append (first second : List Record) :
    format.listing (first ++ second) = format.listing first ++ format.listing second :=
  List.flatMap_append

theorem listing_cons_ne_nil (record : Record) (records : List Record) :
    format.listing (record :: records) ≠ [] := by
  rw [listing_cons]
  simp

/-- Where a terminator falls into a listing, the header of the first record precedes it. -/
theorem exists_header_of_cut (hframed : format.Framed allowed width) {records : List Record}
    {piece rest : List Symbol} (hall : ∀ record ∈ records, allowed record)
    (htext : format.listing records = piece ++ format.terminator :: rest) :
    ∃ next later middle, records = next :: later ∧ piece = format.header next ++ middle ∧
      format.body next ++ format.terminator :: format.listing later =
        middle ++ format.terminator :: rest := by
  cases records with
  | nil => simp [listing] at htext
  | cons next later =>
    rw [listing_cons] at htext
    have hheader := hframed.terminator_notMem next (hall next List.mem_cons_self)
    obtain ⟨middle, hpiece, hrest⟩ := front_of_cut hheader htext
    exact ⟨next, later, middle, rfl, hpiece, hrest⟩

/-- A body that goes on where the listing of other records begins embeds a header. -/
theorem embeds_of_longer (hframed : format.Framed allowed width) {records : List Record}
    {record : Record} {body piece rest : List Symbol} (hall : ∀ record ∈ records, allowed record)
    (hbody : format.body record = body ++ format.terminator :: piece)
    (htext : format.listing records = piece ++ format.terminator :: rest) :
    format.Embeds allowed record := by
  obtain ⟨next, later, middle, hlist, hpiece, -⟩ := exists_header_of_cut hframed hall htext
  rw [hpiece] at hbody
  exact ⟨body, next, middle, hall next (hlist ▸ List.mem_cons_self), hbody⟩

/-- Listings determine their records as long as no body embeds a header. -/
theorem listing_injective (hframed : format.Framed allowed width) {left right : List Record}
    (hleft : ∀ record ∈ left, allowed record ∧ ¬ format.Embeds allowed record)
    (hright : ∀ record ∈ right, allowed record ∧ ¬ format.Embeds allowed record)
    (htext : format.listing left = format.listing right) : left = right := by
  induction left generalizing right with
  | nil =>
    cases right with
    | nil => rfl
    | cons record rest => exact absurd htext.symm (listing_cons_ne_nil record rest)
  | cons record rest ih =>
    cases right with
    | nil => exact absurd htext (listing_cons_ne_nil record rest)
    | cons other others =>
      rw [listing_cons, listing_cons] at htext
      rw [List.forall_mem_cons] at hleft hright
      have hwidth : (format.header record).length = (format.header other).length := by
        rw [hframed.length record hleft.1.1, hframed.length other hright.1.1]
      obtain ⟨hheader, hbodies⟩ := List.append_inj htext hwidth
      rcases eq_or_extends hbodies with ⟨hbody, hrest⟩ | ⟨piece, hbody, hnext⟩ |
        ⟨piece, hbody, hnext⟩
      · rw [hframed.ext record other hheader hbody, ih hleft.2 hright.2 hrest]
      · have hall := fun record hmem ↦ (hleft.2 record hmem).1
        exact absurd (embeds_of_longer hframed hall hbody hnext) hright.1.2
      · have hall := fun record hmem ↦ (hright.2 record hmem).1
        exact absurd (embeds_of_longer hframed hall hbody hnext) hleft.1.2

/-- A listing printed like a single record is that record, or the body of the record goes on with
the header and the body of the second record of the listing. -/
theorem eq_singleton_or_of_listing_eq (hframed : format.Framed allowed width) {record : Record}
    {records : List Record} (hrecord : allowed record)
    (hall : ∀ record ∈ records, allowed record)
    (htext : format.listing records = format.listing [record]) :
    records = [record] ∨ ∃ first second later tail, records = first :: second :: later ∧
      format.body record =
        format.body first ++ format.terminator :: (format.header second ++
          (format.body second ++ tail)) := by
  cases records with
  | nil => exact absurd htext.symm (listing_cons_ne_nil record [])
  | cons first rest =>
    rw [listing_cons, listing_cons] at htext
    rw [List.forall_mem_cons] at hall
    have hwidth : (format.header first).length = (format.header record).length := by
      rw [hframed.length first hall.1, hframed.length record hrecord]
    obtain ⟨hheader, hbodies⟩ := List.append_inj htext hwidth
    rcases eq_or_extends hbodies with ⟨hbody, hrest⟩ | ⟨piece, hbody, hnext⟩ |
      ⟨piece, -, hnext⟩
    · left
      cases rest with
      | nil => rw [hframed.ext first record hheader hbody]
      | cons second later => exact absurd hrest (listing_cons_ne_nil second later)
    · right
      obtain ⟨second, later, middle, hlist, hpiece, hmiddle⟩ :=
        exists_header_of_cut hframed hall.2 hnext
      -- the body of the second record ends where the first terminator behind it stands
      have htail : ∃ tail, middle = format.body second ++ tail := by
        rcases eq_or_extends hmiddle with ⟨hsame, -⟩ | ⟨piece, hlonger, -⟩ | ⟨piece, -, hshort⟩
        · exact ⟨[], by rw [hsame, List.append_nil]⟩
        · exact ⟨_, hlonger⟩
        · simp [listing] at hshort
      obtain ⟨tail, htail⟩ := htail
      exact ⟨first, second, later, tail, by rw [hlist], by rw [hbody, hpiece, htail]⟩
    · simp [listing] at hnext

/-- A record whose body embeds a whole record is printed like the two records it is made of. -/
theorem listing_of_embedded {record first second : Record}
    (hheader : format.header record = format.header first)
    (hbody : format.body record =
      format.body first ++ format.terminator :: (format.header second ++ format.body second)) :
    format.listing [record] = format.listing [first, second] := by
  rw [listing_cons, listing_cons, listing_cons, hheader, hbody]
  simp [listing]

end RecordFormat

end EdgeOrchestrator.DelimitedText

import Mathlib.Data.List.Basic
import Mathlib.Data.List.Forall2
import Mathlib.Data.List.Nodup
import Mathlib.Data.Set.Function
import Mathlib.Logic.Relation

/-!
# Codecs

A codec writes the values of a type as documents and reads documents back. Beside the two functions
stands a grammar, a relation that says which documents stand for a value. Reading follows the
grammar exactly, and what is written for a valid value stands for it. So a valid value is read back
from what was written, and from any other document that stands for it.

The fields of a record are read through a view, a function from names to documents that says
nothing about the order of the members or about members with other names. A field without a member
takes its default, if it has one.
-/

namespace EdgeOrchestrator.Codecs

/-- A writer and a reader of documents that agree with a grammar. -/
structure Codec (Document Value : Type) where
  encode : Value → Document
  decode : Document → Option Value
  Stands : Document → Value → Prop
  Valid : Value → Prop
  decode_eq_some_iff : ∀ {document value}, decode document = some value ↔ Stands document value
  stands_encode : ∀ {value}, Valid value → Stands (encode value) value

section Codec

variable {Document Value Other : Type} (codec : Codec Document Value)

/-- A valid value is read back from what is written for it. -/
theorem Codec.decode_encode {value : Value} (hvalid : codec.Valid value) :
    codec.decode (codec.encode value) = some value :=
  codec.decode_eq_some_iff.mpr (codec.stands_encode hvalid)

/-- The codec of a type with the same values. -/
def Codec.via (equiv : Other ≃ Value) : Codec Document Other where
  encode value := codec.encode (equiv value)
  decode document := (codec.decode document).map equiv.symm
  Stands document value := codec.Stands document (equiv value)
  Valid value := codec.Valid (equiv value)
  decode_eq_some_iff := by
    intro document value
    rw [Option.map_eq_some_iff, ← codec.decode_eq_some_iff]
    constructor
    · rintro ⟨found, hfound, hvalue⟩
      rw [hfound, ← hvalue, Equiv.apply_symm_apply]
    · intro hfound
      exact ⟨equiv value, hfound, equiv.symm_apply_apply value⟩
  stands_encode hvalid := codec.stands_encode hvalid

/-- The codec without the documents that a test refuses. -/
def Codec.among (accepts : Document → Bool) (hencode : ∀ value, accepts (codec.encode value)) :
    Codec Document Value where
  encode := codec.encode
  decode document := if accepts document then codec.decode document else none
  Stands document value := accepts document ∧ codec.Stands document value
  Valid := codec.Valid
  decode_eq_some_iff := by
    intro document value
    rw [Option.ite_none_right_eq_some, codec.decode_eq_some_iff]
  stands_encode hvalid := ⟨hencode _, codec.stands_encode hvalid⟩

end Codec

/-- Reading all documents of a list succeeds exactly when each stands for its value. -/
theorem mapM_eq_some_iff {Document Value : Type} {read : Document → Option Value}
    {documents : List Document} {values : List Value} :
    documents.mapM read = some values ↔
      List.Forall₂ (fun document value ↦ read document = some value) documents values := by
  induction documents generalizing values with
  | nil =>
    rw [List.mapM_nil, Option.pure_def, Option.some.injEq, List.forall₂_nil_left_iff]
    exact eq_comm
  | cons document rest ih =>
    simp only [List.mapM_cons, Option.pure_def, Option.bind_eq_bind, Option.bind_eq_some_iff,
      Option.some.injEq, List.forall₂_cons_left_iff]
    constructor
    · rintro ⟨value, hvalue, others, hothers, rfl⟩
      exact ⟨value, others, hvalue, ih.mp hothers, rfl⟩
    · rintro ⟨value, others, hvalue, hothers, rfl⟩
      exact ⟨value, hvalue, others, ih.mpr hothers, rfl⟩

/-- A member is found by its name when the name occurs once. -/
theorem lookup_of_mem {Name Document : Type} [BEq Name] [LawfulBEq Name]
    {members : List (Name × Document)} {name : Name} {document : Document}
    (hmem : (name, document) ∈ members)
    (honce : members.countP (fun member ↦ member.1 == name) ≤ 1) :
    members.lookup name = some document := by
  induction members with
  | nil => cases hmem
  | cons member rest ih =>
    rcases member with ⟨other, found⟩
    by_cases hother : name = other
    · rw [hother, List.countP_cons_of_pos (by simp)] at honce
      have hrest : (other, document) ∉ rest := by
        intro hlater
        have hnone := List.countP_eq_zero.mp (Nat.le_zero.mp (Nat.le_of_succ_le_succ honce))
        exact hnone _ hlater (by simp)
      rw [hother] at hmem ⊢
      rcases List.mem_cons.mp hmem with hfirst | hlater
      · rw [(Prod.mk.inj hfirst).2, List.lookup_cons_self]
      · exact absurd hlater hrest
    · have hne : (name == other) = false := by simpa using hother
      rw [List.countP_cons_of_neg (by simpa using Ne.symm hother)] at honce
      rcases List.mem_cons.mp hmem with hfirst | hlater
      · exact absurd (Prod.mk.inj hfirst).1 hother
      · rw [List.lookup_cons, hne]
        exact ih hlater honce

/-- A name that no member has is not found. -/
theorem lookup_of_notMem {Name Document : Type} [BEq Name] [LawfulBEq Name]
    {members : List (Name × Document)} {name : Name} (hname : name ∉ members.map Prod.fst) :
    members.lookup name = none := by
  rw [List.lookup_eq_none_iff]
  intro member hmem
  rw [bne_iff_ne]
  rintro rfl
  exact hname (List.mem_map_of_mem hmem)

/-- In a list of different names every name occurs at most once. -/
theorem countP_le_one {Name Document : Type} [BEq Name] [LawfulBEq Name]
    {members : List (Name × Document)} (hnodup : (members.map Prod.fst).Nodup) (name : Name) :
    members.countP (fun member ↦ member.1 == name) ≤ 1 := by
  have hcount : members.countP (fun member ↦ member.1 == name) =
      (members.map Prod.fst).count name := by
    rw [List.count, List.countP_map]
    rfl
  rw [hcount]
  exact List.nodup_iff_count_le_one.mp hnodup name

/-! ## Fields -/

section Field

variable {Document Value : Type} (default : Option Value) (codec : Codec Document Value)

/-- Read the member of a field, or take the default of the field. -/
def decodeField : Option Document → Option Value
  | none => default
  | some document => codec.decode document

/-- The member of a field stands for the value, or it is missing and the value is the default. -/
inductive FieldShows : Option Document → Value → Prop
  | missing {value : Value} (hdefault : default = some value) : FieldShows none value
  | present {document : Document} {value : Value} (hstands : codec.Stands document value) :
    FieldShows (some document) value

theorem decodeField_eq_some_iff {member : Option Document} {value : Value} :
    decodeField default codec member = some value ↔ FieldShows default codec member value := by
  cases member with
  | none => exact ⟨.missing, fun hshows ↦ by cases hshows with | missing hdefault => exact hdefault⟩
  | some document =>
    rw [decodeField, codec.decode_eq_some_iff]
    exact ⟨.present, fun hshows ↦ by cases hshows with | present hstands => exact hstands⟩

end Field

/-- The fields of a record, written as members and read through a view of members. Admitted for the
name of a field is every member, or its absence, that shows the value of the field. -/
structure Fields (Name Document Value : Type) where
  names : List Name
  encode : Value → List (Name × Document)
  decode : (Name → Option Document) → Option Value
  Shows : (Name → Option Document) → Value → Prop
  Admits : Value → Name → Option Document → Prop
  Valid : Value → Prop
  map_fst_encode : ∀ value, (encode value).map Prod.fst = names
  decode_eq_some_iff : ∀ {view value}, decode view = some value ↔ Shows view value
  shows_of_members : ∀ {view value}, Valid value →
    (∀ member ∈ encode value, view member.1 = some member.2) → Shows view value
  shows_congr : ∀ {view other value}, (∀ name ∈ names, view name = other name) →
    Shows view value → Shows other value
  mem_of_admits : ∀ {value name member}, Admits value name member → name ∈ names
  shows_of_admits : ∀ {view other value name}, names.Nodup → Shows view value →
    Admits value name (other name) → (∀ rest, rest ≠ name → other rest = view rest) →
      Shows other value

namespace Fields

variable {Name Document Value Rest : Type}

def nil : Fields Name Document Unit where
  names := []
  encode _ := []
  decode _ := some ()
  Shows _ _ := True
  Admits _ _ _ := False
  Valid _ := True
  map_fst_encode _ := rfl
  decode_eq_some_iff := by simp
  shows_of_members _ _ := trivial
  shows_congr _ _ := trivial
  mem_of_admits := False.elim
  shows_of_admits _ _ _ _ := trivial

/-- One more field, in front. -/
def cons (name : Name) (default : Option Value) (codec : Codec Document Value)
    (rest : Fields Name Document Rest) : Fields Name Document (Value × Rest) where
  names := name :: rest.names
  encode values := (name, codec.encode values.1) :: rest.encode values.2
  decode view := (decodeField default codec (view name)).bind fun value ↦
    (rest.decode view).map fun others ↦ (value, others)
  Shows view values := FieldShows default codec (view name) values.1 ∧ rest.Shows view values.2
  Admits values other member :=
    other = name ∧ FieldShows default codec member values.1 ∨ rest.Admits values.2 other member
  Valid values := codec.Valid values.1 ∧ rest.Valid values.2
  map_fst_encode values := by rw [List.map_cons, rest.map_fst_encode]
  decode_eq_some_iff := by
    intro view values
    rw [Option.bind_eq_some_iff, ← decodeField_eq_some_iff, ← rest.decode_eq_some_iff]
    constructor
    · rintro ⟨value, hvalue, hothers⟩
      obtain ⟨others, hrest, rfl⟩ := Option.map_eq_some_iff.mp hothers
      exact ⟨hvalue, hrest⟩
    · rintro ⟨hvalue, hrest⟩
      exact ⟨values.1, hvalue, Option.map_eq_some_iff.mpr ⟨values.2, hrest, rfl⟩⟩
  shows_of_members := by
    intro view values hvalid hmembers
    rw [List.forall_mem_cons] at hmembers
    refine ⟨?_, rest.shows_of_members hvalid.2 hmembers.2⟩
    rw [hmembers.1]
    exact .present (codec.stands_encode hvalid.1)
  shows_congr := by
    intro view other values hsame hshows
    rw [List.forall_mem_cons] at hsame
    rw [← hsame.1]
    exact ⟨hshows.1, rest.shows_congr hsame.2 hshows.2⟩
  mem_of_admits := by
    rintro values other member (⟨rfl, -⟩ | hrest)
    · exact List.mem_cons_self
    · exact List.mem_cons_of_mem name (rest.mem_of_admits hrest)
  shows_of_admits := by
    intro view other values changed hnodup hshows hadmits hsame
    rw [List.nodup_cons] at hnodup
    rcases hadmits with ⟨rfl, hfield⟩ | hrest
    · refine ⟨hfield, rest.shows_congr (fun name hname ↦ ?_) hshows.2⟩
      exact (hsame name (ne_of_mem_of_not_mem hname hnodup.1)).symm
    · refine ⟨?_, rest.shows_of_admits hnodup.2 hshows.2 hrest hsame⟩
      rw [hsame name (ne_of_mem_of_not_mem (rest.mem_of_admits hrest) hnodup.1).symm]
      exact hshows.1

/-- A field that has to be there. -/
def required (name : Name) (codec : Codec Document Value) (rest : Fields Name Document Rest) :
    Fields Name Document (Value × Rest) :=
  cons name none codec rest

/-- A field that may be missing. -/
def optional (name : Name) (default : Value) (codec : Codec Document Value)
    (rest : Fields Name Document Rest) : Fields Name Document (Value × Rest) :=
  cons name (some default) codec rest

/-- A field that has to be there is there. -/
theorem ne_none_of_shows_required {name : Name} {codec : Codec Document Value}
    {rest : Fields Name Document Rest} {view : Name → Option Document} {values : Value × Rest}
    (hshows : (required name codec rest).Shows view values) : view name ≠ none := by
  intro hnone
  have hfield := hshows.1
  rw [hnone] at hfield
  cases hfield with
  | missing hdefault => cases hdefault

@[simp]
theorem names_nil : (nil : Fields Name Document Unit).names = [] := rfl

@[simp]
theorem names_required (name : Name) (codec : Codec Document Value)
    (rest : Fields Name Document Rest) :
    (required name codec rest).names = name :: rest.names := rfl

@[simp]
theorem names_optional (name : Name) (default : Value) (codec : Codec Document Value)
    (rest : Fields Name Document Rest) :
    (optional name default codec rest).names = name :: rest.names := rfl

end Fields

/-! ## Records of other versions -/

section Records

variable {Name Document Value : Type} [BEq Name] [LawfulBEq Name]

theorem lookup_perm {first second : List (Name × Document)} (hperm : first.Perm second)
    {name : Name} (honce : first.countP (fun member ↦ member.1 == name) ≤ 1) :
    first.lookup name = second.lookup name := by
  by_cases hname : name ∈ first.map Prod.fst
  · obtain ⟨⟨found, document⟩, hmem, rfl⟩ := List.mem_map.mp hname
    rw [lookup_of_mem hmem honce,
      lookup_of_mem (hperm.mem_iff.mp hmem) (by rwa [← hperm.countP_eq])]
  · rw [lookup_of_notMem hname, lookup_of_notMem (by rwa [← (hperm.map Prod.fst).mem_iff])]

/-- The members with other names. -/
def without (members : List (Name × Document)) (name : Name) : List (Name × Document) :=
  members.filter fun member ↦ member.1 != name

theorem lookup_without_self (members : List (Name × Document)) (name : Name) :
    (without members name).lookup name = none := by
  apply lookup_of_notMem
  simp [without]

theorem lookup_without_of_ne (members : List (Name × Document)) {name other : Name}
    (hother : other ≠ name) : (without members name).lookup other = members.lookup other := by
  induction members with
  | nil => rfl
  | cons member rest ih =>
    rcases member with ⟨found, document⟩
    by_cases hfound : found = name
    · have hne : (other == found) = false := by simpa [hfound] using hother
      rw [without, List.filter_cons_of_neg (by simpa using hfound), List.lookup_cons, hne]
      exact ih
    · rw [without, List.filter_cons_of_pos (by simpa using hfound), List.lookup_cons,
        List.lookup_cons]
      split
      · rfl
      · exact ih

omit [LawfulBEq Name] in
theorem countP_without_le (members : List (Name × Document)) (name other : Name) :
    (without members name).countP (fun member ↦ member.1 == other) ≤
      members.countP fun member ↦ member.1 == other :=
  List.filter_sublist.countP_le

variable (fields : Fields Name Document Value) (value : Value)

/-- The members show the value, and no field occurs twice among them. -/
def Presents (members : List (Name × Document)) : Prop :=
  (∀ name ∈ fields.names, members.countP (fun member ↦ member.1 == name) ≤ 1) ∧
    fields.Shows (fun name ↦ members.lookup name) value

/-- One way in which another version of a writer may write a record: the members in another order,
one more member under a name of its own, a field left out at its default, or a field written as
another document that stands for its value. -/
inductive Rewrites : List (Name × Document) → List (Name × Document) → Prop
  | reorder {first second : List (Name × Document)} (hperm : first.Perm second) :
    Rewrites first second
  | add {members : List (Name × Document)} {name : Name} {document : Document}
      (hname : name ∉ fields.names) : Rewrites members ((name, document) :: members)
  | leaveOut {members : List (Name × Document)} {name : Name}
      (hadmits : fields.Admits value name none) : Rewrites members (without members name)
  | restate {members : List (Name × Document)} {name : Name} {document : Document}
      (hadmits : fields.Admits value name (some document)) :
    Rewrites members ((name, document) :: without members name)

variable {fields value}

/-- What is written for a valid value presents it. -/
theorem presents_encode (hnodup : fields.names.Nodup) (hvalid : fields.Valid value) :
    Presents fields value (fields.encode value) := by
  rw [← fields.map_fst_encode value] at hnodup
  refine ⟨fun name _ ↦ countP_le_one hnodup name, fields.shows_of_members hvalid ?_⟩
  intro member hmem
  exact lookup_of_mem hmem (countP_le_one hnodup member.1)

theorem Presents.rewrites {first second : List (Name × Document)} (hnodup : fields.names.Nodup)
    (hpresents : Presents fields value first) (hrewrites : Rewrites fields value first second) :
    Presents fields value second := by
  obtain ⟨honce, hshows⟩ := hpresents
  cases hrewrites with
  | reorder hperm =>
    refine ⟨fun name hname ↦ ?_, fields.shows_congr (fun name hname ↦ ?_) hshows⟩
    · rw [← hperm.countP_eq]
      exact honce name hname
    · exact lookup_perm hperm (honce name hname)
  | @add name document hname =>
    have hother : ∀ known ∈ fields.names, known ≠ name :=
      fun known hknown ↦ ne_of_mem_of_not_mem hknown hname
    refine ⟨fun known hknown ↦ ?_, fields.shows_congr (fun known hknown ↦ ?_) hshows⟩
    · rw [List.countP_cons_of_neg (by simpa using (hother known hknown).symm)]
      exact honce known hknown
    · have hne : (known == name) = false := by simpa using hother known hknown
      rw [List.lookup_cons, hne]
  | @leaveOut name hadmits =>
    refine ⟨fun known hknown ↦ (countP_without_le first name known).trans (honce known hknown),
      fields.shows_of_admits hnodup hshows ?_ fun (other : Name) (hother : other ≠ name) ↦ ?_⟩
    · rwa [lookup_without_self]
    · exact lookup_without_of_ne first hother
  | @restate name document hadmits =>
    refine ⟨fun known hknown ↦ ?_,
      fields.shows_of_admits hnodup hshows ?_ fun (other : Name) (hother : other ≠ name) ↦ ?_⟩
    · by_cases hsame : known = name
      · have hnone : (without first name).countP (fun member ↦ member.1 == known) = 0 := by
          rw [List.countP_eq_zero, hsame]
          simp [without]
        rw [List.countP_cons, hnone]
        split_ifs <;> omega
      · rw [List.countP_cons_of_neg (by simpa using Ne.symm hsame)]
        exact (countP_without_le first name known).trans (honce known hknown)
    · rwa [List.lookup_cons_self]
    · have hne : (other == name) = false := by simpa using hother
      rw [List.lookup_cons, hne]
      exact lookup_without_of_ne first hother

/-- However often a record is rewritten, it presents its value. -/
theorem Presents.reflTransGen {first second : List (Name × Document)}
    (hnodup : fields.names.Nodup) (hpresents : Presents fields value first)
    (hrewrites : Relation.ReflTransGen (Rewrites fields value) first second) :
    Presents fields value second := by
  induction hrewrites with
  | refl => exact hpresents
  | tail _ hlast ih => exact ih.rewrites hnodup hlast

end Records

end EdgeOrchestrator.Codecs

import EdgeOrchestrator.Foundation.Codecs
import EdgeOrchestrator.Node.JsonRpc
import EdgeOrchestrator.Storage.Hashing

/-!
# Types as JSON documents

The types that nodes exchange derive their JSON form. A number is written as an integer and read
within the bounds of its type, a vector is an array, an absent option is `null`, a struct is an
object and an enum is tagged with the name of the variant. Reading a struct looks its fields up by
name, or takes them from an array in their order. What is read here keeps every member of its
objects, at every depth.
-/

namespace EdgeOrchestrator.Wire.Serde

open Codecs Node Storage

def bool : Codec Json Bool where
  encode := .bool
  decode
    | .bool value => some value
    | _ => none
  Stands document value := document = .bool value
  Valid _ := True
  decode_eq_some_iff := by
    intro document value
    cases document <;> simp
  stands_encode _ := rfl

def string : Codec Json String where
  encode := .string
  decode := Json.asString
  Stands document value := document = .string value
  Valid _ := True
  decode_eq_some_iff := asString_eq_some_iff
  stands_encode _ := rfl

/-- An unsigned integer of some bits. -/
def unsigned (bits : ℕ) : Codec Json ℕ where
  encode value := .integer value
  decode
    | .integer value => if 0 ≤ value ∧ value < 2 ^ bits then some value.toNat else none
    | _ => none
  Stands document value := document = .integer value ∧ value < 2 ^ bits
  Valid value := value < 2 ^ bits
  decode_eq_some_iff := by
    intro document value
    cases document with
    | integer number =>
      simp only [Option.ite_none_right_eq_some, Option.some.injEq, Json.integer.injEq]
      constructor
      · rintro ⟨⟨hlow, hhigh⟩, rfl⟩
        refine ⟨(Int.toNat_of_nonneg hlow).symm, (Int.toNat_lt hlow).mpr ?_⟩
        exact_mod_cast hhigh
      · rintro ⟨rfl, hhigh⟩
        refine ⟨⟨Int.natCast_nonneg value, ?_⟩, Int.toNat_natCast value⟩
        exact_mod_cast hhigh
    | _ => simp
  stands_encode hvalid := ⟨rfl, hvalid⟩

/-- A signed integer of some bits. -/
def signed (bits : ℕ) : Codec Json ℤ where
  encode := .integer
  decode
    | .integer value =>
      if -2 ^ (bits - 1) ≤ value ∧ value < 2 ^ (bits - 1) then some value else none
    | _ => none
  Stands document value :=
    document = .integer value ∧ -2 ^ (bits - 1) ≤ value ∧ value < 2 ^ (bits - 1)
  Valid value := -2 ^ (bits - 1) ≤ value ∧ value < 2 ^ (bits - 1)
  decode_eq_some_iff := by
    intro document value
    cases document with
    | integer number =>
      simp only [Option.ite_none_right_eq_some, Option.some.injEq, Json.integer.injEq]
      constructor
      · rintro ⟨hrange, rfl⟩
        exact ⟨rfl, hrange⟩
      · rintro ⟨rfl, hrange⟩
        exact ⟨hrange, rfl⟩
    | _ => simp
  stands_encode hvalid := ⟨rfl, hvalid⟩

/-- `u8` -/
def byte : Codec Json UInt8 where
  encode value := .integer value.toNat
  decode document := ((unsigned 8).decode document).map UInt8.ofNat
  Stands document value := document = .integer value.toNat
  Valid _ := True
  decode_eq_some_iff := by
    intro document value
    simp only [Option.map_eq_some_iff, (unsigned 8).decode_eq_some_iff]
    constructor
    · rintro ⟨number, ⟨hdocument, hnumber⟩, rfl⟩
      rw [hdocument, UInt8.toNat_ofNat_of_lt' hnumber]
    · intro hdocument
      exact ⟨value.toNat, ⟨hdocument, value.toNat_lt⟩, UInt8.ofNat_toNat⟩
  stands_encode _ := rfl

/-- A type that is written as a text and parsed. -/
def text {Value : Type} (print : Value → String) (parse : String → Option Value) :
    Codec Json Value where
  encode value := .string (print value)
  decode document := document.asString.bind parse
  Stands document value := ∃ text, document = .string text ∧ parse text = some value
  Valid value := parse (print value) = some value
  decode_eq_some_iff := by
    intro document value
    simp only [Option.bind_eq_some_iff, asString_eq_some_iff]
  stands_encode hvalid := ⟨_, rfl, hvalid⟩

def option {Value : Type} (codec : Codec Json Value) : Codec Json (Option Value) where
  encode value := (value.map codec.encode).getD .null
  decode
    | .null => some none
    | document => (codec.decode document).map some
  Stands document value :=
    (document = .null ∧ value = none) ∨
      document ≠ .null ∧ ∃ held, value = some held ∧ codec.Stands document held
  Valid value := ∀ held, value = some held → codec.Valid held ∧ codec.encode held ≠ .null
  decode_eq_some_iff := by
    intro document value
    simp only [← codec.decode_eq_some_iff]
    cases document with
    | null => simp [eq_comm]
    | _ => simp [eq_comm, and_comm]
  stands_encode := by
    intro value hvalid
    cases value with
    | none => exact Or.inl ⟨rfl, rfl⟩
    | some held =>
      obtain ⟨hheld, hnull⟩ := hvalid held rfl
      exact Or.inr ⟨hnull, held, rfl, codec.stands_encode hheld⟩

def vec {Value : Type} (codec : Codec Json Value) : Codec Json (List Value) where
  encode values := .array (values.map codec.encode)
  decode
    | .array documents => documents.mapM codec.decode
    | _ => none
  Stands document values :=
    ∃ documents, document = .array documents ∧ List.Forall₂ codec.Stands documents values
  Valid values := ∀ value ∈ values, codec.Valid value
  decode_eq_some_iff := by
    intro document values
    cases document with
    | array documents =>
      simp only [mapM_eq_some_iff, codec.decode_eq_some_iff, Json.array.injEq, exists_eq_left']
    | _ => simp
  stands_encode := by
    intro values hvalid
    refine ⟨_, rfl, ?_⟩
    rw [List.forall₂_map_left_iff, List.forall₂_same]
    exact fun value hmem ↦ codec.stands_encode (hvalid value hmem)

/-- The fields of a struct. -/
def record {Parts : Type} (fields : Fields String Json Parts) (hnodup : fields.names.Nodup) :
    Codec Json Parts where
  encode values := .object (fields.encode values)
  decode document := (document.fields fields.names).bind fields.decode
  Stands document values :=
    ∃ view, document.fields fields.names = some view ∧ fields.Shows view values
  Valid := fields.Valid
  decode_eq_some_iff := by
    intro document values
    simp only [Option.bind_eq_some_iff, fields.decode_eq_some_iff]
  stands_encode := by
    intro values hvalid
    obtain ⟨honce, hshows⟩ := presents_encode hnodup hvalid
    exact ⟨_, if_pos honce, hshows⟩

def struct {Value Parts : Type} (fields : Fields String Json Parts) (hnodup : fields.names.Nodup)
    (parts : Value ≃ Parts) : Codec Json Value :=
  (record fields hnodup).via parts

/-- An object stands for a struct when its members present the fields. -/
theorem stands_of_presents {Value Parts : Type} {fields : Fields String Json Parts}
    {hnodup : fields.names.Nodup} {parts : Value ≃ Parts} {members : List (String × Json)}
    {value : Value} (hpresents : Presents fields (parts value) members) :
    (struct fields hnodup parts).Stands (.object members) value :=
  ⟨_, if_pos hpresents.1, hpresents.2⟩

/-- An array has a value for every field. Where a field may be absent because its type is an option,
it still has to be there in an array. -/
def hasAllFields (count : ℕ) : Json → Bool
  | .array values => count ≤ values.length
  | _ => true

/-- The name of a variant without content: alone, or as the tag of nothing. -/
def variantName : Json → Option String
  | .string name => some name
  | .object [(name, .null)] => some name
  | _ => none

/-- An enum whose variants have no content. -/
def unitEnum {Value : Type} (name : Value → String) (variants : List Value)
    (hall : ∀ value, value ∈ variants) (hname : Function.Injective name) : Codec Json Value where
  encode value := .string (name value)
  decode document := (variantName document).bind fun text ↦
    variants.find? fun variant ↦ name variant == text
  Stands document value := variantName document = some (name value)
  Valid _ := True
  decode_eq_some_iff := by
    intro document value
    rw [Option.bind_eq_some_iff]
    constructor
    · rintro ⟨text, htext, hfound⟩
      have hnamed : (name value == text) = true := by simpa using List.find?_some hfound
      rw [htext, eq_of_beq hnamed]
    · intro htext
      refine ⟨_, htext, ?_⟩
      cases hfound : variants.find? fun variant ↦ name variant == name value with
      | none => simpa using List.find?_eq_none.mp hfound value (hall value)
      | some variant =>
        have hnamed : (name variant == name value) = true := by simpa using List.find?_some hfound
        rw [hname (eq_of_beq hnamed)]
  stands_encode _ := rfl

/-! ## Text -/

mutual

/-- `serde_json::to_string` of a document without floats, which the exchanged types have none of. -/
def compact : Json → String
  | .null => "null"
  | .bool value => toString value
  | .integer value => toString value
  | .float _ => "null"
  | .string text => jsonString text
  | .array values => "[" ++ compactValues values ++ "]"
  | .object members => "\x7b" ++ compactMembers members ++ "\x7d"

def compactValues : List Json → String
  | [] => ""
  | [value] => compact value
  | value :: rest => compact value ++ "," ++ compactValues rest

def compactMembers : List (String × Json) → String
  | [] => ""
  | [(name, value)] => jsonString name ++ ":" ++ compact value
  | (name, value) :: rest =>
    jsonString name ++ ":" ++ compact value ++ "," ++ compactMembers rest

end

mutual

/-- The characters of the text of a document, which are told apart without building the text. -/
def compactChars : Json → List Char
  | .null => "null".toList
  | .bool value => (toString value).toList
  | .integer value => (toString value).toList
  | .float _ => "null".toList
  | .string text => '"' :: text.toList.flatMap jsonChar ++ ['"']
  | .array values => '[' :: compactCharsOfValues values ++ [']']
  | .object members => '\x7b' :: compactCharsOfMembers members ++ ['\x7d']

def compactCharsOfValues : List Json → List Char
  | [] => []
  | [value] => compactChars value
  | value :: rest => compactChars value ++ ',' :: compactCharsOfValues rest

def compactCharsOfMembers : List (String × Json) → List Char
  | [] => []
  | [(name, value)] => ('"' :: name.toList.flatMap jsonChar ++ ['"']) ++ ':' :: compactChars value
  | (name, value) :: rest =>
    ('"' :: name.toList.flatMap jsonChar ++ ['"']) ++ ':' :: compactChars value ++
      ',' :: compactCharsOfMembers rest

end

mutual

theorem toList_compact : (document : Json) → (compact document).toList = compactChars document
  | .null => rfl
  | .bool _ => rfl
  | .integer _ => rfl
  | .float _ => rfl
  | .string _ => String.toList_ofList
  | .array values => by
    rw [compact, compactChars, String.toList_append, String.toList_append,
      toList_compactValues values]
    rfl
  | .object members => by
    rw [compact, compactChars, String.toList_append, String.toList_append,
      toList_compactMembers members]
    rfl

theorem toList_compactValues :
    (values : List Json) → (compactValues values).toList = compactCharsOfValues values
  | [] => rfl
  | [value] => toList_compact value
  | value :: next :: rest => by
    rw [compactValues, compactCharsOfValues, String.toList_append, String.toList_append,
      toList_compact value, toList_compactValues (next :: rest), List.append_assoc]
    · rfl
    · exact List.cons_ne_nil _ _
    · exact List.cons_ne_nil _ _

theorem toList_compactMembers : (members : List (String × Json)) →
    (compactMembers members).toList = compactCharsOfMembers members
  | [] => rfl
  | [(name, value)] => by
    rw [compactMembers, compactCharsOfMembers, String.toList_append, String.toList_append,
      toList_compact value, jsonString, String.toList_ofList, List.append_assoc]
    rfl
  | (name, value) :: next :: rest => by
    rw [compactMembers, compactCharsOfMembers, String.toList_append, String.toList_append,
      String.toList_append, String.toList_append, toList_compact value,
      toList_compactMembers (next :: rest), jsonString, String.toList_ofList]
    · simp
    · exact List.cons_ne_nil _ _
    · exact List.cons_ne_nil _ _

end

theorem utf8_compact (document : Json) :
    utf8 (compact document) = (compactChars document).flatMap String.utf8EncodeChar := by
  rw [utf8, toList_compact]

/-- The parser of `serde_json`, and its error for a document of another shape. -/
structure SerdeReader where
  parse : Bytes → Except String Json
  shapeError : Json → String

def toVec {Value : Type} (codec : Codec Json Value) (value : Value) : Bytes :=
  utf8 (compact (codec.encode value))

namespace SerdeReader

variable (text : SerdeReader)

/-- The text of a document is read as the document, and no part of it is a document. -/
structure ReadsBack (document : Json) : Prop where
  parses : text.parse (utf8 (compact document)) = .ok document
  complete : ∀ short, short <+: utf8 (compact document) → short ≠ utf8 (compact document) →
    ∀ other, text.parse short ≠ .ok other

variable {Value : Type} (codec : Codec Json Value)

/-- `serde_json::from_slice` -/
def fromSlice (bytes : Bytes) : Except String Value :=
  match text.parse bytes with
  | .error error => .error error
  | .ok document =>
    match codec.decode document with
    | some value => .ok value
    | none => .error (text.shapeError document)

variable {text codec} {value : Value}

/-- A text that is read as a document that stands for a value is read as the value. -/
theorem fromSlice_of_stands {bytes : Bytes} {document : Json}
    (hparse : text.parse bytes = .ok document) (hstands : codec.Stands document value) :
    text.fromSlice codec bytes = .ok value := by
  simp only [fromSlice, hparse, codec.decode_eq_some_iff.mpr hstands]

theorem fromSlice_toVec (hvalid : codec.Valid value) (hback : text.ReadsBack (codec.encode value)) :
    text.fromSlice codec (toVec codec value) = .ok value :=
  fromSlice_of_stands hback.parses (codec.stands_encode hvalid)

end SerdeReader

/-- The parser as far as some documents need it. -/
def textOf (documents : List Json) : SerdeReader where
  parse bytes :=
    match documents.find? fun document ↦ utf8 (compact document) == bytes with
    | some document => .ok document
    | none => .error "expected value"
  shapeError _ := "invalid type"

/-- Neither document is written as the beginning of the other. -/
def Apart (first second : Json) : Prop :=
  ¬ utf8 (compact first) <+: utf8 (compact second) ∧
    ¬ utf8 (compact second) <+: utf8 (compact first)

instance : DecidableRel Apart := fun first second ↦
  decidable_of_iff
    (¬ (compactChars first).flatMap String.utf8EncodeChar <+:
        (compactChars second).flatMap String.utf8EncodeChar ∧
      ¬ (compactChars second).flatMap String.utf8EncodeChar <+:
        (compactChars first).flatMap String.utf8EncodeChar)
    (by rw [Apart, utf8_compact, utf8_compact])

instance : Std.Symm Apart := ⟨fun _ _ happart ↦ ⟨happart.2, happart.1⟩⟩

theorem readsBack_textOf {documents : List Json} (happart : documents.Pairwise Apart)
    {document : Json} (hmem : document ∈ documents) : (textOf documents).ReadsBack document := by
  have hsame : ∀ other ∈ documents, utf8 (compact other) <+: utf8 (compact document) →
      other = document := by
    intro other hother hbegins
    by_contra hne
    exact (happart.forall hother hmem hne).1 hbegins
  constructor
  · change (match documents.find? fun other ↦ utf8 (compact other) == utf8 (compact document) with
      | some found => Except.ok found
      | none => .error "expected value") = .ok document
    cases hfound : documents.find? fun other ↦ utf8 (compact other) == utf8 (compact document) with
    | none => simpa using List.find?_eq_none.mp hfound document hmem
    | some found =>
      have hequal : utf8 (compact found) = utf8 (compact document) := by
        simpa using List.find?_some hfound
      rw [hsame found (List.mem_of_find?_eq_some hfound) (hequal ▸ List.prefix_rfl)]
  · intro short hshort hne other hparsed
    change (match documents.find? fun other ↦ utf8 (compact other) == short with
      | some found => Except.ok found
      | none => .error "expected value") = .ok other at hparsed
    cases hfound : documents.find? fun other ↦ utf8 (compact other) == short with
    | none => simp [hfound] at hparsed
    | some found =>
      have hequal : utf8 (compact found) = short := by simpa using List.find?_some hfound
      have hdocument := hsame found (List.mem_of_find?_eq_some hfound) (hequal ▸ hshort)
      exact hne (hequal ▸ hdocument ▸ rfl)

/-! ## Plain texts -/

/-- A text of characters that take one byte each. -/
theorem length_utf8_of_ascii {text : String} (hascii : ∀ char ∈ text.toList, char.toNat < 128) :
    (utf8 text).length = text.toList.length := by
  have hone : text.toList.map (fun char ↦ (String.utf8EncodeChar char).length) =
      text.toList.map fun _ ↦ 1 := by
    apply List.map_congr_left
    intro char hmem
    rw [String.length_utf8EncodeChar, Char.utf8Size_eq_one_iff]
    exact Nat.le_of_lt_succ (hascii char hmem)
  rw [utf8, List.length_flatMap, hone]
  simp

/-- The character takes one byte, inside a JSON string too. -/
def IsPlain (char : Char) : Prop := char.toNat < 128 ∧ jsonChar char = [char]

instance : DecidablePred IsPlain := fun _ ↦ inferInstanceAs (Decidable (_ ∧ _))

theorem isPlain_hexDigit {digit : ℕ} (hdigit : digit < 16) : IsPlain (hexDigit digit) := by
  interval_cases digit <;> decide

/-- The text is written as it is. -/
def IsPlainText (content : String) : Prop := ∀ char ∈ content.toList, IsPlain char

instance : DecidablePred IsPlainText := fun content ↦ List.decidableBAll _ content.toList

/-- A plain text is written between quotes as it is. -/
theorem utf8_jsonString_of_plain {content : String} (hplain : IsPlainText content) :
    utf8 (jsonString content) = 34 :: (utf8 content ++ [34]) := by
  have hsame : content.toList.flatMap jsonChar = content.toList := by
    have hsingle : content.toList.flatMap jsonChar = content.toList.flatMap fun char ↦ [char] :=
      List.flatMap_congr fun char hchar ↦ (hplain char hchar).2
    rw [hsingle, List.flatMap_singleton']
  have hquote : String.utf8EncodeChar '"' = [34] := by decide
  rw [jsonString, hsame, utf8, String.toList_ofList]
  simp only [List.cons_append, List.flatMap_cons, List.flatMap_append, List.flatMap_nil, hquote,
    List.append_nil, List.nil_append]
  rfl

theorem length_jsonString_of_plain {content : String} (hplain : IsPlainText content) :
    (utf8 (jsonString content)).length = content.toList.length + 2 := by
  rw [utf8_jsonString_of_plain hplain, List.length_cons, List.length_append,
    length_utf8_of_ascii fun char hchar ↦ (hplain char hchar).1]
  rfl

/-- An object with one member is as long as its name, its value and the marks around them. -/
theorem length_compact_of_one_member {name : String} (hname : IsPlainText name) (value : Json) :
    (utf8 (compact (.object [(name, value)]))).length =
      name.toList.length + 5 + (utf8 (compact value)).length := by
  have htext : compact (.object [(name, value)]) =
      "\x7b" ++ (jsonString name ++ ":" ++ compact value) ++ "\x7d" := rfl
  have hopen : (utf8 "\x7b").length = 1 := by decide
  have hcolon : (utf8 ":").length = 1 := by decide
  have hclose : (utf8 "\x7d").length = 1 := by decide
  rw [htext]
  simp only [utf8_append, List.length_append, hopen, hcolon, hclose,
    length_jsonString_of_plain hname]
  omega

/-- The bytes of a plain text hold no quotation mark. -/
theorem quote_notMem_utf8 {content : String} (hplain : IsPlainText content) :
    (34 : UInt8) ∉ utf8 content := by
  intro hmem
  obtain ⟨char, hchar, hbyte⟩ := List.mem_flatMap.mp hmem
  have hascii := (hplain char hchar).1
  have hencode : String.utf8EncodeChar char = [UInt8.ofNat char.toNat] :=
    if_pos (Nat.le_of_lt_succ hascii)
  rw [hencode, List.mem_singleton] at hbyte
  have hcode := congrArg UInt8.toNat hbyte
  rw [UInt8.toNat_ofNat_of_lt' (lt_trans hascii (by decide))] at hcode
  have hquote : char = '"' := Char.toNat_inj.mp hcode.symm
  have hescaped := (hplain char hchar).2
  rw [hquote] at hescaped
  exact absurd hescaped (by decide)

/-- How the text of an object begins. -/
theorem exists_utf8_compact_object {name : String} (hname : IsPlainText name)
    (value : Json) (rest : List (String × Json)) :
    ∃ tail, utf8 (compact (.object ((name, value) :: rest))) =
      123 :: 34 :: (utf8 name ++ 34 :: tail) := by
  have hopen : utf8 "\x7b" = [123] := by decide
  have hmembers : ∃ after, compactMembers ((name, value) :: rest) = jsonString name ++ after := by
    cases rest with
    | nil => exact ⟨_, String.append_assoc ..⟩
    | cons next others => exact ⟨_, by simp only [compactMembers, String.append_assoc]; rfl⟩
  obtain ⟨after, hmembers⟩ := hmembers
  refine ⟨utf8 after ++ utf8 "\x7d", ?_⟩
  rw [compact, hmembers, utf8_append, utf8_append, utf8_append, hopen,
    utf8_jsonString_of_plain hname]
  simp

/-- Objects that begin with different plain names are told apart at the name. -/
theorem apart_of_first_name {first second : String} {firstValue secondValue : Json}
    {firstRest secondRest : List (String × Json)}
    (hfirst : IsPlainText first) (hsecond : IsPlainText second) (hne : first ≠ second) :
    Apart (.object ((first, firstValue) :: firstRest))
      (.object ((second, secondValue) :: secondRest)) := by
  obtain ⟨firstTail, hfirstText⟩ := exists_utf8_compact_object hfirst firstValue firstRest
  obtain ⟨secondTail, hsecondText⟩ := exists_utf8_compact_object hsecond secondValue secondRest
  have hcut : ∀ {left right : Bytes},
      utf8 first ++ 34 :: left = utf8 second ++ 34 :: right → False := by
    intro left right hsame
    exact hne (utf8_injective (DelimitedText.cut_first (quote_notMem_utf8 hfirst)
      (quote_notMem_utf8 hsecond) hsame).1)
  rw [Apart, hfirstText, hsecondText]
  constructor
  · rintro ⟨more, hmore⟩
    simp only [List.cons_append, List.append_assoc, List.cons.injEq, true_and] at hmore
    exact hcut hmore
  · rintro ⟨more, hmore⟩
    simp only [List.cons_append, List.append_assoc, List.cons.injEq, true_and] at hmore
    exact hcut hmore.symm

/-- Objects that begin with the same member are told apart at different plain second names. -/
theorem apart_of_second_name {name first second : String} {value firstValue secondValue : Json}
    {firstRest secondRest : List (String × Json)}
    (hfirst : IsPlainText first) (hsecond : IsPlainText second) (hne : first ≠ second) :
    Apart (.object ((name, value) :: (first, firstValue) :: firstRest))
      (.object ((name, value) :: (second, secondValue) :: secondRest)) := by
  have hobject : ∀ members : List (String × Json), utf8 (compact (.object members)) =
      utf8 "\x7b" ++ utf8 (compactMembers members ++ "\x7d") := by
    intro members
    rw [compact, String.append_assoc, utf8_append]
  have hmembers : ∀ (next : String × Json) (rest : List (String × Json)),
      utf8 (compactMembers ((name, value) :: next :: rest) ++ "\x7d") =
        utf8 (jsonString name ++ ":" ++ compact value ++ ",") ++
          utf8 (compactMembers (next :: rest) ++ "\x7d") := by
    intro next rest
    rw [← utf8_append, compactMembers]
    · simp only [String.append_assoc]
    · simp
  have hinner : Apart (.object ((first, firstValue) :: firstRest))
      (.object ((second, secondValue) :: secondRest)) := apart_of_first_name hfirst hsecond hne
  rw [Apart, hobject, hobject] at hinner
  rw [Apart, hobject, hobject, hmembers, hmembers]
  simp only [List.prefix_append_right_inj] at hinner ⊢
  exact hinner

/-- Documents are told apart at the first byte in which they differ. -/
theorem apart_of_byte {first second : Json} {shared left right : Bytes} {one other : UInt8}
    (hfirst : utf8 (compact first) = shared ++ one :: left)
    (hsecond : utf8 (compact second) = shared ++ other :: right) (hne : one ≠ other) :
    Apart first second := by
  rw [Apart, hfirst, hsecond, List.prefix_append_right_inj, List.prefix_append_right_inj]
  constructor
  · intro hbegins
    exact hne (List.cons_prefix_cons.mp hbegins).1
  · intro hbegins
    exact hne (List.cons_prefix_cons.mp hbegins).1.symm

theorem notMem_flatMap_utf8EncodeChar {chars : List Char} {mark : Char}
    (hchars : ∀ char ∈ chars, char.toNat < 128) (hmark : mark.toNat < 128) (hnot : mark ∉ chars) :
    UInt8.ofNat mark.toNat ∉ chars.flatMap String.utf8EncodeChar := by
  intro hmem
  obtain ⟨char, hchar, hbyte⟩ := List.mem_flatMap.mp hmem
  have hascii := hchars char hchar
  have hencode : String.utf8EncodeChar char = [UInt8.ofNat char.toNat] :=
    if_pos (Nat.le_of_lt_succ hascii)
  rw [hencode, List.mem_singleton] at hbyte
  have hcode := congrArg UInt8.toNat hbyte
  rw [UInt8.toNat_ofNat_of_lt' (lt_trans hmark (by decide)),
    UInt8.toNat_ofNat_of_lt' (lt_trans hascii (by decide))] at hcode
  exact hnot (Char.toNat_inj.mp hcode ▸ hchar)

/-- Documents are told apart at different plain texts that end with the same mark. -/
theorem apart_of_cut {first second : Json} {shared one other left right : List Char} {mark : Char}
    (hfirst : (compact first).toList = shared ++ (one ++ mark :: left))
    (hsecond : (compact second).toList = shared ++ (other ++ mark :: right))
    (hone : ∀ char ∈ one, char.toNat < 128) (hother : ∀ char ∈ other, char.toNat < 128)
    (hmark : mark.toNat < 128) (hnotOne : mark ∉ one) (hnotOther : mark ∉ other)
    (hne : one ≠ other) : Apart first second := by
  have hbyte : String.utf8EncodeChar mark = [UInt8.ofNat mark.toNat] :=
    if_pos (Nat.le_of_lt_succ hmark)
  have hcut : ∀ {before after : Bytes},
      one.flatMap String.utf8EncodeChar ++ UInt8.ofNat mark.toNat :: before =
        other.flatMap String.utf8EncodeChar ++ UInt8.ofNat mark.toNat :: after → False := by
    intro before after hsame
    have hbytes := (DelimitedText.cut_first (notMem_flatMap_utf8EncodeChar hone hmark hnotOne)
      (notMem_flatMap_utf8EncodeChar hother hmark hnotOther) hsame).1
    have htexts : utf8 (String.ofList one) = utf8 (String.ofList other) := by
      rw [utf8, utf8, String.toList_ofList, String.toList_ofList, hbytes]
    exact hne (String.ofList_inj.mp (utf8_injective htexts))
  rw [Apart, utf8, utf8, hfirst, hsecond]
  simp only [List.flatMap_append, List.flatMap_cons, hbyte, List.prefix_append_right_inj,
    List.singleton_append]
  constructor
  · rintro ⟨more, hmore⟩
    rw [List.append_assoc] at hmore
    exact hcut hmore
  · rintro ⟨more, hmore⟩
    rw [List.append_assoc] at hmore
    exact hcut hmore.symm

/-- How the text of an object begins whose first member is a text. -/
theorem exists_compact_object_string (name content : String) (rest : List (String × Json)) :
    ∃ after, (compact (.object ((name, .string content) :: rest))).toList =
      ('\x7b' :: '"' :: name.toList.flatMap jsonChar ++ ['"', ':', '"']) ++
        (content.toList.flatMap jsonChar ++ '"' :: after) := by
  cases rest with
  | nil => exact ⟨['\x7d'], by simp [compact, compactMembers, jsonString]⟩
  | cons next others =>
    exact ⟨',' :: (compactMembers (next :: others)).toList ++ ['\x7d'],
      by simp [compact, compactMembers, jsonString]⟩

end EdgeOrchestrator.Wire.Serde

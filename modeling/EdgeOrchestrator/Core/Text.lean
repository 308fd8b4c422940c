import EdgeOrchestrator.Core.Types

/-!
# Bytes as text and text as lines

Output of programs is decoded with a replacement character in the place of everything that is not
UTF-8, so text stays as it is. Lines end with a line feed or with a carriage return and a line feed.
The end of a text may lack a line end.
-/

namespace EdgeOrchestrator

/-! ## Lossy decoding -/

def isContinuation (byte : UInt8) : Bool := 0x80 ≤ byte && byte ≤ 0xbf

/-- A byte that may follow the first of three or four bytes. -/
def mayFollow (first second : UInt8) : Bool :=
  if first = 0xe0 then 0xa0 ≤ second && second ≤ 0xbf
  else if first = 0xed then 0x80 ≤ second && second ≤ 0x9f
  else if first = 0xf0 then 0x90 ≤ second && second ≤ 0xbf
  else if first = 0xf4 then 0x80 ≤ second && second ≤ 0x8f
  else 0xe1 ≤ first && first ≤ 0xf3 && isContinuation second

/-- How many bytes the replacement character stands for: the longest beginning of a character. -/
def invalidLength : Bytes → ℕ
  | first :: second :: rest =>
    if mayFollow first second then
      match rest with
      | third :: _ => if 0xf0 ≤ first && isContinuation third then 3 else 2
      | [] => 2
    else 1
  | _ => 1

/-- The characters of some bytes, of which the first ones belong to the character before. -/
def lossyChars : ℕ → Bytes → List Char
  | _, [] => []
  | skipped + 1, _ :: rest => lossyChars skipped rest
  | 0, byte :: rest =>
    match (byte :: rest).toByteArray.utf8DecodeChar? 0 with
    | some char => char :: lossyChars (char.utf8Size - 1) rest
    | none => '\uFFFD' :: lossyChars (invalidLength (byte :: rest) - 1) rest

/-- `String::from_utf8_lossy` -/
def fromUtf8Lossy (bytes : Bytes) : String := String.ofList (lossyChars 0 bytes)

theorem lossyChars_append (skipped : Bytes) (rest : Bytes) :
    lossyChars skipped.length (skipped ++ rest) = lossyChars 0 rest := by
  induction skipped with
  | nil => rfl
  | cons byte skipped ih => exact ih

theorem lossyChars_utf8EncodeChar (char : Char) (rest : Bytes) :
    lossyChars 0 (String.utf8EncodeChar char ++ rest) = char :: lossyChars 0 rest := by
  have hlength := String.length_utf8EncodeChar char
  have hdecode :
      (String.utf8EncodeChar char ++ rest).toByteArray.utf8DecodeChar? 0 = some char := by
    rw [List.toByteArray_append]
    exact ByteArray.utf8DecodeChar?_utf8EncodeChar_append
  cases hbytes : String.utf8EncodeChar char with
  | nil =>
    rw [hbytes] at hlength
    exact absurd hlength.symm char.utf8Size_pos.ne'
  | cons byte others =>
    rw [hbytes, List.cons_append] at hdecode
    rw [hbytes, List.length_cons] at hlength
    rw [List.cons_append, lossyChars, hdecode]
    have hskipped : char.utf8Size - 1 = others.length := by rw [← hlength, Nat.add_sub_cancel]
    simp only [hskipped, lossyChars_append]

/-- Text is decoded as it is. -/
theorem fromUtf8Lossy_utf8 (text : String) : fromUtf8Lossy (utf8 text) = text := by
  have hchars : ∀ chars : List Char,
      lossyChars 0 (chars.flatMap String.utf8EncodeChar) = chars := by
    intro chars
    induction chars with
    | nil => rfl
    | cons char rest ih => rw [List.flatMap_cons, lossyChars_utf8EncodeChar, ih]
  rw [fromUtf8Lossy, utf8, hchars, String.ofList_toList]

/-! ## Lines -/

/-- The lines of a text, as lists of characters. A carriage return goes with the line feed. -/
def lineChars : List Char → List (List Char)
  | [] => []
  | char :: rest =>
    if char = '\n' then [] :: lineChars rest
    else if char = '\r' ∧ rest.head? = some '\n' then lineChars rest
    else
      match lineChars rest with
      | [] => [[char]]
      | line :: others => (char :: line) :: others

/-- `str::lines` -/
def lines (text : String) : List String := (lineChars text.toList).map String.ofList

/-- What is in front of a line feed is a line, and no carriage return belongs to its end. -/
def IsLine (line : String) : Prop :=
  '\n' ∉ line.toList ∧ line.toList.getLast? ≠ some '\r'

instance : DecidablePred IsLine := fun _ ↦ inferInstanceAs (Decidable (_ ∧ _))

theorem lineChars_append {line : List Char} (hfeed : '\n' ∉ line)
    (hreturn : line.getLast? ≠ some '\r') (rest : List Char) :
    lineChars (line ++ '\n' :: rest) = line :: lineChars rest := by
  induction line with
  | nil => exact if_pos rfl
  | cons char line ih =>
    have hchar : char ≠ '\n' := fun hsame ↦ hfeed (hsame ▸ List.mem_cons_self)
    have hrest : '\n' ∉ line := fun hmem ↦ hfeed (List.mem_cons_of_mem char hmem)
    -- A carriage return in front of a line feed would be the last character of the line.
    have hpair : ¬ (char = '\r' ∧ (line ++ '\n' :: rest).head? = some '\n') := by
      rintro ⟨rfl, hhead⟩
      cases line with
      | nil => exact hreturn rfl
      | cons next line => exact hrest (Option.some.inj hhead ▸ List.mem_cons_self)
    have hlast : line.getLast? ≠ some '\r' := by
      intro hlast
      rw [List.getLast?_cons, hlast] at hreturn
      exact hreturn rfl
    rw [List.cons_append, lineChars, if_neg hchar, if_neg hpair, ih hrest hlast]

/-- What `println` makes of some lines. -/
def printed (lines : List String) : String := String.join (lines.map (· ++ "\n"))

/-- Printed lines are read back. -/
theorem lines_printed {content : List String} (hlines : ∀ line ∈ content, IsLine line) :
    lines (printed content) = content := by
  induction content with
  | nil => rfl
  | cons line rest ih =>
    rw [List.forall_mem_cons] at hlines
    have hsplit : (printed (line :: rest)).toList =
        line.toList ++ '\n' :: (printed rest).toList := by
      simp [printed]
    have hrest := ih hlines.2
    rw [lines] at hrest ⊢
    rw [hsplit, lineChars_append hlines.1.1 hlines.1.2, List.map_cons, String.ofList_toList, hrest]

end EdgeOrchestrator

import EdgeOrchestrator.Foundation.Words
import Mathlib.Data.List.Flatten

/-!
# Texts as a shell reads them

A shell reads a text up to its first operator: quotes and backslashes go, comments are dropped, and
what stands between blanks are the words. What an expansion makes of a word is left to the shell and
the host, and so is a text whose quotes do not close.

Words of ordinary characters are read as they are written. Elsewhere something is lost: a text that
is not only ordinary characters and blanks has more quoting characters than what is read of it.
-/

namespace EdgeOrchestrator.Shell

def isBlank (char : Char) : Bool := char == ' ' || char == '\t'

def isOperator (char : Char) : Bool := ['\n', ';', '&', '|', '(', ')', '<', '>'].contains char

def isQuoting (char : Char) : Bool := ['\'', '"', '\\'].contains char

/-- A character that means itself outside quotes, if nothing expands. The null character ends a
text. -/
def isOrdinary (char : Char) : Bool :=
  !(isBlank char || isOperator char || isQuoting char || char == '\x00')

/-- What quotes leave of a character. An opening quote leaves a mark, since a word may be empty. In
double quotes a dollar sign and a backquote are only weakly quoted. -/
inductive Symbol
  | blank (char : Char)
  | mark
  | plain (char : Char)
  | weak (char : Char)
  | quoted (char : Char)
  deriving DecidableEq, Repr

namespace Symbol

def isBlank : Symbol → Bool
  | .blank _ => true
  | _ => false

def char? : Symbol → Option Char
  | .mark => none
  | .blank char | .plain char | .weak char | .quoted char => some char

end Symbol

inductive Mode
  | unquoted (atStart : Bool)
  | escaped (atStart : Bool)
  | single
  | double
  | doubleEscaped
  | comment

namespace Mode

/-- The character ends what is read. -/
def stops : Mode → Char → Bool
  | .unquoted _, char => isOperator char
  | .comment, char => char == '\n'
  | _, _ => false

def next : Mode → Char → Mode × List Symbol
  | .unquoted atStart, char =>
    if char = '\\' then (.escaped atStart, [])
    else if char = '\'' then (.single, [.mark])
    else if char = '"' then (.double, [.mark])
    else if Shell.isBlank char then (.unquoted true, [.blank char])
    else if atStart ∧ char = '#' then (.comment, [])
    else (.unquoted false, [.plain char])
  | .escaped atStart, char =>
    if char = '\n' then (.unquoted atStart, []) else (.unquoted false, [.quoted char])
  | .single, char => if char = '\'' then (.unquoted false, []) else (.single, [.quoted char])
  | .double, char =>
    if char = '"' then (.unquoted false, [])
    else if char = '\\' then (.doubleEscaped, [])
    else if char = '$' ∨ char = '`' then (.double, [.weak char])
    else (.double, [.quoted char])
  | .doubleEscaped, char =>
    if char = '\n' then (.double, [])
    else if ['$', '`', '"', '\\'].contains char then (.double, [.quoted char])
    else (.double, [.quoted '\\', .quoted char])
  | .comment, _ => (.comment, [])

/-- What the end of the text leaves to read; a quote must have closed. -/
def atEnd : Mode → Option (List Symbol)
  | .unquoted _ | .comment => some []
  | .escaped _ => some [.quoted '\\']
  | .single | .double | .doubleEscaped => none

end Mode

/-- What is read of a text up to its first operator, and the rest of the text. -/
def scan : Mode → List Char → Option (List Symbol × List Char)
  | mode, [] => mode.atEnd.map fun symbols ↦ (symbols, [])
  | mode, char :: rest =>
    if char = '\x00' then mode.atEnd.map fun symbols ↦ (symbols, [])
    else if mode.stops char then some ([], char :: rest)
    else (scan (mode.next char).1 rest).map fun read ↦ ((mode.next char).2 ++ read.1, read.2)

/-- A bracket expression begins somewhere in the component: a bracket that is closed behind at least
one character. -/
def hasBracketExpression : List Symbol → Bool
  | [] => false
  | first :: rest =>
    (first == .plain '[' &&
      match rest with
      | .plain '!' :: _ :: more | .plain '^' :: _ :: more | _ :: more => more.contains (.plain ']')
      | [] => false) || hasBracketExpression rest

/-- Some shell expands the word: there is a tilde at its start, a dollar sign or a backquote, a
wildcard or a bracket expression, or a brace that is closed. -/
def expands (word : List Symbol) : Bool :=
  word.head? == some (.plain '~') ||
    word.any (fun symbol ↦ [.plain '$', .weak '$', .plain '`', .weak '`', .plain '*',
      .plain '?'].contains symbol) ||
    (word.splitOn (.plain '/')).any hasBracketExpression ||
    (word.dropWhile (· != .plain '{')).contains (.plain '}')

def wordText (word : List Symbol) : List Char := word.filterMap Symbol.char?

/-- The words up to the first operator, and the rest of the text. -/
def readWords (expand : List Char → Option (List (List Char) × List Char)) (text : List Char) :
    Option (List (List Char) × List Char) :=
  match scan (.unquoted true) text with
  | none => expand text
  | some (symbols, rest) =>
    if (words Symbol.isBlank symbols).any expands then expand text
    else some ((words Symbol.isBlank symbols).map wordText, rest)

/-- A word that every shell reads as it is written. -/
structure IsLiteral (word : List Char) : Prop where
  nonempty : word ≠ []
  no_comment : word.head? ≠ some '#'
  ordinary : word.all isOrdinary = true
  kept : expands (word.map Symbol.plain) = false

example : (readWords (fun _ ↦ none) "cd '/a b'/\\$x\"\\c\"'' && x".toList).map
      (fun read ↦ (read.1.map String.ofList, String.ofList read.2)) =
    some (["cd", "/a b/$x\\c"], "&& x") := by decide

section Scan

variable {mode : Mode} {char : Char} {text rest : List Char} {symbols : List Symbol}

theorem scan_cons (hnull : char ≠ '\x00') (hgoes : mode.stops char = false) :
    scan mode (char :: text) = (scan (mode.next char).1 text).map fun read ↦
      ((mode.next char).2 ++ read.1, read.2) := by
  rw [scan, if_neg hnull, hgoes]
  rfl

theorem ordinary_iff : isOrdinary char = true ↔
    isBlank char = false ∧ isOperator char = false ∧ isQuoting char = false ∧ char ≠ '\x00' := by
  simp [isOrdinary, and_assoc]

theorem scan_cons_of_ordinary {atStart : Bool} (hchar : isOrdinary char = true) :
    scan (.unquoted atStart) (char :: text) =
      (scan ((Mode.unquoted atStart).next char).1 text).map fun read ↦
        (((Mode.unquoted atStart).next char).2 ++ read.1, read.2) := by
  obtain ⟨-, hoperator, -, hnull⟩ := ordinary_iff.mp hchar
  exact scan_cons hnull hoperator

theorem not_quoting_iff : isQuoting char = false ↔ char ≠ '\'' ∧ char ≠ '"' ∧ char ≠ '\\' := by
  simp [isQuoting]

theorem next_of_ordinary {atStart : Bool} (hchar : isOrdinary char = true)
    (hcomment : ¬ (atStart = true ∧ char = '#')) :
    (Mode.unquoted atStart).next char = (.unquoted false, [.plain char]) := by
  obtain ⟨hblank, -, hquoting, -⟩ := ordinary_iff.mp hchar
  obtain ⟨hsingle, hdouble, hescape⟩ := not_quoting_iff.mp hquoting
  simp only [Mode.next, hsingle, hdouble, hescape, hblank, hcomment, if_false, Bool.false_eq_true]

theorem next_of_blank {atStart : Bool} (hchar : isBlank char = true) :
    (Mode.unquoted atStart).next char = (.unquoted true, [.blank char]) := by
  have hcases : char = ' ' ∨ char = '\t' := by simpa [isBlank] using hchar
  rcases hcases with rfl | rfl <;> rfl

end Scan

/-! ## Literal words -/

section Literal

variable {word tail rest : List Char} {blanks : List Symbol}
  {expand : List Char → Option (List (List Char) × List Char)}

theorem scan_ordinary (hword : ∀ char ∈ word, isOrdinary char = true) (tail : List Char) :
    scan (.unquoted false) (word ++ tail) = (scan (.unquoted false) tail).map fun read ↦
      (word.map Symbol.plain ++ read.1, read.2) := by
  induction word with
  | nil => exact Option.map_id.symm ▸ rfl
  | cons first others ih =>
    rw [List.forall_mem_cons] at hword
    rw [List.cons_append, scan_cons_of_ordinary hword.1,
      next_of_ordinary hword.1 fun hboth ↦ Bool.false_ne_true hboth.1, ih hword.2, Option.map_map]
    rfl

theorem scan_literal (hword : IsLiteral word) (atStart : Bool) (tail : List Char) :
    scan (.unquoted atStart) (word ++ tail) = (scan (.unquoted false) tail).map fun read ↦
      (word.map Symbol.plain ++ read.1, read.2) := by
  obtain ⟨first, others, rfl⟩ := List.exists_cons_of_ne_nil hword.nonempty
  have hordinary := List.forall_mem_cons.mp (List.all_eq_true.mp hword.ordinary)
  have hcomment : ¬ (atStart = true ∧ first = '#') :=
    fun hboth ↦ hword.no_comment (congrArg some hboth.2)
  rw [List.cons_append, scan_cons_of_ordinary hordinary.1, next_of_ordinary hordinary.1 hcomment,
    scan_ordinary hordinary.2, Option.map_map]
  rfl

theorem scan_space (mode : Bool) (tail : List Char) :
    scan (.unquoted mode) (' ' :: tail) = (scan (.unquoted true) tail).map fun read ↦
      (.blank ' ' :: read.1, read.2) :=
  scan_cons (by decide) rfl

theorem words_plain (hword : word ≠ []) :
    words Symbol.isBlank (word.map Symbol.plain) = [word.map Symbol.plain] := by
  apply words_of_no_blank (by simpa using hword)
  intro symbol hmem
  obtain ⟨char, -, rfl⟩ := List.mem_map.mp hmem
  rfl

theorem wordText_plain (word : List Char) : wordText (word.map Symbol.plain) = word := by
  rw [wordText, List.filterMap_map]
  exact List.filterMap_some

/-- Literal words with a space behind each are read as they are written. -/
theorem scan_literals {front : List (List Char)} (hfront : ∀ word ∈ front, IsLiteral word)
    (hlast : IsLiteral word) (htail : scan (.unquoted false) tail = some (blanks, rest))
    (hblanks : ∀ symbol ∈ blanks, symbol.isBlank = true) :
    ∃ symbols, scan (.unquoted true) (front.flatMap (· ++ [' ']) ++ (word ++ tail)) =
        some (symbols, rest) ∧
      words Symbol.isBlank symbols = (front ++ [word]).map (List.map Symbol.plain) := by
  induction front with
  | nil =>
    refine ⟨word.map Symbol.plain ++ blanks, ?_, ?_⟩
    · rw [List.flatMap_nil, List.nil_append, scan_literal hlast, htail]
      rfl
    · rw [words_append_blanks _ hblanks, words_plain hlast.nonempty]
      rfl
  | cons first others ih =>
    rw [List.forall_mem_cons] at hfront
    obtain ⟨symbols, hscan, hwords⟩ := ih hfront.2
    refine ⟨first.map Symbol.plain ++ .blank ' ' :: symbols, ?_, ?_⟩
    · rw [List.flatMap_cons, List.append_assoc, List.append_assoc, scan_literal hfront.1,
        List.singleton_append, scan_space, hscan]
      rfl
    · rw [words_append_blank rfl, words_plain hfront.1.nonempty, hwords]
      rfl

theorem readWords_literals {front : List (List Char)} (hfront : ∀ word ∈ front, IsLiteral word)
    (hlast : IsLiteral word) (htail : scan (.unquoted false) tail = some (blanks, rest))
    (hblanks : ∀ symbol ∈ blanks, symbol.isBlank = true) :
    readWords expand (front.flatMap (· ++ [' ']) ++ (word ++ tail)) =
      some (front ++ [word], rest) := by
  obtain ⟨symbols, hscan, hwords⟩ := scan_literals hfront hlast htail hblanks
  have hall : ∀ found ∈ front ++ [word], IsLiteral found := by
    intro found hmem
    rcases List.mem_append.mp hmem with hearlier | hhere
    · exact hfront found hearlier
    · exact List.mem_singleton.mp hhere ▸ hlast
  have hkept : ((front ++ [word]).map (List.map Symbol.plain)).any expands = false := by
    rw [List.any_map, List.any_eq_false]
    intro found hmem
    rw [Function.comp_apply, (hall found hmem).kept]
    exact Bool.false_ne_true
  rw [readWords, hscan]
  simp only [hwords, hkept, Bool.false_eq_true, if_false, List.map_map]
  exact congrArg (fun found ↦ some (found, rest))
    ((List.map_congr_left fun found _ ↦ wordText_plain found).trans (List.map_id _))

end Literal

/-! ## What is lost of other texts -/

section Lost

variable {mode : Mode} {text rest : List Char} {symbols : List Symbol}

theorem wordText_append (earlier later : List Symbol) :
    wordText (earlier ++ later) = wordText earlier ++ wordText later :=
  List.filterMap_append

/-- The backslash that is still to be read. -/
def Mode.pending : Mode → ℕ
  | .doubleEscaped => 1
  | _ => 0

/-- A character brings at most itself and the backslash before it. -/
theorem countP_next (mode : Mode) (char : Char) :
    (wordText (mode.next char).2).countP isQuoting + (mode.next char).1.pending ≤
      [char].countP isQuoting + mode.pending := by
  have hescape : isQuoting '\\' = true := rfl
  cases mode with
  | comment => exact Nat.zero_le _
  | _ =>
    simp only [Mode.next]
    split_ifs <;>
      simp_all [wordText, Symbol.char?, Mode.pending, List.countP_cons, List.filterMap_cons]

/-- Outside quotes a quoting character brings nothing. -/
theorem countP_next_of_quoting {atStart : Bool} {char : Char} (hquoting : isQuoting char = true) :
    (wordText ((Mode.unquoted atStart).next char).2).countP isQuoting +
      ((Mode.unquoted atStart).next char).1.pending = 0 := by
  have hcases : char = '\'' ∨ char = '"' ∨ char = '\\' := by simpa [isQuoting] using hquoting
  rcases hcases with rfl | rfl | rfl <;> rfl

theorem rest_of_atEnd
    (hend : mode.atEnd.map (fun symbols ↦ (symbols, ([] : List Char))) = some (symbols, rest)) :
    rest = [] := by
  rw [Option.map_eq_some_iff] at hend
  obtain ⟨left, -, hboth⟩ := hend
  exact (congrArg Prod.snd hboth).symm

/-- A text that goes on was stopped by its first character, or the character was read. -/
theorem scan_cons_cases {char : Char} (hscan : scan mode (char :: text) = some (symbols, rest)) :
    rest = [] ∨
      (mode.stops char = true ∧ symbols = [] ∧ rest = char :: text) ∨
      ∃ later, char ≠ '\x00' ∧ mode.stops char = false ∧
        scan (mode.next char).1 text = some (later, rest) ∧
        symbols = (mode.next char).2 ++ later := by
  rw [scan] at hscan
  split_ifs at hscan with hnull hstops
  · exact Or.inl (rest_of_atEnd hscan)
  · rw [Option.some_inj, Prod.mk.injEq] at hscan
    exact Or.inr (Or.inl ⟨hstops, hscan.1.symm, hscan.2.symm⟩)
  · rw [Option.map_eq_some_iff] at hscan
    obtain ⟨⟨later, remaining⟩, hread, hboth⟩ := hscan
    rw [Prod.mk.injEq] at hboth
    obtain ⟨rfl, rfl⟩ := hboth
    exact Or.inr (Or.inr ⟨later, hnull, by simpa using hstops, hread, rfl⟩)

theorem countP_scan (hscan : scan mode text = some (symbols, rest)) (hrest : rest ≠ []) :
    ∃ consumed, text = consumed ++ rest ∧
      (wordText symbols).countP isQuoting ≤ consumed.countP isQuoting + mode.pending := by
  induction text generalizing mode symbols with
  | nil => exact absurd (rest_of_atEnd hscan) hrest
  | cons char text ih =>
    rcases scan_cons_cases hscan with hend | ⟨-, rfl, rfl⟩ | ⟨later, -, -, hread, rfl⟩
    · exact absurd hend hrest
    · exact ⟨[], rfl, Nat.zero_le _⟩
    · obtain ⟨consumed, htext, hcount⟩ := ih hread
      refine ⟨char :: consumed, by rw [htext, List.cons_append], ?_⟩
      have hstep := countP_next mode char
      rw [wordText_append, List.countP_append, ← List.singleton_append, List.countP_append]
      omega

theorem scan_comment (hscan : scan .comment text = some (symbols, rest)) :
    rest = [] ∨ rest.head? = some '\n' := by
  induction text generalizing symbols with
  | nil => exact Or.inl (rest_of_atEnd hscan)
  | cons char text ih =>
    rcases scan_cons_cases hscan with hend | ⟨hstops, -, rfl⟩ | ⟨later, -, -, hread, -⟩
    · exact Or.inl hend
    · exact Or.inr (congrArg some (by simpa [Mode.stops] using hstops))
    · exact ih hread

/-- What an unquoted character is read as. -/
def bare (char : Char) : Symbol := if isBlank char then .blank char else .plain char

theorem wordText_bare (char : Char) : wordText [bare char] = [char] := by
  rw [bare]
  split_ifs <;> rfl

/-- All characters of a text are read as they are written, or some are lost. -/
def BareOrLost (symbols : List Symbol) (consumed : List Char) : Prop :=
  symbols = consumed.map bare ∧
      (∀ char ∈ consumed, isOrdinary char = true ∨ isBlank char = true) ∨
    (wordText symbols).countP isQuoting < consumed.countP isQuoting

theorem BareOrLost.cons {consumed : List Char} {char : Char}
    (hcases : BareOrLost symbols consumed)
    (hchar : isOrdinary char = true ∨ isBlank char = true) :
    BareOrLost (bare char :: symbols) (char :: consumed) := by
  apply hcases.imp
  · rintro ⟨rfl, hall⟩
    exact ⟨rfl, List.forall_mem_cons.mpr ⟨hchar, hall⟩⟩
  · intro hlost
    rw [← List.singleton_append, wordText_append, wordText_bare, List.countP_append]
    exact lt_of_lt_of_eq (Nat.add_lt_add_left hlost _) List.countP_append.symm

theorem scan_bare_or_lost {atStart : Bool} (hscan : scan (.unquoted atStart) text =
    some (symbols, rest)) (hrest : rest.head? = some '&') :
    ∃ consumed, text = consumed ++ rest ∧ BareOrLost symbols consumed := by
  have hnonempty : rest ≠ [] := by
    rintro rfl
    cases hrest
  induction text generalizing atStart symbols with
  | nil => exact absurd (rest_of_atEnd hscan) hnonempty
  | cons char text ih =>
    rcases scan_cons_cases hscan with hend | ⟨-, rfl, rfl⟩ | ⟨later, hnull, hgoes, hread, rfl⟩
    · exact absurd hend hnonempty
    · exact ⟨[], rfl, Or.inl ⟨rfl, fun char hmem ↦ absurd hmem List.not_mem_nil⟩⟩
    -- a quoting character is lost, and the others are read as they are
    by_cases hquoting : isQuoting char = true
    · obtain ⟨consumed, htext, hcount⟩ := countP_scan hread hnonempty
      refine ⟨char :: consumed, by rw [htext, List.cons_append], Or.inr ?_⟩
      have hnothing := @countP_next_of_quoting atStart _ hquoting
      rw [wordText_append, List.countP_append, List.countP_cons_of_pos hquoting]
      omega
    · by_cases hblank : isBlank char = true
      · rw [next_of_blank hblank] at hread ⊢
        obtain ⟨consumed, htext, hcases⟩ := ih hread
        have hbare : bare char = .blank char := if_pos hblank
        refine ⟨char :: consumed, by rw [htext, List.cons_append], ?_⟩
        exact hbare ▸ hcases.cons (Or.inr hblank)
      · have hordinary : isOrdinary char = true :=
          ordinary_iff.mpr ⟨by simpa using hblank, hgoes, by simpa using hquoting, hnull⟩
        by_cases hcomment : atStart = true ∧ char = '#'
        · obtain ⟨rfl, rfl⟩ := hcomment
          rcases scan_comment hread with hend | hline
          · exact absurd hend hnonempty
          · rw [hline] at hrest
            exact absurd (Option.some.inj hrest) (by decide)
        · rw [next_of_ordinary hordinary hcomment] at hread ⊢
          obtain ⟨consumed, htext, hcases⟩ := ih hread
          have hbare : bare char = .plain char := if_neg hblank
          refine ⟨char :: consumed, by rw [htext, List.cons_append], ?_⟩
          exact hbare ▸ hcases.cons (Or.inl hordinary)

theorem words_bare (text : List Char) : words Symbol.isBlank (text.map bare) =
    (words isBlank text).map (List.map Symbol.plain) := by
  have hblank : Symbol.isBlank ∘ bare = isBlank := by
    funext char
    rw [Function.comp_apply, bare]
    split_ifs with hchar
    · exact hchar.symm
    · exact (Bool.not_eq_true _ ▸ hchar).symm
  rw [words_map, hblank]
  apply List.map_congr_left
  intro word hword
  apply List.map_congr_left
  intro char hmem
  rw [bare, (mem_of_mem_words hword).2 char hmem]
  rfl

/-- Where nothing expands, the words of a text before `&` are those between its blanks, or each has
fewer quoting characters than the text. -/
theorem words_bare_or_lost {found : List (List Char)}
    (hread : readWords (fun _ ↦ none) text = some (found, rest)) (hrest : rest.head? = some '&') :
    ∃ consumed, text = consumed ++ rest ∧
      (found = words isBlank consumed ∧
          (∀ char ∈ consumed, isOrdinary char = true ∨ isBlank char = true) ∧
          (∀ word ∈ found, expands (word.map Symbol.plain) = false) ∨
        ∀ word ∈ found, word.countP isQuoting < consumed.countP isQuoting) := by
  rw [readWords] at hread
  split at hread
  · cases hread
  · rename_i symbols remaining hscan
    split_ifs at hread with hexpands
    rw [Option.some_inj, Prod.mk.injEq] at hread
    obtain ⟨hfound, rfl⟩ := hread
    obtain ⟨consumed, htext, ⟨hmap, hall⟩ | hlost⟩ := scan_bare_or_lost hscan hrest
    · have hwords : words Symbol.isBlank symbols =
          (words isBlank consumed).map (List.map Symbol.plain) := by
        rw [hmap, words_bare]
      have hsame : found = words isBlank consumed := by
        rw [← hfound, hwords, List.map_map]
        exact (List.map_congr_left fun word _ ↦ wordText_plain word).trans (List.map_id _)
      refine ⟨consumed, htext, Or.inl ⟨hsame, hall, ?_⟩⟩
      intro word hword
      rw [hwords, Bool.not_eq_true, List.any_map, List.any_eq_false] at hexpands
      have hkept := hexpands word (hsame ▸ hword)
      rwa [Function.comp_apply, Bool.not_eq_true] at hkept
    · refine ⟨consumed, htext, Or.inr ?_⟩
      intro word hword
      rw [← hfound] at hword
      obtain ⟨piece, hpiece, rfl⟩ := List.mem_map.mp hword
      have hpart := ((mem_of_mem_words hpiece).1.filterMap Symbol.char?).countP_le
        (p := isQuoting)
      exact lt_of_le_of_lt hpart hlost

end Lost

end EdgeOrchestrator.Shell

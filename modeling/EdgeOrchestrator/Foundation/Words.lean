import Mathlib.Data.List.Induction
import Mathlib.Data.List.TakeWhile

/-!
# Words of a text

A text is split into words at its blanks, and the blanks are dropped. A text that begins with a word
and has no other one consists of the word and the blanks behind it.
-/

namespace EdgeOrchestrator

variable {Symbol : Type} (isBlank : Symbol → Bool)

def words (text : List Symbol) : List (List Symbol) :=
  (text.splitOnP isBlank).filter fun word ↦ !word.isEmpty

variable {isBlank} {text : List Symbol}

/-- A blank ends a word. -/
theorem words_append_blank {blank : Symbol} (hblank : isBlank blank = true)
    (before after : List Symbol) :
    words isBlank (before ++ blank :: after) = words isBlank before ++ words isBlank after := by
  rw [words, List.splitOnP_append_cons before after hblank, List.filter_append]
  rfl

theorem words_of_no_blank (hne : text ≠ []) (hplain : ∀ symbol ∈ text, isBlank symbol = false) :
    words isBlank text = [text] := by
  rw [words, List.splitOnP_eq_singleton hplain]
  simp [hne]

/-- Blanks behind a text add no word. -/
theorem words_append_blanks (text : List Symbol) {blanks : List Symbol}
    (hblanks : ∀ symbol ∈ blanks, isBlank symbol = true) :
    words isBlank (text ++ blanks) = words isBlank text := by
  induction blanks using List.reverseRecOn with
  | nil => rw [List.append_nil]
  | append_singleton earlier last ih =>
    have hlast := hblanks last (List.mem_append_right _ (List.mem_singleton_self last))
    rw [← List.append_assoc, words_append_blank hlast, ih fun symbol hmem ↦
      hblanks symbol (List.mem_append_left _ hmem)]
    exact List.append_nil _

theorem mem_of_mem_splitOnP {piece : List Symbol} (hpiece : piece ∈ text.splitOnP isBlank) :
    piece.Sublist text ∧ ∀ symbol ∈ piece, isBlank symbol = false := by
  induction text generalizing piece with
  | nil =>
    rw [List.splitOnP_nil, List.mem_singleton] at hpiece
    rw [hpiece]
    exact ⟨List.Sublist.refl _, fun symbol hmem ↦ absurd hmem List.not_mem_nil⟩
  | cons first rest ih =>
    rw [List.splitOnP_cons_eq_if_modifyHead] at hpiece
    split_ifs at hpiece with hfirst
    · rcases List.mem_cons.mp hpiece with hempty | hlater
      · rw [hempty]
        exact ⟨List.nil_sublist _, fun symbol hmem ↦ absurd hmem List.not_mem_nil⟩
      · exact (ih hlater).imp_left (List.Sublist.cons first)
    · obtain ⟨next, others, hpieces⟩ :=
        List.exists_cons_of_ne_nil (List.splitOnP_ne_nil isBlank rest)
      rw [hpieces, List.modifyHead_cons] at hpiece
      rw [hpieces] at ih
      rcases List.mem_cons.mp hpiece with hlonger | hlater
      · obtain ⟨hsub, hplain⟩ := ih List.mem_cons_self
        rw [hlonger]
        exact ⟨hsub.cons_cons first,
          List.forall_mem_cons.mpr ⟨by simpa using hfirst, hplain⟩⟩
      · exact (ih (List.mem_cons_of_mem next hlater)).imp_left (List.Sublist.cons first)

/-- A word has no blanks, and only symbols of the text. -/
theorem mem_of_mem_words {word : List Symbol} (hword : word ∈ words isBlank text) :
    word.Sublist text ∧ ∀ symbol ∈ word, isBlank symbol = false :=
  mem_of_mem_splitOnP (List.mem_filter.mp hword).1

theorem splitOnP_map {Other : Type} (rename : Other → Symbol) (text : List Other) :
    (text.map rename).splitOnP isBlank =
      (text.splitOnP (isBlank ∘ rename)).map (List.map rename) := by
  induction text with
  | nil => rfl
  | cons first rest ih =>
    rw [List.map_cons, List.splitOnP_cons_eq_if_modifyHead, ih,
      List.splitOnP_cons_eq_if_modifyHead]
    obtain ⟨next, others, hpieces⟩ :=
      List.exists_cons_of_ne_nil (List.splitOnP_ne_nil (isBlank ∘ rename) rest)
    rw [hpieces, Function.comp_apply]
    split_ifs <;> rfl

theorem words_map {Other : Type} (rename : Other → Symbol) (text : List Other) :
    words isBlank (text.map rename) = (words (isBlank ∘ rename) text).map (List.map rename) := by
  rw [words, splitOnP_map, words, List.filter_map]
  congr 2
  funext word
  cases word <;> rfl

/-- A text without words has nothing but blanks. -/
theorem isBlank_of_words_eq_nil (hwords : words isBlank text = []) :
    ∀ symbol ∈ text, isBlank symbol = true := by
  induction text with
  | nil => exact fun symbol hmem ↦ absurd hmem List.not_mem_nil
  | cons first rest ih =>
    rw [List.forall_mem_cons]
    by_cases hfirst : isBlank first = true
    · have hrest := words_append_blank hfirst [] rest
      rw [List.nil_append, hwords] at hrest
      exact ⟨hfirst, ih (List.append_eq_nil_iff.mp hrest.symm).2⟩
    · obtain ⟨piece, pieces, hpieces⟩ :=
        List.exists_cons_of_ne_nil (List.splitOnP_ne_nil isBlank rest)
      rw [words, List.splitOnP_cons_eq_if_modifyHead, if_neg hfirst, hpieces,
        List.modifyHead_cons, List.filter_cons_of_pos rfl] at hwords
      cases hwords

/-- A text that begins with its only word goes on with blanks. -/
theorem eq_append_blanks {first : Symbol} {rest word : List Symbol}
    (hfirst : isBlank first = false) (hwords : words isBlank (first :: rest) = [word]) :
    ∃ blanks, first :: rest = word ++ blanks ∧ (∀ symbol ∈ blanks, isBlank symbol = true) ∧
      ∀ symbol ∈ word, isBlank symbol = false := by
  let plain : Symbol → Bool := fun symbol ↦ !isBlank symbol
  have hsplit := List.takeWhile_append_dropWhile (p := plain) (l := first :: rest)
  have hhead : (first :: rest).takeWhile plain = first :: rest.takeWhile plain :=
    List.takeWhile_cons_of_pos (by simp [plain, hfirst])
  have hplain : ∀ symbol ∈ (first :: rest).takeWhile plain, isBlank symbol = false := by
    intro symbol hmem
    simpa [plain] using List.mem_takeWhile_imp hmem
  have hone := words_of_no_blank (hhead ▸ List.cons_ne_nil _ _) hplain
  cases hdrop : (first :: rest).dropWhile plain with
  | nil =>
    rw [hdrop, List.append_nil] at hsplit
    rw [hsplit, hwords, List.singleton_inj] at hone
    rw [hsplit, ← hone] at hplain
    exact ⟨[], by rw [hone, List.append_nil], fun symbol hmem ↦ absurd hmem List.not_mem_nil, hplain⟩
  | cons blank after =>
    have hblank : isBlank blank = true := by
      have hnot := List.head?_dropWhile_not plain (first :: rest)
      rw [hdrop] at hnot
      simpa [plain] using hnot
    rw [hdrop] at hsplit
    rw [← hsplit, words_append_blank hblank, hone, List.singleton_append,
      List.cons.injEq] at hwords
    refine ⟨blank :: after, by rw [← hwords.1, hsplit], ?_, hwords.1 ▸ hplain⟩
    exact List.forall_mem_cons.mpr ⟨hblank, isBlank_of_words_eq_nil hwords.2⟩

section Pieces

variable {separator : Symbol}

variable [DecidableEq Symbol] {piece : List Symbol}

/-- A piece between separators has only symbols of the text, and no separator. -/
theorem mem_of_mem_splitOn (hpiece : piece ∈ text.splitOn separator) :
    ∀ symbol ∈ piece, symbol ∈ text ∧ symbol ≠ separator := by
  induction text generalizing piece with
  | nil =>
    rw [List.splitOn_nil, List.mem_singleton] at hpiece
    rw [hpiece]
    exact fun symbol hmem ↦ absurd hmem List.not_mem_nil
  | cons first rest ih =>
    have hrest : ∀ other ∈ rest.splitOn separator, ∀ symbol ∈ other,
        symbol ∈ first :: rest ∧ symbol ≠ separator := by
      intro other hother symbol hmem
      exact (ih hother symbol hmem).imp_left (List.mem_cons_of_mem first)
    rw [List.splitOn_cons_eq_if_modifyHead] at hpiece
    split_ifs at hpiece with hfirst
    · rcases List.mem_cons.mp hpiece with hempty | hlater
      · rw [hempty]
        exact fun symbol hmem ↦ absurd hmem List.not_mem_nil
      · exact hrest piece hlater
    · obtain ⟨next, others, hpieces⟩ :=
        List.exists_cons_of_ne_nil (List.splitOn_ne_nil separator rest)
      rw [hpieces, List.modifyHead_cons] at hpiece
      rw [hpieces, List.forall_mem_cons] at hrest
      rcases List.mem_cons.mp hpiece with hlonger | hlater
      · rw [hlonger, List.forall_mem_cons]
        exact ⟨⟨List.mem_cons_self, by simpa using hfirst⟩, hrest.1⟩
      · exact hrest.2 piece hlater

theorem splitOn_append_last {before last : List Symbol} (hlast : separator ∉ last) :
    (before ++ separator :: last).splitOn separator = before.splitOn separator ++ [last] := by
  rw [List.splitOn_append_cons_self, List.splitOn_eq_singleton hlast]

end Pieces

end EdgeOrchestrator

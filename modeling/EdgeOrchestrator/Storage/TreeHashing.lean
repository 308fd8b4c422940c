import EdgeOrchestrator.Storage.Hashing
import Mathlib.Data.List.Lex

/-!
# What the hash of a tree says about its entries

The entries of a tree are hashed in the order of their names, so lists that differ in their order
only have one hash. In the other direction a name is printed without escapes: a name that spells a
line break and the header of an entry is printed like two entries. Two lists without such names are
told apart, while a list of two entries or more has the hash of another list, in which one entry
has swallowed its successor.
-/

namespace EdgeOrchestrator.Storage

open DelimitedText

/-! ## Entries in the order of their names -/

/-- No name occurs twice. -/
def NamesDistinct (entries : List TreeEntry) : Prop := (entries.map TreeEntry.name).Nodup

instance (entries : List TreeEntry) : Decidable (NamesDistinct entries) :=
  inferInstanceAs (Decidable (List.Nodup _))

/-- Every name is less than the names behind it. -/
def NamesIncrease (entries : List TreeEntry) : Prop :=
  entries.Pairwise fun left right ↦ left.name < right.name

/-- `sort_by` of the entries on their names. -/
def sortByName (entries : List TreeEntry) : List TreeEntry :=
  entries.mergeSort fun left right ↦ !decide (right.name < left.name)

theorem sortByName_perm (entries : List TreeEntry) : (sortByName entries).Perm entries :=
  List.mergeSort_perm entries _

theorem mem_sortByName {entries : List TreeEntry} {entry : TreeEntry} :
    entry ∈ sortByName entries ↔ entry ∈ entries :=
  (sortByName_perm entries).mem_iff

theorem sortByName_pairwise (entries : List TreeEntry) :
    (sortByName entries).Pairwise fun left right ↦ left.name ≤ right.name := by
  have hle : ∀ left right : TreeEntry,
      (!decide (right.name < left.name)) = true ↔ left.name ≤ right.name := by
    intro left right
    rw [Bool.not_eq_true', decide_eq_false_iff_not, String.not_lt]
  have hsorted : (sortByName entries).Pairwise fun left right ↦
      (!decide (right.name < left.name)) = true := by
    apply List.pairwise_mergeSort
    · intro first second third hfirst hsecond
      rw [hle] at hfirst hsecond ⊢
      exact String.le_trans hfirst hsecond
    · intro first second
      rw [Bool.or_eq_true, hle, hle]
      exact String.le_total first.name second.name
  exact hsorted.imp fun {left right} ↦ (hle left right).mp

theorem NamesDistinct.perm {left right : List TreeEntry} (hleft : NamesDistinct left)
    (hperm : left.Perm right) : NamesDistinct right :=
  (hperm.map TreeEntry.name).nodup_iff.mp hleft

theorem NamesDistinct.eq_of_name {entries : List TreeEntry} (hdistinct : NamesDistinct entries)
    {left right : TreeEntry} (hleft : left ∈ entries) (hright : right ∈ entries)
    (hname : left.name = right.name) : left = right :=
  List.inj_on_of_nodup_map hdistinct hleft hright hname

/-- Different names are in strict order after the sort. -/
theorem sortByName_increase {entries : List TreeEntry} (hdistinct : NamesDistinct entries) :
    NamesIncrease (sortByName entries) := by
  have hsorted := hdistinct.perm (sortByName_perm entries).symm
  have hne : (sortByName entries).Pairwise fun left right ↦ left.name ≠ right.name :=
    List.pairwise_map.mp hsorted
  apply ((sortByName_pairwise entries).and hne).imp
  intro left right horder
  exact String.not_le.mp fun hge ↦ horder.2 (String.le_antisymm horder.1 hge)

theorem NamesIncrease.distinct {entries : List TreeEntry} (hincrease : NamesIncrease entries) :
    NamesDistinct entries := by
  apply List.pairwise_map.mpr (hincrease.imp _)
  intro left right hlt heq
  rw [heq] at hlt
  exact String.lt_irrefl _ hlt

/-- A list in strict order is left as it is. -/
theorem sortByName_of_increase {entries : List TreeEntry} (hincrease : NamesIncrease entries) :
    sortByName entries = entries := by
  apply List.mergeSort_of_pairwise (hincrease.imp _)
  intro left right hlt
  rw [Bool.not_eq_true', decide_eq_false_iff_not]
  exact String.lt_asymm hlt

/-- The sorted form of entries with different names does not depend on their order. -/
theorem sortByName_eq_of_perm {left right : List TreeEntry} (hdistinct : NamesDistinct left)
    (hperm : left.Perm right) : sortByName left = sortByName right := by
  have hsorted : (sortByName left).Perm (sortByName right) :=
    (sortByName_perm left).trans (hperm.trans (sortByName_perm right).symm)
  apply List.Perm.eq_of_pairwise _ (sortByName_pairwise left) (sortByName_pairwise right) hsorted
  intro first second hfirst hsecond hle hge
  exact hdistinct.eq_of_name (mem_sortByName.mp hfirst)
    (hperm.mem_iff.mpr (mem_sortByName.mp hsecond)) (String.le_antisymm hle hge)

theorem perm_of_sortByName_eq {left right : List TreeEntry}
    (hsorted : sortByName left = sortByName right) : left.Perm right :=
  (sortByName_perm left).symm.trans (hsorted ▸ sortByName_perm right)

theorem treeContent_eq_of_perm {left right : List TreeEntry} (hdistinct : NamesDistinct left)
    (hperm : left.Perm right) : treeContent left = treeContent right := by
  change (sortByName left).flatMap _ = (sortByName right).flatMap _
  rw [sortByName_eq_of_perm hdistinct hperm]

/-- The hash of a tree does not depend on the order of its entries. -/
theorem hashTree_eq_of_perm (primitives : Primitives) (entries permuted : List TreeEntry)
    (hdistinct : NamesDistinct entries) (hperm : entries.Perm permuted) :
    hashTree primitives entries = hashTree primitives permuted := by
  rw [hashTree, hashTree, treeContent_eq_of_perm hdistinct hperm]

/-- Two files listed in either order. -/
theorem hashTree_two_files :
    hashTree tabulated [⟨"b.txt", "bbb", .blob⟩, ⟨"a.txt", "aaa", .executable⟩] =
      hashTree tabulated [⟨"a.txt", "aaa", .executable⟩, ⟨"b.txt", "bbb", .blob⟩] :=
  hashTree_eq_of_perm tabulated _ _ (by decide) (List.Perm.swap _ _ _)

/-! ## The printed entries -/

def isHexDigit (char : Char) : Bool :=
  char.isDigit || ('a' ≤ char && char ≤ 'f') || ('A' ≤ char && char ≤ 'F')

/-- Sixty-four hexadecimal digits. -/
def IsHexHash (hash : Hash) : Prop :=
  hash.toList.length = 64 ∧ ∀ char ∈ hash.toList, isHexDigit char

instance (hash : Hash) : Decidable (IsHexHash hash) := inferInstanceAs (Decidable (_ ∧ _))

theorem IsHexHash.newline_notMem {hash : Hash} (hhash : IsHexHash hash) : '\n' ∉ hash.toList := by
  intro hmem
  exact absurd (hhash.2 '\n' hmem) (by decide)

/-- The hashes that are computed here are hexadecimal. -/
theorem IsDigest.isHexHash {hash : Hash} (hhash : IsDigest hash) : IsHexHash hash := by
  refine ⟨hhash.length, fun char hmem ↦ ?_⟩
  obtain ⟨digit, hdigit, hchar⟩ := hhash.hexDigits char hmem
  have hall : ∀ digit < 16, isHexDigit (hexDigit digit) := by decide
  rw [hchar]
  exact hall digit hdigit

/-- An entry is printed as mode and hash, its name and a line break. -/
def entryFormat : RecordFormat Char TreeEntry where
  terminator := '\n'
  header entry := (entry.mode.text ++ " " ++ entry.hash ++ " ").toList
  body entry := entry.name.toList

/-- The hash field of the entry is a hexadecimal hash. -/
def HasHexHash (entry : TreeEntry) : Prop := IsHexHash entry.hash

theorem ObjectMode.text_length (mode : ObjectMode) : mode.text.toList.length = 6 := by
  cases mode <;> rfl

theorem ObjectMode.text_injective {left right : ObjectMode} (htext : left.text = right.text) :
    left = right := by
  cases left <;> cases right <;> first | rfl | exact absurd htext (by decide)

theorem ObjectMode.newline_notMem_text (mode : ObjectMode) : '\n' ∉ mode.text.toList := by
  cases mode <;> decide

theorem toList_header (entry : TreeEntry) :
    entryFormat.header entry = entry.mode.text.toList ++ (' ' :: (entry.hash.toList ++ [' '])) := by
  simp [entryFormat]

theorem framed_entryFormat : entryFormat.Framed HasHexHash 72 where
  length := by
    intro entry hhash
    rw [toList_header, List.length_append, entry.mode.text_length, List.length_cons,
      List.length_append, hhash.1]
    rfl
  terminator_notMem := by
    intro entry hhash hmem
    rw [toList_header, List.mem_append, List.mem_cons, List.mem_append, List.mem_singleton] at hmem
    rcases hmem with hmode | hspace | hdigit | hspace
    · exact entry.mode.newline_notMem_text hmode
    · cases hspace
    · exact hhash.newline_notMem hdigit
    · cases hspace
  ext := by
    intro first second hheader hbody
    rw [toList_header, toList_header] at hheader
    obtain ⟨hmode, hrest⟩ :=
      List.append_inj hheader (first.mode.text_length.trans second.mode.text_length.symm)
    have hhash := List.append_cancel_right (List.cons_eq_cons.mp hrest).2
    calc
      first = ⟨first.name, first.hash, first.mode⟩ := rfl
      _ = ⟨second.name, second.hash, second.mode⟩ := by
        rw [String.toList_inj.mp hbody, String.toList_inj.mp hhash,
          ObjectMode.text_injective (String.toList_inj.mp hmode)]
      _ = second := rfl

theorem text_entryFormat (entry : TreeEntry) :
    entryFormat.text entry =
      (entry.mode.text ++ " " ++ entry.hash ++ " " ++ entry.name ++ "\n").toList := by
  simp only [RecordFormat.text, entryFormat, String.toList_append, List.append_assoc]
  rfl

theorem treeContent_eq (entries : List TreeEntry) :
    treeContent entries = utf8 (String.ofList (entryFormat.listing (sortByName entries))) := by
  have hlisting : entryFormat.listing (sortByName entries) =
      (sortByName entries).flatMap fun entry ↦
        (entry.mode.text ++ " " ++ entry.hash ++ " " ++ entry.name ++ "\n").toList := by
    rw [RecordFormat.listing, funext text_entryFormat]
  rw [utf8, String.toList_ofList, hlisting, List.flatMap_assoc]
  rfl

/-- Trees with one content are printed alike. -/
theorem listing_eq_iff {left right : List TreeEntry} :
    entryFormat.listing (sortByName left) = entryFormat.listing (sortByName right) ↔
      treeContent left = treeContent right := by
  rw [treeContent_eq, treeContent_eq]
  constructor
  · intro hlisting
    rw [hlisting]
  · intro hcontent
    exact String.ofList_injective (utf8_injective hcontent)

/-! ## Names that spell an entry -/

/-- The name is a first name, a line break, the header of an entry and a second name. -/
def SpellsEntry (name first second : String) : Prop :=
  ∃ (mode : ObjectMode) (hash : Hash), IsHexHash hash ∧
    name = first ++ "\n" ++ mode.text ++ " " ++ hash ++ " " ++ second

/-- The name holds no line break that the header of an entry follows. -/
def IsPlainName (name : String) : Prop := ∀ first second, ¬ SpellsEntry name first second

/-- Entries with different names and hexadecimal hashes. -/
def IsDirectory (entries : List TreeEntry) : Prop :=
  NamesDistinct entries ∧ ∀ entry ∈ entries, HasHexHash entry

/-- No other directory has the hash of this one. -/
def HashDetermines (primitives : Primitives) (entries : List TreeEntry) : Prop :=
  ∀ others, IsDirectory others → hashTree primitives entries = hashTree primitives others →
    entries.Perm others

/-- SHA-256 has no collision between this tree and another one. -/
def NoTreeCollision (primitives : Primitives) (entries : List TreeEntry) : Prop :=
  ∀ others, IsDirectory others →
    primitives.sha256 (withHeader "tree" (treeContent entries)) =
      primitives.sha256 (withHeader "tree" (treeContent others)) →
    withHeader "tree" (treeContent entries) = withHeader "tree" (treeContent others)

/-- A name without a line break is plain. -/
theorem isPlainName_of_newline_notMem {name : String} (hname : '\n' ∉ name.toList) :
    IsPlainName name := by
  intro first second hspells
  obtain ⟨mode, hash, -, hname'⟩ := hspells
  rw [hname'] at hname
  simp at hname

/-- The body of an entry goes on with a header exactly when its name spells an entry. -/
theorem spellsEntry_iff {entry : TreeEntry} {first second : String} :
    SpellsEntry entry.name first second ↔ ∃ inner, HasHexHash inner ∧
      entryFormat.body entry =
        first.toList ++ '\n' :: (entryFormat.header inner ++ second.toList) := by
  constructor
  · intro hspells
    obtain ⟨mode, hash, hhash, hname⟩ := hspells
    refine ⟨⟨"", hash, mode⟩, hhash, ?_⟩
    simp [entryFormat, hname]
  · intro hinner
    obtain ⟨inner, hhash, hbody⟩ := hinner
    refine ⟨inner.mode, inner.hash, hhash, String.toList_inj.mp (hbody.trans ?_)⟩
    simp [entryFormat]

theorem not_embeds_of_isPlainName {entry : TreeEntry} (hplain : IsPlainName entry.name) :
    ¬ entryFormat.Embeds HasHexHash entry := by
  intro hembeds
  obtain ⟨before, inner, after, hhash, hbody⟩ := hembeds
  apply hplain (String.ofList before) (String.ofList after)
  rw [spellsEntry_iff, String.toList_ofList, String.toList_ofList]
  exact ⟨inner, hhash, hbody⟩

theorem IsDirectory.sorted {entries : List TreeEntry} (hentries : IsDirectory entries) :
    ∀ entry ∈ sortByName entries, HasHexHash entry :=
  fun entry hmem ↦ hentries.2 entry (mem_sortByName.mp hmem)

/-- Without collisions, trees with one hash are printed alike. -/
theorem treeContent_eq_of_hashTree_eq {primitives : Primitives} {entries others : List TreeEntry}
    (hdigest : NoTreeCollision primitives entries) (hothers : IsDirectory others)
    (hhash : hashTree primitives entries = hashTree primitives others) :
    treeContent entries = treeContent others :=
  withHeader_tree_injective (hdigest others hothers (hexEncode_injective hhash))

/-- Two directories of plain names that are printed alike list the same entries. -/
theorem perm_of_treeContent_eq {entries others : List TreeEntry} (hentries : IsDirectory entries)
    (hothers : IsDirectory others) (hplain : ∀ entry ∈ entries, IsPlainName entry.name)
    (hplainOthers : ∀ entry ∈ others, IsPlainName entry.name)
    (hcontent : treeContent entries = treeContent others) : entries.Perm others := by
  have hallowed : ∀ {entries : List TreeEntry}, IsDirectory entries →
      (∀ entry ∈ entries, IsPlainName entry.name) → ∀ entry ∈ sortByName entries,
        HasHexHash entry ∧ ¬ entryFormat.Embeds HasHexHash entry := by
    intro entries hentries hplain entry hmem
    rw [mem_sortByName] at hmem
    exact ⟨hentries.2 entry hmem, not_embeds_of_isPlainName (hplain entry hmem)⟩
  apply perm_of_sortByName_eq
  exact RecordFormat.listing_injective framed_entryFormat (hallowed hentries hplain)
    (hallowed hothers hplainOthers) (listing_eq_iff.mpr hcontent)

/-! ## An entry that swallows its successor -/

/-- A text is less than every text that goes on behind it. -/
theorem lt_of_toList_append {left right : String} {char : Char} {rest : List Char}
    (hright : right.toList = left.toList ++ char :: rest) : left < right := by
  rw [String.lt_iff, hright]
  have hnil : List.Lex (· < ·) [] (char :: rest) := List.Lex.nil
  have hlex := List.Lex.append_left (· < ·) hnil left.toList
  rwa [List.append_nil] at hlex

/-- What is less than a text is less than every text that goes on behind it. -/
theorem lt_of_lt_of_toList_append {first left right : String} {rest : List Char}
    (hlt : first < left) (hright : right.toList = left.toList ++ rest) : first < right := by
  rw [String.lt_iff, hright]
  exact List.Lex.append_right (· < ·) rest (String.lt_iff.mp hlt)

/-- The first entry with a name that goes on with the second entry. -/
def swallow (first second : TreeEntry) : TreeEntry where
  name := first.name ++ "\n" ++ second.mode.text ++ " " ++ second.hash ++ " " ++ second.name
  hash := first.hash
  mode := first.mode

theorem toList_name_swallow (first second : TreeEntry) :
    (swallow first second).name.toList = first.name.toList ++
      '\n' :: (entryFormat.header second ++ entryFormat.body second) := by
  simp [swallow, entryFormat]

theorem name_lt_swallow (first second : TreeEntry) : first.name < (swallow first second).name :=
  lt_of_toList_append (toList_name_swallow first second)

theorem listing_swallow (first second : TreeEntry) :
    entryFormat.listing [swallow first second] = entryFormat.listing [first, second] :=
  RecordFormat.listing_of_embedded rfl (toList_name_swallow first second)

theorem swallow_increase {front : List TreeEntry} {first second : TreeEntry}
    (hincrease : NamesIncrease (front ++ [first, second])) :
    NamesIncrease (front ++ [swallow first second]) := by
  rw [NamesIncrease, List.pairwise_append] at hincrease ⊢
  refine ⟨hincrease.1, List.pairwise_singleton _ _, ?_⟩
  intro entry hmem last hlast
  rw [List.mem_singleton.mp hlast]
  exact String.lt_trans (hincrease.2.2 entry hmem first List.mem_cons_self)
    (name_lt_swallow first second)

/-- Swallowing an entry leaves a directory. -/
theorem isDirectory_swallow {front : List TreeEntry} {first second : TreeEntry}
    (hincrease : NamesIncrease (front ++ [first, second]))
    (hhex : ∀ entry ∈ front ++ [first, second], HasHexHash entry) :
    IsDirectory (front ++ [swallow first second]) := by
  refine ⟨(swallow_increase hincrease).distinct, ?_⟩
  intro entry hmem
  rcases List.mem_append.mp hmem with hfront | hlast
  · exact hhex entry (List.mem_append_left _ hfront)
  · rw [List.mem_singleton.mp hlast]
    exact hhex first (by simp)

theorem treeContent_swallow {front : List TreeEntry} {first second : TreeEntry}
    (hincrease : NamesIncrease (front ++ [first, second])) :
    treeContent (front ++ [first, second]) = treeContent (front ++ [swallow first second]) := by
  rw [← listing_eq_iff, sortByName_of_increase hincrease,
    sortByName_of_increase (swallow_increase hincrease), RecordFormat.listing_append,
    RecordFormat.listing_append, listing_swallow]

theorem treeContent_sortByName {entries : List TreeEntry} (hdistinct : NamesDistinct entries) :
    treeContent (sortByName entries) = treeContent entries := by
  rw [← listing_eq_iff, sortByName_of_increase (sortByName_increase hdistinct)]

/-- A directory whose last two entries in name order become one has the hash of the directory. -/
theorem not_hashDetermines_of_two (primitives : Primitives) {entries front : List TreeEntry}
    {first second : TreeEntry} (hentries : IsDirectory entries)
    (hsorted : sortByName entries = front ++ [first, second]) :
    ¬ HashDetermines primitives entries := by
  intro hdetermines
  have hincrease : NamesIncrease (front ++ [first, second]) :=
    hsorted ▸ sortByName_increase hentries.1
  have hhex : ∀ entry ∈ front ++ [first, second], HasHexHash entry := hsorted ▸ hentries.sorted
  have hdirectory := isDirectory_swallow hincrease hhex
  have hcontent : treeContent entries = treeContent (front ++ [swallow first second]) := by
    rw [← treeContent_sortByName hentries.1, hsorted, treeContent_swallow hincrease]
  have hperm := hdetermines _ hdirectory (by rw [hashTree, hashTree, hcontent])
  have hlength := ((sortByName_perm entries).trans hperm).length_eq
  rw [hsorted, List.length_append, List.length_append] at hlength
  simp at hlength

/-- An entry whose name spells a greater entry has the hash of the two entries. -/
theorem not_hashDetermines_of_spells (primitives : Primitives) {entry : TreeEntry}
    {first second : String} (hhash : HasHexHash entry)
    (hspells : SpellsEntry entry.name first second) (hlt : first < second) :
    ¬ HashDetermines primitives [entry] := by
  intro hdetermines
  obtain ⟨mode, hash, hhex, hname⟩ := hspells
  have hentry : entry = swallow ⟨first, entry.hash, entry.mode⟩ ⟨second, hash, mode⟩ := by
    rw [swallow, ← hname]
  have hincrease : NamesIncrease ([] ++ [⟨first, entry.hash, entry.mode⟩, ⟨second, hash, mode⟩]) :=
    List.pairwise_pair.mpr hlt
  have hdirectory : IsDirectory [⟨first, entry.hash, entry.mode⟩, ⟨second, hash, mode⟩] := by
    refine ⟨hincrease.distinct, ?_⟩
    rw [List.forall_mem_cons, List.forall_mem_singleton]
    exact ⟨hhash, hhex⟩
  have hcontent := treeContent_swallow hincrease
  rw [List.nil_append, List.nil_append, ← hentry] at hcontent
  have hperm := hdetermines _ hdirectory (by rw [hashTree, hashTree, hcontent])
  simp at hperm

/-- A single entry whose name spells no greater entry shares its hash with no other directory. -/
theorem hashDetermines_singleton {primitives : Primitives} {entry : TreeEntry}
    (hdigest : NoTreeCollision primitives [entry]) (hhash : HasHexHash entry)
    (hplain : ∀ first second, first < second → ¬ SpellsEntry entry.name first second) :
    HashDetermines primitives [entry] := by
  intro others hothers hequal
  have hlisting := listing_eq_iff.mpr (treeContent_eq_of_hashTree_eq hdigest hothers hequal)
  rw [sortByName_of_increase (List.pairwise_singleton _ entry)] at hlisting
  rcases RecordFormat.eq_singleton_or_of_listing_eq framed_entryFormat hhash hothers.sorted
    hlisting.symm with hsingle | ⟨first, second, later, tail, hsorted, hbody⟩
  · exact hsingle ▸ sortByName_perm others
  · exfalso
    have hincrease := sortByName_increase hothers.1
    rw [hsorted, NamesIncrease, List.pairwise_cons] at hincrease
    have hsecond : HasHexHash second := hothers.sorted second (by simp [hsorted])
    have htail : (second.name ++ String.ofList tail).toList = second.name.toList ++ tail := by simp
    apply hplain first.name (second.name ++ String.ofList tail)
    · exact lt_of_lt_of_toList_append (hincrease.1 second List.mem_cons_self) htail
    · rw [spellsEntry_iff, htail]
      exact ⟨second, hsecond, hbody⟩

theorem sortByName_nil : sortByName [] = [] := List.mergeSort_nil

theorem hashDetermines_nil {primitives : Primitives} (hdigest : NoTreeCollision primitives []) :
    HashDetermines primitives [] := by
  intro others hothers hequal
  have hlisting := listing_eq_iff.mpr (treeContent_eq_of_hashTree_eq hdigest hothers hequal)
  apply perm_of_sortByName_eq
  rw [sortByName_nil] at hlisting ⊢
  cases hsorted : sortByName others with
  | nil => rfl
  | cons entry rest =>
    rw [hsorted] at hlisting
    exact absurd hlisting.symm (RecordFormat.listing_cons_ne_nil entry rest)

/-- Directories of plain names are told apart by their hashes. Against every directory whatsoever,
only the empty one and a single entry whose name spells no greater entry are. -/
theorem hashTree_injective_iff (primitives : Primitives) (entries : List TreeEntry)
    (hentries : IsDirectory entries) (hdigest : NoTreeCollision primitives entries) :
    ((∀ entry ∈ entries, IsPlainName entry.name) → ∀ others, IsDirectory others →
        (∀ entry ∈ others, IsPlainName entry.name) →
        hashTree primitives entries = hashTree primitives others → entries.Perm others) ∧
      (HashDetermines primitives entries ↔ entries = [] ∨ ∃ entry, entries = [entry] ∧
        ∀ first second, first < second → ¬ SpellsEntry entry.name first second) := by
  constructor
  · intro hplain others hothers hplainOthers hequal
    exact perm_of_treeContent_eq hentries hothers hplain hplainOthers
      (treeContent_eq_of_hashTree_eq hdigest hothers hequal)
  · constructor
    · intro hdetermines
      rcases List.eq_nil_or_concat' (sortByName entries) with hnil | ⟨front, last, hlast⟩
      · exact Or.inl (hnil ▸ sortByName_perm entries).symm.eq_nil
      · rcases List.eq_nil_or_concat' front with hfront | ⟨earlier, previous, hprevious⟩
        · rw [hfront, List.nil_append] at hlast
          have hsingle := List.perm_singleton.mp (hlast ▸ sortByName_perm entries).symm
          rw [hsingle] at hdetermines hentries
          refine Or.inr ⟨last, hsingle, fun first second hlt hspells ↦ ?_⟩
          have hhash := hentries.2 last List.mem_cons_self
          exact not_hashDetermines_of_spells primitives hhash hspells hlt hdetermines
        · rw [hprevious, List.append_assoc] at hlast
          exact absurd hdetermines (not_hashDetermines_of_two primitives hentries hlast)
    · intro hsmall
      rcases hsmall with hnil | ⟨entry, hsingle, hplain⟩
      · rw [hnil] at hdigest ⊢
        exact hashDetermines_nil hdigest
      · rw [hsingle] at hdigest hentries ⊢
        exact hashDetermines_singleton hdigest (hentries.2 entry List.mem_cons_self) hplain

/-! ## Files with the content of the empty blob -/

def emptyFile (name : String) : TreeEntry := ⟨name, hexEncode emptyBlobDigest, .blob⟩

theorem hasHexHash_emptyFile (name : String) : HasHexHash (emptyFile name) :=
  IsDigest.isHexHash ⟨emptyBlobDigest, rfl, rfl⟩

/-- The directory of two empty files has the hash of a directory with one. -/
theorem hashTree_of_swallowed_file :
    ¬ ∀ (primitives : Primitives) (left right : List TreeEntry), IsDirectory left →
      IsDirectory right →
      (primitives.sha256 (withHeader "tree" (treeContent left)) =
          primitives.sha256 (withHeader "tree" (treeContent right)) →
        withHeader "tree" (treeContent left) = withHeader "tree" (treeContent right)) →
      hashTree primitives left = hashTree primitives right → left.Perm right := by
  intro hgeneral
  have hincrease : NamesIncrease ([] ++ [emptyFile "a", emptyFile "b"]) :=
    List.pairwise_pair.mpr (by decide)
  have hcontent := treeContent_swallow hincrease
  have hhex : ∀ entry ∈ [] ++ [emptyFile "a", emptyFile "b"], HasHexHash entry := by
    simp [hasHexHash_emptyFile]
  have hboth : IsDirectory [emptyFile "a", emptyFile "b"] := ⟨hincrease.distinct, hhex⟩
  have hone := isDirectory_swallow hincrease hhex
  have hperm := hgeneral tabulated _ _ hboth hone (fun _ ↦ congrArg (withHeader "tree") hcontent)
    (congrArg (fun content ↦ hexEncode (tabulated.sha256 (withHeader "tree" content))) hcontent)
  simp at hperm

/-- The SHA-256 digest of the tree with the empty file `empty.txt`. -/
def emptyFileDigest : Bytes :=
  [0xe9, 0xb0, 0xbd, 0xf1, 0x5d, 0xbf, 0xff, 0x67, 0xf8, 0x12, 0x80, 0x7b, 0xe0, 0x05, 0x37,
   0xa4, 0x19, 0xd7, 0xb1, 0x27, 0xa2, 0x0d, 0xb3, 0x47, 0xff, 0x69, 0x37, 0x22, 0x03, 0x28,
   0xd9, 0xa5]

/-- SHA-256 tabulated on the tree with the empty file `empty.txt`. -/
def fileTabulated : Primitives where
  sha256 input :=
    if input = withHeader "tree" (treeContent [emptyFile "empty.txt"]) then emptyFileDigest
    else List.replicate 32 0
  sha256_length := by
    intro input
    split_ifs
    · rfl
    · exact List.length_replicate
  compress := tabulated.compress
  decompress := tabulated.decompress
  serialize := tabulated.serialize
  deserialize := tabulated.deserialize
  debug := tabulated.debug

theorem noTreeCollision_emptyFile : NoTreeCollision fileTabulated [emptyFile "empty.txt"] := by
  intro others _ hdigest
  by_contra hne
  simp only [fileTabulated, if_true, if_neg (Ne.symm hne)] at hdigest
  exact absurd hdigest (by decide)

theorem hashDetermines_emptyFile : HashDetermines fileTabulated [emptyFile "empty.txt"] := by
  have hdirectory : IsDirectory [emptyFile "empty.txt"] := by
    refine ⟨List.nodup_singleton _, ?_⟩
    rw [List.forall_mem_singleton]
    exact hasHexHash_emptyFile "empty.txt"
  have hplain : IsPlainName "empty.txt" := isPlainName_of_newline_notMem (by decide)
  exact (hashTree_injective_iff fileTabulated _ hdirectory noTreeCollision_emptyFile).2.mpr
    (Or.inr ⟨emptyFile "empty.txt", rfl, fun first second _ ↦ hplain first second⟩)

end EdgeOrchestrator.Storage

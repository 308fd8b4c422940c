import EdgeOrchestrator.Storage.TreeHashing

/-!
# Differences of trees

A difference lists what has to be overwritten and what has to be removed on the way from an old
tree to a new one. Two entries of one name are taken for the same when their hashes are, whatever
their modes. The difference is a complete patch exactly when an equal hash comes with an equal
mode.
-/

namespace EdgeOrchestrator.Storage

/-- A list of entries as a map from names: the last entry with a name wins. -/
def viewOf (entries : List TreeEntry) (name : String) : Option TreeEntry :=
  entries.reverse.find? fun entry ↦ entry.name = name

theorem viewOf_append_singleton (entries : List TreeEntry) (entry : TreeEntry) (name : String) :
    viewOf (entries ++ [entry]) name =
      if entry.name = name then some entry else viewOf entries name := by
  rw [viewOf, List.reverse_append, List.reverse_singleton, List.singleton_append, List.find?_cons]
  split_ifs with hname
  · rw [decide_eq_true hname]
  · rw [decide_eq_false hname]
    rfl

theorem name_of_viewOf {entries : List TreeEntry} {name : String} {entry : TreeEntry}
    (hview : viewOf entries name = some entry) : entry.name = name := by
  have hname := List.find?_some hview
  rwa [decide_eq_true_eq] at hname

/-- Where no name occurs twice, the map holds just the entries of the list. -/
theorem viewOf_eq_some_iff {entries : List TreeEntry} (hdistinct : NamesDistinct entries)
    {name : String} {entry : TreeEntry} :
    viewOf entries name = some entry ↔ entry ∈ entries ∧ entry.name = name := by
  constructor
  · intro hview
    exact ⟨List.mem_reverse.mp (List.mem_of_find?_eq_some hview), name_of_viewOf hview⟩
  · intro hentry
    have hreverse : NamesDistinct entries.reverse := hdistinct.perm entries.reverse_perm.symm
    rw [viewOf, ← hentry.2]
    exact find?_of_mem hreverse (List.mem_reverse.mpr hentry.1)

/-! ## Maps in the order of their keys -/

/-- A `BTreeMap` of entries under their names: the entries in the order of the keys. -/
structure NameMap where
  entries : List TreeEntry
  increasing : NamesIncrease entries

/-- Insertion into a list in the order of the names. -/
def insertByName (entry : TreeEntry) : List TreeEntry → List TreeEntry
  | [] => [entry]
  | head :: rest =>
    if entry.name < head.name then entry :: head :: rest
    else if head.name < entry.name then head :: insertByName entry rest
    else entry :: rest

/-- An insertion replaces the entry with the same name. -/
theorem mem_insertByName {entry other : TreeEntry} {entries : List TreeEntry}
    (hincrease : NamesIncrease entries) :
    other ∈ insertByName entry entries ↔
      other = entry ∨ other ∈ entries ∧ other.name ≠ entry.name := by
  induction entries with
  | nil => simp [insertByName]
  | cons head rest ih =>
    have hcons := List.pairwise_cons.mp hincrease
    rw [insertByName]
    split_ifs with hless hgreater
    · have hbehind : other ∈ head :: rest → other.name ≠ entry.name := by
        intro hmem
        rcases List.mem_cons.mp hmem with hhead | hrest
        · rw [hhead]
          exact (String.ne_of_lt hless).symm
        · exact (String.ne_of_lt (String.lt_trans hless (hcons.1 other hrest))).symm
      rw [List.mem_cons, and_iff_left_of_imp hbehind]
    · have hhead : other = head → other.name ≠ entry.name := by
        intro hhead
        rw [hhead]
        exact String.ne_of_lt hgreater
      rw [List.mem_cons, List.mem_cons, ih hcons.2]
      tauto
    · have hname : entry.name = head.name :=
        String.le_antisymm (String.not_lt.mp hgreater) (String.not_lt.mp hless)
      have hbehind : other ∈ rest → other.name ≠ entry.name := by
        intro hrest
        rw [hname]
        exact (String.ne_of_lt (hcons.1 other hrest)).symm
      have hhead : other = head → other.name = entry.name := by
        intro hhead
        rw [hhead, hname]
      rw [List.mem_cons, List.mem_cons]
      tauto

theorem insertByName_increase (entry : TreeEntry) {entries : List TreeEntry}
    (hincrease : NamesIncrease entries) : NamesIncrease (insertByName entry entries) := by
  induction entries with
  | nil => exact List.pairwise_singleton _ entry
  | cons head rest ih =>
    have hcons := List.pairwise_cons.mp hincrease
    rw [insertByName]
    split_ifs with hless hgreater
    · apply List.pairwise_cons.mpr ⟨_, hincrease⟩
      intro other hmem
      rcases List.mem_cons.mp hmem with hhead | hrest
      · rw [hhead]
        exact hless
      · exact String.lt_trans hless (hcons.1 other hrest)
    · apply List.pairwise_cons.mpr ⟨_, ih hcons.2⟩
      intro other hmem
      rcases (mem_insertByName hcons.2).mp hmem with hentry | hrest
      · rw [hentry]
        exact hgreater
      · exact hcons.1 other hrest.1
    · have hname : entry.name = head.name :=
        String.le_antisymm (String.not_lt.mp hgreater) (String.not_lt.mp hless)
      apply List.pairwise_cons.mpr ⟨_, hcons.2⟩
      intro other hrest
      rw [hname]
      exact hcons.1 other hrest

namespace NameMap

def empty : NameMap := ⟨[], List.Pairwise.nil⟩

def insert (map : NameMap) (entry : TreeEntry) : NameMap :=
  ⟨insertByName entry map.entries, insertByName_increase entry map.increasing⟩

def get (map : NameMap) (name : String) : Option TreeEntry :=
  map.entries.find? fun entry ↦ entry.name = name

/-- `collect` of the entries under their names. -/
def ofEntries (entries : List TreeEntry) : NameMap := entries.foldl insert empty

theorem get_eq_some_iff {map : NameMap} {name : String} {entry : TreeEntry} :
    map.get name = some entry ↔ entry ∈ map.entries ∧ entry.name = name := by
  constructor
  · intro hget
    have hname := List.find?_some hget
    exact ⟨List.mem_of_find?_eq_some hget, of_decide_eq_true hname⟩
  · intro hentry
    rw [get, ← hentry.2]
    exact find?_of_mem map.increasing.distinct hentry.1

/-- The map of a list holds the last entry under every name. -/
theorem mem_ofEntries {entries : List TreeEntry} {entry : TreeEntry} :
    entry ∈ (ofEntries entries).entries ↔ viewOf entries entry.name = some entry := by
  induction entries using List.reverseRecOn with
  | nil => simp [ofEntries, empty, viewOf]
  | append_singleton earlier last ih =>
    have hinsert : ofEntries (earlier ++ [last]) = (ofEntries earlier).insert last := by
      rw [ofEntries, List.foldl_append]
      rfl
    have hmem : entry ∈ (ofEntries (earlier ++ [last])).entries ↔
        entry = last ∨ viewOf earlier entry.name = some entry ∧ entry.name ≠ last.name := by
      rw [hinsert, ← ih]
      exact mem_insertByName (ofEntries earlier).increasing
    rw [hmem, viewOf_append_singleton]
    split_ifs with hname
    · -- the last entry takes the place of every earlier one with its name
      rw [Option.some_inj]
      constructor
      · rintro (hlast | ⟨-, hother⟩)
        · exact hlast.symm
        · exact absurd hname.symm hother
      · intro hlast
        exact Or.inl hlast.symm
    · constructor
      · rintro (hlast | ⟨hview, -⟩)
        · exact absurd (congrArg TreeEntry.name hlast.symm) hname
        · exact hview
      · intro hview
        exact Or.inr ⟨hview, fun hother ↦ hname hother.symm⟩

theorem get_ofEntries (entries : List TreeEntry) : (ofEntries entries).get = viewOf entries := by
  funext name
  ext entry
  rw [get_eq_some_iff, mem_ofEntries]
  constructor
  · intro hentry
    rw [← hentry.2]
    exact hentry.1
  · intro hview
    have hname := name_of_viewOf hview
    rw [hname]
    exact ⟨hview, rfl⟩

end NameMap

/-! ## The difference of two trees -/

structure TreeDiff where
  addedOrModified : List TreeEntry
  removed : List TreeEntry
  unchanged : List TreeEntry
  deriving DecidableEq, Repr

/-- The map has an entry with the name and the hash of this one. -/
def NameMap.hasHashOf (map : NameMap) (entry : TreeEntry) : Bool :=
  match map.get entry.name with
  | some found => found.hash = entry.hash
  | none => false

theorem NameMap.hasHashOf_iff {entries : List TreeEntry} {entry : TreeEntry} :
    (NameMap.ofEntries entries).hasHashOf entry = true ↔
      ∃ found, viewOf entries entry.name = some found ∧ found.hash = entry.hash := by
  rw [hasHashOf, get_ofEntries]
  cases viewOf entries entry.name with
  | none => simp
  | some found => simp

def diffTrees (old new : List TreeEntry) : TreeDiff :=
  let oldMap := NameMap.ofEntries old
  let newMap := NameMap.ofEntries new
  let compared := newMap.entries.partition oldMap.hasHashOf
  { addedOrModified := compared.2
    removed := oldMap.entries.filter fun entry ↦ (newMap.get entry.name).isNone
    unchanged := compared.1 }

namespace TreeDiff

def isEmpty (diff : TreeDiff) : Bool := diff.addedOrModified.isEmpty && diff.removed.isEmpty

def changeCount (diff : TreeDiff) : ℕ := diff.addedOrModified.length + diff.removed.length

/-- A map after the removal of the removed names and the insertion of the added entries. -/
def patch (diff : TreeDiff) (view : String → Option TreeEntry) (name : String) :
    Option TreeEntry :=
  (viewOf diff.addedOrModified name).or
    (if name ∈ diff.removed.map TreeEntry.name then none else view name)

/-- The difference counts no change exactly when it is empty. -/
theorem changeCount_eq_zero_iff (diff : TreeDiff) :
    diff.changeCount = 0 ↔ diff.isEmpty = true := by
  rw [changeCount, isEmpty, Bool.and_eq_true, List.isEmpty_iff_length_eq_zero,
    List.isEmpty_iff_length_eq_zero, Nat.add_eq_zero_iff]

/-- An empty difference changes no map. -/
theorem patch_of_isEmpty {diff : TreeDiff} (hempty : diff.isEmpty = true)
    (view : String → Option TreeEntry) : diff.patch view = view := by
  rw [isEmpty, Bool.and_eq_true, List.isEmpty_iff, List.isEmpty_iff] at hempty
  funext name
  rw [patch, hempty.1, hempty.2]
  rfl

end TreeDiff

/-! ## What a difference lists -/

theorem mem_addedOrModified_iff {old new : List TreeEntry} {entry : TreeEntry} :
    entry ∈ (diffTrees old new).addedOrModified ↔
      viewOf new entry.name = some entry ∧
        ∀ found, viewOf old entry.name = some found → found.hash ≠ entry.hash := by
  have hlisted : entry ∈ (diffTrees old new).addedOrModified ↔
      entry ∈ (NameMap.ofEntries new).entries ∧
        ¬ (NameMap.ofEntries old).hasHashOf entry = true := by
    rw [diffTrees, List.partition_eq_filter_filter, List.mem_filter]
    simp
  rw [hlisted, NameMap.mem_ofEntries, NameMap.hasHashOf_iff]
  simp only [not_exists, not_and, ne_eq]

theorem mem_unchanged_iff {old new : List TreeEntry} {entry : TreeEntry} :
    entry ∈ (diffTrees old new).unchanged ↔
      viewOf new entry.name = some entry ∧
        ∃ found, viewOf old entry.name = some found ∧ found.hash = entry.hash := by
  rw [diffTrees, List.partition_eq_filter_filter, List.mem_filter, NameMap.mem_ofEntries,
    NameMap.hasHashOf_iff]

theorem mem_removed_names_iff {old new : List TreeEntry} {name : String} :
    name ∈ (diffTrees old new).removed.map TreeEntry.name ↔
      viewOf old name ≠ none ∧ viewOf new name = none := by
  rw [List.mem_map, Option.ne_none_iff_exists']
  simp only [diffTrees, List.mem_filter, NameMap.mem_ofEntries, NameMap.get_ofEntries,
    Option.isNone_iff_eq_none]
  constructor
  · rintro ⟨entry, ⟨hold, hnew⟩, rfl⟩
    exact ⟨⟨entry, hold⟩, hnew⟩
  · rintro ⟨⟨entry, hold⟩, hnew⟩
    have hname := name_of_viewOf hold
    exact ⟨entry, ⟨by rwa [hname], by rwa [hname]⟩, hname⟩

theorem addedOrModified_increase (old new : List TreeEntry) :
    NamesIncrease (diffTrees old new).addedOrModified := by
  rw [diffTrees, List.partition_eq_filter_filter]
  exact (NameMap.ofEntries new).increasing.sublist List.filter_sublist

theorem unchanged_increase (old new : List TreeEntry) :
    NamesIncrease (diffTrees old new).unchanged := by
  rw [diffTrees, List.partition_eq_filter_filter]
  exact (NameMap.ofEntries new).increasing.sublist List.filter_sublist

theorem removed_increase (old new : List TreeEntry) :
    NamesIncrease (diffTrees old new).removed :=
  (NameMap.ofEntries old).increasing.sublist List.filter_sublist

/-- No name occurs twice among the added and modified entries. -/
theorem addedOrModified_distinct (old new : List TreeEntry) :
    NamesDistinct (diffTrees old new).addedOrModified :=
  (addedOrModified_increase old new).distinct

/-! ## Every name is in one list -/

def namesOf (entries : List TreeEntry) : Finset String := (entries.map TreeEntry.name).toFinset

theorem mem_namesOf {entries : List TreeEntry} {name : String} :
    name ∈ namesOf entries ↔ ∃ entry ∈ entries, entry.name = name := by
  rw [namesOf, List.mem_toFinset, List.mem_map]

theorem mem_namesOf_iff_viewOf {entries : List TreeEntry} {name : String} :
    name ∈ namesOf entries ↔ ∃ entry, viewOf entries name = some entry := by
  rw [mem_namesOf]
  constructor
  · intro hnamed
    apply Option.isSome_iff_exists.mp
    rw [viewOf, List.find?_isSome]
    simpa using hnamed
  · rintro ⟨entry, hview⟩
    exact ⟨entry, List.mem_reverse.mp (List.mem_of_find?_eq_some hview), name_of_viewOf hview⟩

theorem card_namesOf {entries : List TreeEntry} (hdistinct : NamesDistinct entries) :
    (namesOf entries).card = entries.length := by
  rw [namesOf, List.toFinset_card_of_nodup hdistinct, List.length_map]

section Classified

variable (old new : List TreeEntry)

theorem disjoint_addedOrModified_unchanged :
    Disjoint (namesOf (diffTrees old new).addedOrModified)
      (namesOf (diffTrees old new).unchanged) := by
  rw [Finset.disjoint_left]
  intro name hadded hunchanged
  obtain ⟨added, hadded, haddedName⟩ := mem_namesOf.mp hadded
  obtain ⟨kept, hkept, hkeptName⟩ := mem_namesOf.mp hunchanged
  obtain ⟨hnewAdded, hchanged⟩ := mem_addedOrModified_iff.mp hadded
  obtain ⟨hnewKept, found, hold, hhash⟩ := mem_unchanged_iff.mp hkept
  rw [hkeptName, ← haddedName] at hnewKept hold
  have hsame : added = kept := Option.some_inj.mp (hnewAdded.symm.trans hnewKept)
  rw [← hsame] at hhash
  exact hchanged found hold hhash

theorem namesOf_addedOrModified_union_unchanged :
    namesOf (diffTrees old new).addedOrModified ∪ namesOf (diffTrees old new).unchanged =
      namesOf new := by
  ext name
  rw [Finset.mem_union]
  constructor
  · rintro (hadded | hunchanged)
    · obtain ⟨entry, hentry, hname⟩ := mem_namesOf.mp hadded
      rw [← hname]
      exact mem_namesOf_iff_viewOf.mpr ⟨entry, (mem_addedOrModified_iff.mp hentry).1⟩
    · obtain ⟨entry, hentry, hname⟩ := mem_namesOf.mp hunchanged
      rw [← hname]
      exact mem_namesOf_iff_viewOf.mpr ⟨entry, (mem_unchanged_iff.mp hentry).1⟩
  · intro hnew
    obtain ⟨entry, hview⟩ := mem_namesOf_iff_viewOf.mp hnew
    have hname := name_of_viewOf hview
    rw [← hname] at hview
    by_cases hsame : ∃ found, viewOf old entry.name = some found ∧ found.hash = entry.hash
    · exact Or.inr (mem_namesOf.mpr ⟨entry, mem_unchanged_iff.mpr ⟨hview, hsame⟩, hname⟩)
    · push Not at hsame
      exact Or.inl (mem_namesOf.mpr ⟨entry, mem_addedOrModified_iff.mpr ⟨hview, hsame⟩, hname⟩)

theorem namesOf_removed :
    namesOf (diffTrees old new).removed = namesOf old \ namesOf new := by
  ext name
  rw [Finset.mem_sdiff, namesOf, List.mem_toFinset, mem_removed_names_iff,
    mem_namesOf_iff_viewOf, mem_namesOf_iff_viewOf, Option.ne_none_iff_exists', not_exists,
    Option.eq_none_iff_forall_ne_some]

/-- Every name of the two trees is counted once: as a change or as unchanged. -/
theorem changeCount_add_length_unchanged :
    (diffTrees old new).changeCount + (diffTrees old new).unchanged.length =
      (namesOf old ∪ namesOf new).card := by
  have hadded := card_namesOf (addedOrModified_increase old new).distinct
  have hunchanged := card_namesOf (unchanged_increase old new).distinct
  have hremoved := card_namesOf (removed_increase old new).distinct
  calc
    _ = ((namesOf (diffTrees old new).addedOrModified).card +
          (namesOf (diffTrees old new).unchanged).card) +
        (namesOf (diffTrees old new).removed).card := by
      rw [TreeDiff.changeCount, hadded, hunchanged, hremoved]
      omega
    _ = (namesOf new).card + (namesOf old \ namesOf new).card := by
      rw [← Finset.card_union_of_disjoint (disjoint_addedOrModified_unchanged old new),
        namesOf_addedOrModified_union_unchanged, namesOf_removed]
    _ = (namesOf old ∪ namesOf new).card := by
      rw [add_comm, Finset.card_sdiff_add_card]

end Classified

/-- The lists of a difference hold every name of the two trees in one place, in order, with the
last entry of the name. -/
structure ClassifiesOnce (old new : List TreeEntry) (diff : TreeDiff) : Prop where
  disjoint : Disjoint (namesOf diff.addedOrModified) (namesOf diff.unchanged)
  ofNew : namesOf diff.addedOrModified ∪ namesOf diff.unchanged = namesOf new
  ofOld : namesOf diff.removed = namesOf old \ namesOf new
  sorted : NamesIncrease diff.addedOrModified ∧ NamesIncrease diff.removed ∧
    NamesIncrease diff.unchanged
  lastOfNew : ∀ entry, entry ∈ diff.addedOrModified ∨ entry ∈ diff.unchanged →
    viewOf new entry.name = some entry
  lastOfOld : ∀ entry ∈ diff.removed, viewOf old entry.name = some entry
  count : diff.changeCount = (namesOf old ∪ namesOf new).card - diff.unchanged.length

/-- A difference lists every name once. -/
theorem diffTrees_classifiesOnce (old new : List TreeEntry) :
    ClassifiesOnce old new (diffTrees old new) where
  disjoint := disjoint_addedOrModified_unchanged old new
  ofNew := namesOf_addedOrModified_union_unchanged old new
  ofOld := namesOf_removed old new
  sorted := ⟨addedOrModified_increase old new, removed_increase old new,
    unchanged_increase old new⟩
  lastOfNew := by
    rintro entry (hadded | hunchanged)
    · exact (mem_addedOrModified_iff.mp hadded).1
    · exact (mem_unchanged_iff.mp hunchanged).1
  lastOfOld := by
    intro entry hremoved
    exact NameMap.mem_ofEntries.mp (List.mem_filter.mp hremoved).1
  count := Nat.eq_sub_of_add_eq (changeCount_add_length_unchanged old new)

example :
    diffTrees [⟨"b", "1", .blob⟩, ⟨"a", "1", .blob⟩, ⟨"b", "2", .blob⟩]
        [⟨"c", "1", .blob⟩, ⟨"b", "2", .blob⟩, ⟨"c", "3", .blob⟩] =
      ⟨[⟨"c", "3", .blob⟩], [⟨"a", "1", .blob⟩], [⟨"b", "2", .blob⟩]⟩ := by decide

/-! ## What a patch leaves under a name -/

section Patched

variable {old new : List TreeEntry} {name : String}

/-- The added and modified entries, as a map from names. -/
theorem viewOf_addedOrModified_iff {entry : TreeEntry} :
    viewOf (diffTrees old new).addedOrModified name = some entry ↔
      viewOf new name = some entry ∧
        ∀ found, viewOf old name = some found → found.hash ≠ entry.hash := by
  rw [viewOf_eq_some_iff (addedOrModified_distinct old new), mem_addedOrModified_iff]
  constructor
  · intro hentry
    rw [← hentry.2]
    exact hentry.1
  · intro hentry
    have hname := name_of_viewOf hentry.1
    rw [hname]
    exact ⟨hentry, rfl⟩

/-- A name that the new tree lacks is gone after the patch. -/
theorem patch_of_absent (habsent : viewOf new name = none) :
    (diffTrees old new).patch (viewOf old) name = none := by
  have hadded : viewOf (diffTrees old new).addedOrModified name = none := by
    apply Option.eq_none_iff_forall_not_mem.mpr
    intro entry hview
    have hnew := (viewOf_addedOrModified_iff.mp hview).1
    rw [habsent] at hnew
    exact Option.some_ne_none entry hnew.symm
  rw [TreeDiff.patch, hadded, Option.none_or]
  split_ifs with hremoved
  · rfl
  · rw [mem_removed_names_iff, not_and] at hremoved
    by_contra hold
    exact hremoved hold habsent

/-- A name whose hash is new or other than the old one has the new entry after the patch. -/
theorem patch_of_changed {entry : TreeEntry} (hnew : viewOf new name = some entry)
    (hchanged : ∀ found, viewOf old name = some found → found.hash ≠ entry.hash) :
    (diffTrees old new).patch (viewOf old) name = some entry := by
  have hadded := viewOf_addedOrModified_iff.mpr ⟨hnew, hchanged⟩
  rw [TreeDiff.patch, hadded, Option.some_or]

/-- A name with the hash it had before keeps its old entry. -/
theorem patch_of_same_hash {found entry : TreeEntry} (hold : viewOf old name = some found)
    (hnew : viewOf new name = some entry) (hhash : found.hash = entry.hash) :
    (diffTrees old new).patch (viewOf old) name = some found := by
  have hadded : viewOf (diffTrees old new).addedOrModified name = none := by
    apply Option.eq_none_iff_forall_not_mem.mpr
    intro added hview
    obtain ⟨hadded, hchanged⟩ := viewOf_addedOrModified_iff.mp hview
    rw [hnew, Option.some_inj] at hadded
    rw [← hadded] at hchanged
    exact hchanged found hold hhash
  have hkept : name ∉ (diffTrees old new).removed.map TreeEntry.name := by
    rw [mem_removed_names_iff, hnew]
    rintro ⟨-, hnone⟩
    exact Option.some_ne_none entry hnone
  rw [TreeDiff.patch, hadded, Option.none_or, if_neg hkept, hold]

end Patched

/-! ## Complete patches -/

/-- The difference turns the old map into the new one, keeps only what both have, and is empty
only between equal maps. -/
structure CompletePatch (old new : List TreeEntry) : Prop where
  patched : (diffTrees old new).patch (viewOf old) = viewOf new
  unchanged : ∀ entry ∈ (diffTrees old new).unchanged,
    viewOf old entry.name = some entry ∧ viewOf new entry.name = some entry
  empty : (diffTrees old new).isEmpty = true → viewOf old = viewOf new

/-- Where both maps have one hash under a name, they have one mode under it. -/
def ModesFollowHashes (old new : List TreeEntry) : Prop :=
  ∀ name found entry, viewOf old name = some found → viewOf new name = some entry →
    found.hash = entry.hash → found.mode = entry.mode

theorem ModesFollowHashes.entry_eq {old new : List TreeEntry} (hmodes : ModesFollowHashes old new)
    {name : String} {found entry : TreeEntry} (hold : viewOf old name = some found)
    (hnew : viewOf new name = some entry) (hhash : found.hash = entry.hash) : found = entry := by
  have hname : found.name = entry.name := (name_of_viewOf hold).trans (name_of_viewOf hnew).symm
  have hmode : found.mode = entry.mode := hmodes name found entry hold hnew hhash
  cases found
  cases entry
  simp only at hname hhash hmode
  rw [hname, hhash, hmode]

theorem ModesFollowHashes.patched {old new : List TreeEntry} (hmodes : ModesFollowHashes old new) :
    (diffTrees old new).patch (viewOf old) = viewOf new := by
  funext name
  cases hnew : viewOf new name with
  | none => exact patch_of_absent hnew
  | some entry =>
    by_cases hsame : ∃ found, viewOf old name = some found ∧ found.hash = entry.hash
    · obtain ⟨found, hold, hhash⟩ := hsame
      rw [patch_of_same_hash hold hnew hhash, hmodes.entry_eq hold hnew hhash]
    · push Not at hsame
      exact patch_of_changed hnew hsame

/-- A difference is a complete patch exactly when equal hashes come with equal modes. -/
theorem completePatch_iff (old new : List TreeEntry) :
    CompletePatch old new ↔ ModesFollowHashes old new := by
  constructor
  · intro hcomplete name found entry hold hnew hhash
    have hpatched : (diffTrees old new).patch (viewOf old) name = viewOf new name :=
      congrFun hcomplete.patched name
    rw [patch_of_same_hash hold hnew hhash, hnew, Option.some_inj] at hpatched
    rw [hpatched]
  · intro hmodes
    constructor
    · exact hmodes.patched
    · intro entry hentry
      obtain ⟨hnew, found, hold, hhash⟩ := mem_unchanged_iff.mp hentry
      rw [hmodes.entry_eq hold hnew hhash] at hold
      exact ⟨hold, hnew⟩
    · intro hempty
      rw [← hmodes.patched, TreeDiff.patch_of_isEmpty hempty]

def runAsBlob : TreeEntry := ⟨"run", "abc", .blob⟩

def runAsExecutable : TreeEntry := ⟨"run", "abc", .executable⟩

/-- A file that becomes executable leaves no trace in the difference. -/
theorem not_completePatch_of_chmod : ¬ CompletePatch [runAsBlob] [runAsExecutable] := by
  intro hcomplete
  have hviews := hcomplete.empty (by decide)
  exact absurd (congrFun hviews "run") (by decide)

end EdgeOrchestrator.Storage

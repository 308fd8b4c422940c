import EdgeOrchestrator.Core.Types

/-!
# Scanning a workspace

The agent lists the files of a workspace before it makes a plan. The scan follows the order in which
directories are read, and it looks at its limits only when it enters a directory: a directory that
was entered is read to its end. So the files it finds are those of a scan without the limit on their
number whose directory was opened before that number was reached.
-/

namespace EdgeOrchestrator.Agent

def maxFiles : ℕ := 200

def maxDepth : ℕ := 3

/-- What `read_dir` enumerates of a directory, entry by entry, with the same for the directories in
it. -/
inductive Listing
  | nil
  | file (name : String) (rest : Listing)
  | dir (name : String) (inside rest : Listing)

/-- The components of a path below the workspace. -/
abbrev RelPath := List String

def pathText (path : RelPath) : String := "/".intercalate path

/-- A name that the scan passes over. -/
def isSkipped (name : String) : Bool :=
  name == ".git" || name == "target" || name == "node_modules"

/-- Read a directory to its end, unless it lies too deep or enough files were found. -/
def enter (depth : ℕ) (read : List String → List String) (out : List String) : List String :=
  if maxDepth < depth ∨ maxFiles ≤ out.length then out else read out

/-- The loop of `walk` over the entries of a directory. -/
def walkEntries (depth : ℕ) (base : RelPath) : Listing → List String → List String
  | .nil, out => out
  | .file name rest, out =>
    if isSkipped name then walkEntries depth base rest out
    else walkEntries depth base rest (out ++ [pathText (base ++ [name])])
  | .dir name inside rest, out =>
    if isSkipped name then walkEntries depth base rest out
    else walkEntries depth base rest
      (enter (depth + 1) (walkEntries (depth + 1) (base ++ [name]) inside) out)

def walk (depth : ℕ) (base : RelPath) (listing : Listing) (out : List String) : List String :=
  enter depth (walkEntries depth base listing) out

/-- What the agent knows about a workspace. -/
structure WorkspaceInfo where
  root : String
  files : List String

/-- `sort` of strings. -/
def sorted (texts : List String) : List String :=
  texts.mergeSort fun left right ↦ !decide (right < left)

def scanWorkspace (root : String) (listing : Listing) : WorkspaceInfo where
  root := root
  files := sorted (walk 0 [] listing [])

/-! ## The tree behind a listing -/

namespace Listing

/-- The paths of all entries, and whether they are files. -/
def entries (base : RelPath) : Listing → List (RelPath × Bool)
  | .nil => []
  | .file name rest => (base ++ [name], true) :: entries base rest
  | .dir name inside rest =>
    (base ++ [name], false) :: (entries (base ++ [name]) inside ++ entries base rest)

/-- The names in a directory. -/
def names : Listing → List String
  | .nil => []
  | .file name rest => name :: names rest
  | .dir name _ rest => name :: names rest

/-- A name that an entry of a directory can have. -/
def IsName (name : String) : Prop := name ≠ "" ∧ '/' ∉ name.toList

/-- The listing of a directory: no name occurs twice, here and in the directories inside. -/
def IsTree : Listing → Prop
  | .nil => True
  | .file name rest => IsName name ∧ name ∉ rest.names ∧ rest.IsTree
  | .dir name inside rest => IsName name ∧ name ∉ rest.names ∧ inside.IsTree ∧ rest.IsTree

/-- Two listings of one tree: the same entries, in any order. -/
def SameTree (first second : Listing) : Prop := (first.entries []).Perm (second.entries [])

end Listing

/-- A path within the depth limit that has no component to be passed over. -/
def Listable (path : RelPath) : Prop :=
  path.length ≤ maxDepth + 1 ∧ ∀ name ∈ path, isSkipped name = false

instance (path : RelPath) : Decidable (Listable path) := inferInstanceAs (Decidable (_ ∧ _))

/-- The paths of the files that the scan is meant to list. -/
def Listing.files (listing : Listing) (base : RelPath) : List RelPath :=
  ((listing.entries base).filter fun entry ↦ entry.2 && decide (Listable entry.1)).map Prod.fst

theorem files_perm {first second : Listing} (hsame : first.SameTree second) :
    (first.files []).Perm (second.files []) :=
  (hsame.filter _).map _

/-! ## The scan without a limit on the number of files -/

/-- A file with the number of files that were found before its directory was opened. -/
structure Found where
  path : RelPath
  opened : ℕ

/-- The files that are found in the entries of a directory, which was opened when `opened` files had
been found, and before which `before` files have been found. -/
def found (depth : ℕ) (base : RelPath) (opened before : ℕ) : Listing → List Found
  | .nil => []
  | .file name rest =>
    if isSkipped name then found depth base opened before rest
    else ⟨base ++ [name], opened⟩ :: found depth base opened (before + 1) rest
  | .dir name inside rest =>
    let inner := if isSkipped name ∨ maxDepth < depth + 1 then []
      else found (depth + 1) (base ++ [name]) before before inside
    inner ++ found depth base opened (before + inner.length) rest

section Found

variable {depth : ℕ} {base : RelPath} {opened before : ℕ}

theorem le_opened (hopened : opened ≤ before) {listing : Listing} :
    ∀ file ∈ found depth base opened before listing, opened ≤ file.opened := by
  induction listing generalizing depth base opened before with
  | nil => exact fun file hmem ↦ absurd hmem List.not_mem_nil
  | file name rest ih =>
    rw [found]
    split_ifs
    · exact ih hopened
    · rw [List.forall_mem_cons]
      exact ⟨le_rfl, ih (Nat.le_succ_of_le hopened)⟩
  | dir name inside rest ihInside ih =>
    rw [found]
    intro file hmem
    rcases List.mem_append.mp hmem with hinner | hrest
    · split_ifs at hinner
      · exact absurd hinner List.not_mem_nil
      · exact hopened.trans (ihInside le_rfl file hinner)
    · exact ih (Nat.le_add_right_of_le hopened) file hrest

/-- A directory is opened after no more files than its files come after. -/
theorem opened_le (hopened : opened ≤ before) {listing : Listing} {index : ℕ} {file : Found}
    (hfile : (found depth base opened before listing)[index]? = some file) :
    file.opened ≤ before + index := by
  induction listing generalizing depth base opened before index with
  | nil => cases hfile
  | file name rest ih =>
    rw [found] at hfile
    split_ifs at hfile
    · exact ih hopened hfile
    · cases index with
      | zero =>
        cases hfile
        exact hopened
      | succ index =>
        have hrest := ih (Nat.le_succ_of_le hopened) hfile
        omega
  | dir name inside rest ihInside ih =>
    rw [found, List.getElem?_append] at hfile
    by_cases hpassed : isSkipped name = true ∨ maxDepth < depth + 1
    · rw [if_pos hpassed] at hfile
      exact ih hopened hfile
    · rw [if_neg hpassed] at hfile
      split_ifs at hfile
      · exact ihInside le_rfl hfile
      · have hrest := ih (Nat.le_add_right_of_le hopened) hfile
        omega

end Found

/-- The files whose directory is opened before the limit is reached. -/
def seen (files : List Found) : List Found := files.filter fun file ↦ file.opened < maxFiles

theorem seen_nil : seen [] = [] := rfl

theorem seen_append (first second : List Found) :
    seen (first ++ second) = seen first ++ seen second :=
  List.filter_append first second

theorem seen_cons_of_lt {file : Found} (hearly : file.opened < maxFiles) (files : List Found) :
    seen (file :: files) = file :: seen files :=
  List.filter_cons_of_pos (decide_eq_true hearly)

theorem seen_eq_nil {files : List Found} (hlate : ∀ file ∈ files, maxFiles ≤ file.opened) :
    seen files = [] := by
  apply List.filter_eq_nil_iff.mpr
  intro file hmem hearly
  exact absurd (hlate file hmem) (not_le.mpr (of_decide_eq_true hearly))

theorem seen_eq_self {files : List Found} (hearly : ∀ file ∈ files, file.opened < maxFiles) :
    seen files = files :=
  List.filter_eq_self.mpr fun file hmem ↦ decide_eq_true (hearly file hmem)

/-- Dropping the files whose directory is opened too late does not keep the number of files from
reaching the limit. -/
theorem min_length_seen {before : ℕ} {files : List Found}
    (hindex : ∀ index file, files[index]? = some file → file.opened ≤ before + index) :
    min (before + (seen files).length) maxFiles =
      min (before + files.length) maxFiles := by
  induction files using List.reverseRecOn with
  | nil => rfl
  | append_singleton files last ih =>
    have hfiles := ih fun index file hfile ↦
      hindex index file (by
        rw [List.getElem?_append_left (List.getElem?_eq_some_iff.mp hfile).1]
        exact hfile)
    have hlast := hindex files.length last List.getElem?_concat_length
    rw [seen_append, List.length_append, List.length_append, List.length_singleton]
    by_cases hearly : last.opened < maxFiles
    · rw [seen_cons_of_lt hearly, seen_nil, List.length_singleton]
      omega
    · rw [seen_eq_nil fun file hmem ↦ List.mem_singleton.mp hmem ▸ not_lt.mp hearly,
        List.length_nil]
      omega

/-- What a scan has listed after a directory counts for the limit like what there is to find. -/
theorem min_length_append_seen {depth : ℕ} {base : RelPath} {before : ℕ} {out : List String}
    (hout : min out.length maxFiles = min before maxFiles) (listing : Listing) :
    min (out ++ (seen (found depth base before before listing)).map (pathText ·.path)).length
        maxFiles =
      min (before + (found depth base before before listing).length) maxFiles := by
  have hindex : ∀ index file, (found depth base before before listing)[index]? = some file →
      file.opened ≤ before + index :=
    fun index file hfile ↦ opened_le le_rfl hfile
  have hseen := min_length_seen hindex
  rw [List.length_append, List.length_map]
  omega

/-- The files of a directory are listed unless the limit was reached before. -/
theorem enter_eq {depth : ℕ} {base : RelPath} {before : ℕ} {listing : Listing} {out : List String}
    (hdepth : ¬ maxDepth < depth) (hout : min out.length maxFiles = min before maxFiles)
    (hread : before < maxFiles → walkEntries depth base listing out =
      out ++ (seen (found depth base before before listing)).map (pathText ·.path)) :
    enter depth (walkEntries depth base listing) out =
      out ++ (seen (found depth base before before listing)).map (pathText ·.path) := by
  rw [enter]
  by_cases hfull : maxFiles ≤ out.length
  · have hlate : maxFiles ≤ before := by omega
    have hnone : seen (found depth base before before listing) = [] :=
      seen_eq_nil fun file hmem ↦ hlate.trans (le_opened le_rfl file hmem)
    rw [if_pos (Or.inr hfull), hnone, List.map_nil, List.append_nil]
  · rw [if_neg (not_or.mpr ⟨hdepth, hfull⟩)]
    exact hread (by omega)

/-- The scan finds the files whose directory is opened before the limit is reached. -/
theorem walkEntries_eq {depth : ℕ} {base : RelPath} {opened before : ℕ} (hopened : opened ≤ before)
    (hearly : opened < maxFiles) {listing : Listing} {out : List String}
    (hout : min out.length maxFiles = min before maxFiles) :
    walkEntries depth base listing out =
      out ++ (seen (found depth base opened before listing)).map (pathText ·.path) := by
  induction listing generalizing depth base opened before out with
  | nil => exact (List.append_nil out).symm
  | file name rest ih =>
    rw [walkEntries, found]
    split_ifs
    · exact ih hopened hearly hout
    · have hnext : min (out ++ [pathText (base ++ [name])]).length maxFiles =
          min (before + 1) maxFiles := by
        rw [List.length_append, List.length_singleton]
        omega
      rw [ih (Nat.le_succ_of_le hopened) hearly hnext, seen_cons_of_lt hearly, List.map_cons,
        List.append_assoc]
      rfl
  | dir name inside rest ihInside ih =>
    rw [walkEntries, found]
    by_cases hpassed : isSkipped name = true ∨ maxDepth < depth + 1
    · rw [if_pos hpassed, List.nil_append, List.length_nil, Nat.add_zero before,
        ← ih hopened hearly hout, enter]
      split_ifs with hskipped hdeep
      · rfl
      · rfl
      · exact absurd hpassed (not_or.mpr ⟨hskipped, fun hdepth ↦ hdeep (Or.inl hdepth)⟩)
    · obtain ⟨hkept, hdepth⟩ := not_or.mp hpassed
      have hentered : enter (depth + 1) (walkEntries (depth + 1) (base ++ [name]) inside) out =
          out ++ (seen (found (depth + 1) (base ++ [name]) before before inside)).map
            (pathText ·.path) :=
        enter_eq hdepth hout fun hroom ↦ ihInside le_rfl hroom hout
      rw [if_neg hpassed, if_neg hkept, hentered,
        ih (Nat.le_add_right_of_le hopened) hearly (min_length_append_seen hout inside),
        seen_append, List.map_append, List.append_assoc]

/-- The first files that are found are seen, up to the limit. -/
theorem files_scanWorkspace (root : String) (listing : Listing) :
    (scanWorkspace root listing).files =
      sorted ((seen (found 0 [] 0 0 listing)).map (pathText ·.path)) := by
  have hopen : ¬ (maxDepth < 0 ∨ maxFiles ≤ ([] : List String).length) := by decide
  have hwalk : walk 0 [] listing [] =
      [] ++ (seen (found 0 [] 0 0 listing)).map (pathText ·.path) := by
    rw [walk, enter, if_neg hopen]
    exact walkEntries_eq le_rfl (by decide) rfl
  rw [scanWorkspace, hwalk, List.nil_append]

/-! ## What is found is what can be listed -/

theorem exists_of_mem_entries {base : RelPath} {listing : Listing} {entry : RelPath × Bool}
    (hmem : entry ∈ listing.entries base) :
    ∃ name ∈ listing.names, ∃ tail, entry.1 = base ++ name :: tail := by
  induction listing generalizing base with
  | nil => cases hmem
  | file name rest ih =>
    rcases List.mem_cons.mp hmem with rfl | hrest
    · exact ⟨name, List.mem_cons_self, [], rfl⟩
    · obtain ⟨other, hother, htail⟩ := ih hrest
      exact ⟨other, List.mem_cons_of_mem name hother, htail⟩
  | dir name inside rest ihInside ih =>
    rcases List.mem_cons.mp hmem with rfl | hmem
    · exact ⟨name, List.mem_cons_self, [], rfl⟩
    · rcases List.mem_append.mp hmem with hinside | hrest
      · obtain ⟨other, -, tail, htail⟩ := ihInside hinside
        refine ⟨name, List.mem_cons_self, other :: tail, ?_⟩
        rw [htail, List.append_assoc, List.singleton_append]
      · obtain ⟨other, hother, htail⟩ := ih hrest
        exact ⟨other, List.mem_cons_of_mem name hother, htail⟩

namespace Listing

theorem files_file (name : String) (rest : Listing) (base : RelPath) :
    (Listing.file name rest).files base =
      (if Listable (base ++ [name]) then [base ++ [name]] else []) ++ rest.files base := by
  rw [files, entries, List.filter_cons]
  by_cases hlistable : Listable (base ++ [name]) <;> simp [hlistable, files]

theorem files_dir (name : String) (inside rest : Listing) (base : RelPath) :
    (Listing.dir name inside rest).files base =
      inside.files (base ++ [name]) ++ rest.files base := by
  simp [files, entries]

end Listing

/-- The files in a directory that is passed over, or lies too deep, are not listable. -/
theorem files_of_passed {base : RelPath} {name : String} {inside : Listing}
    (hpassed : isSkipped name = true ∨ maxDepth < base.length + 1) :
    inside.files (base ++ [name]) = [] := by
  rw [Listing.files, List.map_eq_nil_iff, List.filter_eq_nil_iff]
  rintro entry hentry hfile
  obtain ⟨other, -, tail, hpath⟩ := exists_of_mem_entries hentry
  rw [Bool.and_eq_true, decide_eq_true_eq, hpath] at hfile
  obtain ⟨-, hlength, hkept⟩ := hfile
  have hname := hkept name (by simp)
  rw [hname] at hpassed
  have hdeep := hpassed.resolve_left Bool.false_ne_true
  simp only [List.length_append, List.length_cons, List.length_nil] at hlength
  omega

theorem listable_concat_iff {base : RelPath} (hlimit : base.length ≤ maxDepth)
    (hkept : ∀ name ∈ base, isSkipped name = false) (name : String) :
    Listable (base ++ [name]) ↔ ¬ isSkipped name = true := by
  simp only [Listable, List.length_append, List.length_singleton, List.forall_mem_append,
    List.forall_mem_singleton, Bool.not_eq_true, and_iff_right hkept]
  exact and_iff_right (Nat.succ_le_succ hlimit)

/-- A directory that is read lies within the depth limit, and no name above it is passed over. -/
theorem below_of_not_passed {base : RelPath} (hkept : ∀ name ∈ base, isSkipped name = false)
    {name : String} (hread : ¬ (isSkipped name = true ∨ maxDepth < base.length + 1)) :
    (base ++ [name]).length = base.length + 1 ∧ (base ++ [name]).length ≤ maxDepth ∧
      ∀ other ∈ base ++ [name], isSkipped other = false := by
  obtain ⟨hname, hdeep⟩ := not_or.mp hread
  have hlength : (base ++ [name]).length = base.length + 1 := by
    rw [List.length_append, List.length_singleton]
  refine ⟨hlength, hlength ▸ not_lt.mp hdeep, ?_⟩
  rw [List.forall_mem_append, List.forall_mem_singleton]
  exact ⟨hkept, Bool.eq_false_iff.mpr hname⟩

/-- A full scan finds the listable files, in the order of the listing. -/
theorem map_path_found {depth : ℕ} {base : RelPath} (hdepth : base.length = depth)
    (hlimit : depth ≤ maxDepth) (hkept : ∀ name ∈ base, isSkipped name = false)
    {opened before : ℕ} {listing : Listing} :
    (found depth base opened before listing).map Found.path = listing.files base := by
  induction listing generalizing depth base opened before with
  | nil => rfl
  | file name rest ih =>
    rw [found, Listing.files_file]
    have hlistable := listable_concat_iff (hdepth.trans_le hlimit) hkept name
    by_cases hskipped : isSkipped name = true
    · rw [if_pos hskipped, if_neg fun hpath ↦ hlistable.mp hpath hskipped]
      exact ih hdepth hlimit hkept
    · rw [if_neg hskipped, if_pos (hlistable.mpr hskipped), List.map_cons, ih hdepth hlimit hkept]
      rfl
  | dir name inside rest ihInside ih =>
    rw [found, Listing.files_dir, List.map_append, ih hdepth hlimit hkept]
    by_cases hpassed : isSkipped name = true ∨ maxDepth < depth + 1
    · rw [if_pos hpassed, files_of_passed (hdepth ▸ hpassed)]
      rfl
    · subst hdepth
      obtain ⟨hbelow, hlimitBelow, hkeptBelow⟩ := below_of_not_passed hkept hpassed
      rw [if_neg hpassed, ihInside hbelow (hbelow ▸ hlimitBelow) hkeptBelow]

/-- The same for a directory in it, which may be passed over. -/
theorem map_path_inner {depth : ℕ} {base : RelPath} (hdepth : base.length = depth)
    (hkept : ∀ name ∈ base, isSkipped name = false) (name : String) (before : ℕ)
    (inside : Listing) :
    (if isSkipped name = true ∨ maxDepth < depth + 1 then []
      else found (depth + 1) (base ++ [name]) before before inside).map Found.path =
        inside.files (base ++ [name]) := by
  by_cases hpassed : isSkipped name = true ∨ maxDepth < depth + 1
  · rw [if_pos hpassed, files_of_passed (hdepth ▸ hpassed)]
    rfl
  · subst hdepth
    obtain ⟨hbelow, hlimitBelow, hkeptBelow⟩ := below_of_not_passed hkept hpassed
    rw [if_neg hpassed, map_path_found hbelow (hbelow ▸ hlimitBelow) hkeptBelow]

/-! ## Paths and their texts -/

theorem exists_of_mem_files {base path : RelPath} {listing : Listing}
    (hmem : path ∈ listing.files base) :
    ∃ name ∈ listing.names, ∃ tail, path = base ++ name :: tail := by
  obtain ⟨entry, hentry, rfl⟩ := List.mem_map.mp hmem
  exact exists_of_mem_entries (List.mem_of_mem_filter hentry)

theorem isName_of_mem_files {listing : Listing} (htree : listing.IsTree) {base path : RelPath}
    (hmem : path ∈ listing.files base) (hbase : ∀ name ∈ base, Listing.IsName name) :
    ∀ name ∈ path, Listing.IsName name := by
  induction listing generalizing base with
  | nil => cases hmem
  | file name rest ih =>
    rw [Listing.files_file] at hmem
    rcases List.mem_append.mp hmem with hhere | hrest
    · split_ifs at hhere
      · rw [List.mem_singleton.mp hhere, List.forall_mem_append, List.forall_mem_singleton]
        exact ⟨hbase, htree.1⟩
      · cases hhere
    · exact ih htree.2.2 hrest hbase
  | dir name inside rest ihInside ih =>
    rw [Listing.files_dir] at hmem
    rcases List.mem_append.mp hmem with hinside | hrest
    · apply ihInside htree.2.2.1 hinside
      rw [List.forall_mem_append, List.forall_mem_singleton]
      exact ⟨hbase, htree.1⟩
    · exact ih htree.2.2.2 hrest hbase

/-- Paths below different entries of a directory differ. -/
theorem ne_of_names {base first second : RelPath} {name other : String} (hne : name ≠ other) :
    base ++ name :: first ≠ base ++ other :: second :=
  fun heq ↦ hne (List.cons.inj (List.append_cancel_left heq)).1

theorem nodup_files {listing : Listing} (htree : listing.IsTree) (base : RelPath) :
    (listing.files base).Nodup := by
  induction listing generalizing base with
  | nil => exact List.nodup_nil
  | file name rest ih =>
    rw [Listing.files_file, List.nodup_append]
    refine ⟨by split_ifs <;> simp, ih htree.2.2 base, ?_⟩
    rintro path hhere other hrest rfl
    obtain ⟨sibling, hsibling, tail, hpath⟩ := exists_of_mem_files hrest
    split_ifs at hhere
    · rw [List.mem_singleton.mp hhere] at hpath
      exact ne_of_names (fun hname : name = sibling ↦ htree.2.1 (hname ▸ hsibling)) hpath
    · cases hhere
  | dir name inside rest ihInside ih =>
    rw [Listing.files_dir, List.nodup_append]
    refine ⟨ihInside htree.2.2.1 _, ih htree.2.2.2 base, ?_⟩
    rintro path hinside other hrest rfl
    obtain ⟨sibling, hsibling, tail, hpath⟩ := exists_of_mem_files hrest
    obtain ⟨inner, -, innerTail, hinner⟩ := exists_of_mem_files hinside
    rw [hinner, List.append_assoc, List.singleton_append] at hpath
    exact ne_of_names (fun hname : name = sibling ↦ htree.2.1 (hname ▸ hsibling)) hpath

theorem splitOn_pathText {path : RelPath} (hnames : ∀ name ∈ path, Listing.IsName name)
    (hne : path ≠ []) : (pathText path).toList.splitOn '/' = path.map String.toList := by
  have hplain : ∀ component ∈ path.map String.toList, '/' ∉ component := by
    intro component hmem
    obtain ⟨name, hname, rfl⟩ := List.mem_map.mp hmem
    exact (hnames name hname).2
  rw [pathText, String.toList_intercalate]
  exact List.splitOn_intercalate '/' hplain (List.map_eq_nil_iff.not.mpr hne)

/-- Names have no separator in them, so the text of a path tells its components. -/
theorem pathText_injective {first second : RelPath} (hfirst : ∀ name ∈ first, Listing.IsName name)
    (hsecond : ∀ name ∈ second, Listing.IsName name) (hne : first ≠ []) (hne' : second ≠ [])
    (htext : pathText first = pathText second) : first = second := by
  apply List.map_injective_iff.mpr fun _ _ ↦ String.toList_inj.mp
  rw [← splitOn_pathText hfirst hne, ← splitOn_pathText hsecond hne', htext]

/-! ## The result is sorted -/

theorem sorted_perm (texts : List String) : (sorted texts).Perm texts := List.mergeSort_perm texts _

theorem sorted_pairwise (texts : List String) : (sorted texts).Pairwise (· ≤ ·) := by
  have hle : ∀ left right : String, (!decide (right < left)) = true ↔ left ≤ right := by
    intro left right
    rw [Bool.not_eq_true', decide_eq_false_iff_not, String.not_lt]
  have hsorted : (sorted texts).Pairwise fun left right ↦ (!decide (right < left)) = true := by
    apply List.pairwise_mergeSort
    · intro first second third hfirst hsecond
      rw [hle] at hfirst hsecond ⊢
      exact String.le_trans hfirst hsecond
    · intro first second
      rw [Bool.or_eq_true, hle, hle]
      exact String.le_total first second
  exact hsorted.imp fun {left right} ↦ (hle left right).mp

/-- Sorting forgets the order. -/
theorem sorted_eq_of_perm {first second : List String} (hperm : first.Perm second) :
    sorted first = sorted second :=
  ((sorted_perm first).trans (hperm.trans (sorted_perm second).symm)).eq_of_pairwise
    (fun _ _ _ _ hle hge ↦ String.le_antisymm hle hge) (sorted_pairwise first)
    (sorted_pairwise second)

end EdgeOrchestrator.Agent

import EdgeOrchestrator.Agent.ScanLimits
import EdgeOrchestrator.Agent.Plan

/-!
# Plans and the order of directories

The result of a scan is sorted, but the scan stops in the order in which the directories are read. A
directory that comes late enough is not seen, and the same directory is seen when it comes first. So
the plan depends on nothing but the tree exactly when no directory with files can come too late:
when fewer files than the limit lie outside each of them.
-/

namespace EdgeOrchestrator.Agent

open Listing

/-- Every two listings of the tree lead to the same files and the same plan. -/
def IsStable (root : String) (listing : Listing) : Prop :=
  ∀ first second : Listing, first.IsTree → second.IsTree → listing.SameTree first →
    listing.SameTree second →
    (scanWorkspace root first).files = (scanWorkspace root second).files ∧
      heuristicPlan (scanWorkspace root first) = heuristicPlan (scanWorkspace root second)

/-- How many of the paths lie outside a directory. -/
def outside (directory : RelPath) (paths : List RelPath) : ℕ :=
  paths.countP fun path ↦ !directory.isPrefixOf path

/-- The directory is not the workspace itself, and the file lies in it. -/
def IsInside (directory file : RelPath) : Prop :=
  directory ≠ [] ∧ directory <+: file ∧ directory ≠ file

/-- Fewer files than the limit lie outside each directory with files. -/
def FewOutside (listing : Listing) : Prop :=
  ∀ file ∈ listing.files [], ∀ directory, IsInside directory file →
    outside directory (listing.files []) < maxFiles

theorem outside_append (directory : RelPath) (first second : List RelPath) :
    outside directory (first ++ second) = outside directory first + outside directory second :=
  List.countP_append

/-- A path that goes on with another name lies outside. -/
theorem not_prefix_of_names {base tail rest : RelPath} {name other : String} (hne : name ≠ other) :
    ¬ base ++ name :: tail <+: base ++ other :: rest := by
  rw [List.prefix_append_right_inj]
  rintro ⟨back, hback⟩
  exact hne (List.cons.inj hback).1

theorem outside_eq_length {directory : RelPath} {paths : List RelPath}
    (hall : ∀ path ∈ paths, ¬ directory <+: path) : outside directory paths = paths.length := by
  apply List.countP_eq_length.mpr
  intro path hmem
  rw [Bool.not_eq_true', Bool.eq_false_iff, ne_eq, List.isPrefixOf_iff_prefix]
  exact hall path hmem

theorem outside_eq_zero {directory : RelPath} {paths : List RelPath}
    (hall : ∀ path ∈ paths, directory <+: path) : outside directory paths = 0 := by
  apply List.countP_eq_zero.mpr
  intro path hmem
  rw [Bool.not_eq_true', Bool.eq_false_iff, ne_eq, not_not, List.isPrefixOf_iff_prefix]
  exact hall path hmem

section Siblings

variable {base tail path : RelPath} {name other : String} {inside rest : Listing}

/-- A path below a name is no path below the other names. -/
theorem not_prefix_of_notMem (hname : name ∉ rest.names) (hmem : path ∈ rest.files base) :
    ¬ base ++ name :: tail <+: path := by
  obtain ⟨sibling, hsibling, rest, rfl⟩ := exists_of_mem_files hmem
  exact not_prefix_of_names fun hsame ↦ hname (hsame ▸ hsibling)

/-- A path in a directory is below its name only. -/
theorem name_eq_of_isPrefix (hmem : path ∈ inside.files (base ++ [other]))
    (hin : base ++ name :: tail <+: path) : name = other := by
  by_contra hne
  obtain ⟨inner, -, rest, rfl⟩ := exists_of_mem_files hmem
  rw [List.append_assoc, List.singleton_append] at hin
  exact not_prefix_of_names hne hin

end Siblings

/-! ## A directory is opened behind files outside it -/

/-- The file lies in a directory of the listing that is opened behind files outside it only. -/
def OpenedBehind (base : RelPath) (before : ℕ) (listing : Listing) (file : Found) : Prop :=
  ∃ name ∈ listing.names, ∃ tail, base ++ name :: tail <+: file.path ∧
    base ++ name :: tail ≠ file.path ∧
    file.opened ≤ before + outside (base ++ name :: tail) (listing.files base)

section OpenedBehind

variable {base : RelPath} {before : ℕ} {listing inside rest : Listing} {file : Found}

/-- Files in front that lie in none of the directories are files outside. -/
theorem OpenedBehind.later {front : List RelPath}
    (hrest : OpenedBehind base (before + front.length) rest file)
    (hnames : rest.names ⊆ listing.names) (hfiles : listing.files base = front ++ rest.files base)
    (hfront : ∀ name ∈ rest.names, ∀ tail, ∀ path ∈ front, ¬ base ++ name :: tail <+: path) :
    OpenedBehind base before listing file := by
  obtain ⟨name, hname, tail, hin, hne, hopened⟩ := hrest
  refine ⟨name, hnames hname, tail, hin, hne, ?_⟩
  rw [hfiles, outside_append, outside_eq_length (hfront name hname tail), ← Nat.add_assoc]
  exact hopened

/-- A directory inside is opened behind what is found before it, or behind more of its own. -/
theorem openedBehind_dir {name : String} (hpath : file.path ∈ inside.files (base ++ [name]))
    (hfile : file.opened = before ∨ OpenedBehind (base ++ [name]) before inside file) :
    OpenedBehind base before (.dir name inside rest) file := by
  rcases hfile with hhere | ⟨other, -, tail, hin, hne, hopened⟩
  · obtain ⟨other, -, tail, hsplit⟩ := exists_of_mem_files hpath
    refine ⟨name, List.mem_cons_self, [], ⟨other :: tail, hsplit.symm⟩, ?_, ?_⟩
    · rw [hsplit]
      simp
    · rw [hhere]
      exact Nat.le_add_right _ _
  · rw [List.append_assoc, List.singleton_append] at hin hne hopened
    refine ⟨name, List.mem_cons_self, other :: tail, hin, hne, hopened.trans ?_⟩
    rw [files_dir, outside_append]
    omega

end OpenedBehind

/-- A file found in the entries lies directly in the directory that is read, or in one that is opened
behind files outside it only. -/
theorem openedBehind_of_mem_found {listing : Listing} (htree : listing.IsTree) {base : RelPath}
    (hlimit : base.length ≤ maxDepth) (hkept : ∀ name ∈ base, isSkipped name = false)
    {opened before : ℕ} :
    ∀ file ∈ found base.length base opened before listing,
      file.opened = opened ∨ OpenedBehind base before listing file := by
  induction listing generalizing base opened before with
  | nil => exact fun file hmem ↦ absurd hmem List.not_mem_nil
  | file name rest ih =>
    intro file hmem
    rw [found] at hmem
    have hnames : rest.names ⊆ (Listing.file name rest).names := List.subset_cons_self ..
    by_cases hskipped : isSkipped name = true
    · rw [if_pos hskipped] at hmem
      have hfiles : (Listing.file name rest).files base = [] ++ rest.files base := by
        rw [files_file, if_neg fun hpath ↦ (listable_concat_iff hlimit hkept name).mp hpath hskipped]
      apply (ih htree.2.2 hlimit hkept file hmem).imp_right
      exact fun hrest ↦ hrest.later hnames hfiles fun _ _ _ _ hnil ↦ absurd hnil List.not_mem_nil
    · rw [if_neg hskipped] at hmem
      have hfiles : (Listing.file name rest).files base = [base ++ [name]] ++ rest.files base := by
        rw [files_file, if_pos ((listable_concat_iff hlimit hkept name).mpr hskipped)]
      rcases List.mem_cons.mp hmem with rfl | hmem
      · exact Or.inl rfl
      · apply (ih htree.2.2 hlimit hkept file hmem).imp_right
        intro hrest
        apply hrest.later hnames hfiles
        intro other hother tail
        rw [List.forall_mem_singleton]
        exact not_prefix_of_names fun hsame ↦ htree.2.1 (hsame ▸ hother)
  | dir name inside rest ihInside ih =>
    intro file hmem
    rw [found] at hmem
    have hinner := map_path_inner rfl hkept name before inside
    rcases List.mem_append.mp hmem with hfile | hfile
    · -- the directory itself is opened behind the files before it, and all of them lie outside it
      right
      have hpath : file.path ∈ inside.files (base ++ [name]) := hinner ▸ List.mem_map_of_mem hfile
      split_ifs at hfile with hpassed
      · cases hfile
      · obtain ⟨hbelow, hlimitBelow, hkeptBelow⟩ := below_of_not_passed hkept hpassed
        rw [← hbelow] at hfile
        exact openedBehind_dir hpath (ihInside htree.2.2.1 hlimitBelow hkeptBelow file hfile)
    · rw [← List.length_map Found.path, hinner] at hfile
      apply (ih htree.2.2.2 hlimit hkept file hfile).imp_right
      intro hrest
      apply hrest.later (List.subset_cons_self ..) (files_dir name inside rest base)
      intro other hother tail path hpath hin
      exact htree.2.1 (name_eq_of_isPrefix hpath hin ▸ hother)

/-- With few files outside its directories, all of a tree is seen. -/
theorem seen_of_fewOutside {listing other : Listing} (hfew : FewOutside listing)
    (htree : other.IsTree) (hsame : listing.SameTree other) :
    seen (found 0 [] 0 0 other) = found 0 [] 0 0 other := by
  apply seen_eq_self
  intro file hmem
  have hpaths := files_perm hsame
  have hpath : file.path ∈ listing.files [] := by
    rw [hpaths.mem_iff, ← map_path_found_root]
    exact List.mem_map_of_mem hmem
  rcases openedBehind_of_mem_found htree (Nat.zero_le _) (fun _ hnil ↦ absurd hnil List.not_mem_nil)
    file hmem with hroot | ⟨name, -, tail, hin, hne, hle⟩
  · rw [hroot]
    decide
  · have hout := hfew file.path hpath (name :: tail) ⟨List.cons_ne_nil _ _, hin, hne⟩
    rw [outside, hpaths.countP_eq] at hout
    rw [Nat.zero_add] at hle
    exact hle.trans_lt hout

theorem isStable_of_fewOutside {root : String} {listing : Listing} (hfew : FewOutside listing) :
    IsStable root listing := by
  have hfiles : ∀ other : Listing, other.IsTree → listing.SameTree other →
      (scanWorkspace root other).files = sorted ((listing.files []).map pathText) := by
    intro other htree hsame
    have hall : (found 0 [] 0 0 other).map (pathText ·.path) = (other.files []).map pathText := by
      rw [← map_path_found_root, List.map_map]
      rfl
    rw [files_scanWorkspace, seen_of_fewOutside hfew htree hsame, hall]
    exact sorted_eq_of_perm ((files_perm hsame).symm.map pathText)
  intro first second hfirstTree hsecondTree hfirst hsecond
  have hsame : scanWorkspace root first = scanWorkspace root second :=
    congrArg (WorkspaceInfo.mk root)
      ((hfiles first hfirstTree hfirst).trans (hfiles second hsecondTree hsecond).symm)
  exact ⟨congrArg WorkspaceInfo.files hsame, congrArg heuristicPlan hsame⟩

/-! ## A directory that comes last or first -/

/-- The entries of one listing behind those of another. -/
def Listing.append : Listing → Listing → Listing
  | .nil, second => second
  | .file name rest, second => .file name (rest.append second)
  | .dir name inside rest, second => .dir name inside (rest.append second)

section Append

variable (first second : Listing)

theorem names_append : (first.append second).names = first.names ++ second.names := by
  induction first with
  | nil => rfl
  | file name rest ih => exact congrArg (name :: ·) ih
  | dir name inside rest _ ih => exact congrArg (name :: ·) ih

theorem entries_append (base : RelPath) :
    (first.append second).entries base = first.entries base ++ second.entries base := by
  induction first with
  | nil => rfl
  | file name rest ih => exact congrArg ((base ++ [name], true) :: ·) ih
  | dir name inside rest _ ih =>
    rw [Listing.append, entries, entries, ih, List.cons_append, List.append_assoc]

theorem isTree_append {first second : Listing} (hfirst : first.IsTree) (hsecond : second.IsTree)
    (hother : ∀ name ∈ first.names, name ∉ second.names) : (first.append second).IsTree := by
  induction first with
  | nil => exact hsecond
  | file name rest ih =>
    rw [names, List.forall_mem_cons] at hother
    refine ⟨hfirst.1, ?_, ih hfirst.2.2 hother.2⟩
    rw [names_append, List.mem_append, not_or]
    exact ⟨hfirst.2.1, hother.1⟩
  | dir name inside rest _ ih =>
    rw [names, List.forall_mem_cons] at hother
    refine ⟨hfirst.1, ?_, hfirst.2.2.1, ih hfirst.2.2.2 hother.2⟩
    rw [names_append, List.mem_append, not_or]
    exact ⟨hfirst.2.1, hother.1⟩

theorem found_append (depth : ℕ) (base : RelPath) (opened before : ℕ) :
    found depth base opened before (first.append second) =
      found depth base opened before first ++
        found depth base opened (before + (found depth base opened before first).length)
          second := by
  induction first generalizing before with
  | nil => rfl
  | file name rest ih =>
    rw [Listing.append, found, found]
    split_ifs
    · exact ih before
    · rw [ih (before + 1), List.length_cons, List.cons_append, Nat.add_assoc, Nat.add_comm 1]
  | dir name inside rest _ ih =>
    rw [Listing.append, found, found]
    rw [ih, List.length_append, List.append_assoc, Nat.add_assoc]

end Append

/-- A listing of the same directory in another order. -/
structure Reorders (base : RelPath) (listing other : Listing) : Prop where
  isTree : other.IsTree
  names : ∀ name, name ∈ other.names ↔ name ∈ listing.names
  entries : (listing.entries base).Perm (other.entries base)

namespace Reorders

variable {base : RelPath} {name : String} {inside inner rest other : Listing}

theorem refl (htree : rest.IsTree) : Reorders base rest rest :=
  ⟨htree, fun _ ↦ Iff.rfl, List.Perm.refl _⟩

theorem file (hrest : Reorders base rest other) (htree : (Listing.file name rest).IsTree) :
    Reorders base (.file name rest) (.file name other) where
  isTree := ⟨htree.1, (hrest.names name).not.mpr htree.2.1, hrest.isTree⟩
  names _ := by rw [Listing.names, Listing.names, List.mem_cons, List.mem_cons, hrest.names]
  entries := hrest.entries.cons _

theorem dir (hinside : Reorders (base ++ [name]) inside inner) (hrest : Reorders base rest other)
    (htree : (Listing.dir name inside rest).IsTree) :
    Reorders base (.dir name inside rest) (.dir name inner other) where
  isTree := ⟨htree.1, (hrest.names name).not.mpr htree.2.1, hinside.isTree, hrest.isTree⟩
  names _ := by rw [Listing.names, Listing.names, List.mem_cons, List.mem_cons, hrest.names]
  entries := (hinside.entries.append hrest.entries).cons _

/-- The entries in front may be put behind the others. -/
theorem swap {listing first second : Listing}
    (hlisting : Reorders base listing (first.append second)) (hfirst : first.IsTree)
    (hsecond : second.IsTree) (hother : ∀ name ∈ second.names, name ∉ first.names) :
    Reorders base listing (second.append first) where
  isTree := isTree_append hsecond hfirst hother
  names name := by
    rw [← hlisting.names, names_append, names_append, List.mem_append, List.mem_append, or_comm]
  entries := by
    refine hlisting.entries.trans ?_
    rw [entries_append, entries_append]
    exact List.perm_append_comm

theorem file_behind (hrest : Reorders base rest other) (htree : (Listing.file name rest).IsTree) :
    Reorders base (.file name rest) (other.append (.file name .nil)) := by
  have hfront : Reorders base (.file name rest) ((Listing.file name .nil).append other) :=
    hrest.file htree
  apply hfront.swap ⟨htree.1, List.not_mem_nil, trivial⟩ hrest.isTree
  intro sibling hsibling hmem
  rw [List.mem_singleton.mp hmem, hrest.names] at hsibling
  exact htree.2.1 hsibling

theorem dir_behind (hinside : Reorders (base ++ [name]) inside inner)
    (hrest : Reorders base rest other) (htree : (Listing.dir name inside rest).IsTree) :
    Reorders base (.dir name inside rest) (other.append (.dir name inner .nil)) := by
  have hfront : Reorders base (.dir name inside rest) ((Listing.dir name inner .nil).append other) :=
    hinside.dir hrest htree
  apply hfront.swap ⟨htree.1, List.not_mem_nil, hinside.isTree, trivial⟩ hrest.isTree
  intro sibling hsibling hmem
  rw [List.mem_singleton.mp hmem, hrest.names] at hsibling
  exact htree.2.1 hsibling

theorem files (horder : Reorders base rest other) : (rest.files base).Perm (other.files base) :=
  (horder.entries.filter _).map _

end Reorders

/-- Behind files outside the directory, which are found after `before` files, come its own, and it is
opened behind all of those. -/
def LastFrom (directory : RelPath) (before : ℕ) (files : List Found) : Prop :=
  ∃ front back, files = front ++ back ∧ (∀ file ∈ front, ¬ directory <+: file.path) ∧
    ∀ file ∈ back, directory <+: file.path ∧ before + front.length ≤ file.opened

theorem LastFrom.append {directory : RelPath} {before : ℕ} {others files : List Found}
    (hlast : LastFrom directory (before + others.length) files)
    (hothers : ∀ file ∈ others, ¬ directory <+: file.path) :
    LastFrom directory before (others ++ files) := by
  obtain ⟨front, back, rfl, hfront, hback⟩ := hlast
  refine ⟨others ++ front, back, (List.append_assoc ..).symm, ?_, ?_⟩
  · rw [List.forall_mem_append]
    exact ⟨hothers, hfront⟩
  · intro file hmem
    rw [List.length_append, ← Nat.add_assoc]
    exact hback file hmem

/-- The files of the directory are found last. -/
def ComesLast (directory base : RelPath) (listing : Listing) : Prop :=
  ∀ opened before, LastFrom directory before (found base.length base opened before listing)

/-- A file of the directory is found first. -/
def ComesFirst (directory base : RelPath) (listing : Listing) : Prop :=
  ∀ opened before, ∃ file rest,
    found base.length base opened before listing = file :: rest ∧ directory <+: file.path

section Moves

variable {directory base : RelPath} {name : String} {inside inner rest : Listing}

/-- Reading the entries of a directory below the limit. -/
theorem found_dir_of_nonempty (hfiles : inside.files (base ++ [name]) ≠ []) (opened before : ℕ) :
    found base.length base opened before (.dir name inside rest) =
      found (base ++ [name]).length (base ++ [name]) before before inside ++
        found base.length base opened
          (before + (found (base ++ [name]).length (base ++ [name]) before before inside).length)
          rest := by
  have hopen : ¬ (isSkipped name = true ∨ maxDepth < base.length + 1) :=
    fun hpassed ↦ hfiles (files_of_passed hpassed)
  have hlength : (base ++ [name]).length = base.length + 1 := by
    rw [List.length_append, List.length_singleton]
  rw [found, if_neg hopen, hlength]

theorem prefix_of_mem_found {depth opened before : ℕ} :
    ∀ file ∈ found depth base opened before rest, base <+: file.path := by
  induction rest generalizing depth base opened before with
  | nil => exact fun file hmem ↦ absurd hmem List.not_mem_nil
  | file name rest ih =>
    rw [found]
    split_ifs
    · exact ih
    · rw [List.forall_mem_cons]
      exact ⟨List.prefix_append base [name], ih⟩
  | dir name inside rest ihInside ih =>
    rw [found, List.forall_mem_append]
    refine ⟨?_, ih⟩
    split_ifs
    · exact fun file hmem ↦ absurd hmem List.not_mem_nil
    · exact fun file hmem ↦ (List.prefix_append base [name]).trans (ihInside file hmem)

theorem ComesFirst.append (hfirst : ComesFirst directory base rest) (behind : Listing) :
    ComesFirst directory base (rest.append behind) := by
  intro opened before
  obtain ⟨file, others, hfound, hin⟩ := hfirst opened before
  exact ⟨file, _, by rw [found_append, hfound, List.cons_append], hin⟩

/-- A directory inside comes first when the directory around it does. -/
theorem ComesFirst.dir (hfirst : ComesFirst directory (base ++ [name]) inside)
    (hfiles : inside.files (base ++ [name]) ≠ []) :
    ComesFirst directory base (.dir name inside rest) := by
  intro opened before
  obtain ⟨file, others, hfound, hin⟩ := hfirst before before
  exact ⟨file, _, by rw [found_dir_of_nonempty hfiles, hfound, List.cons_append], hin⟩

/-- A directory inside comes last when the directory around it does. -/
theorem comesLast_behind
    (hlast : ∀ before, LastFrom directory before
      (found (base ++ [name]).length (base ++ [name]) before before inside))
    (hfiles : inside.files (base ++ [name]) ≠ [])
    (hothers : ∀ opened before, ∀ file ∈ found base.length base opened before rest,
      ¬ directory <+: file.path) :
    ComesLast directory base (rest.append (.dir name inside .nil)) := by
  intro opened before
  rw [found_append, found_dir_of_nonempty hfiles, found, List.append_nil]
  exact (hlast _).append (hothers opened before)

end Moves

/-- Some order puts the directory last, and some order puts it first. -/
def CanMove (directory base : RelPath) (listing : Listing) : Prop :=
  (∃ last, Reorders base listing last ∧ ComesLast directory base last) ∧
    ∃ first, Reorders base listing first ∧ ComesFirst directory base first

section CanMove

variable {directory base tail : RelPath} {name : String} {inside rest : Listing}

/-- A file in front of the entries is put behind them. -/
theorem CanMove.file (hmove : CanMove directory base rest) (htree : (Listing.file name rest).IsTree)
    (hother : ¬ directory <+: base ++ [name]) : CanMove directory base (.file name rest) := by
  obtain ⟨⟨last, hlastOrder, hlast⟩, first, hfirstOrder, hfirst⟩ := hmove
  refine ⟨⟨.file name last, hlastOrder.file htree, ?_⟩,
    first.append (.file name .nil), hfirstOrder.file_behind htree, hfirst.append _⟩
  intro opened before
  rw [found]
  split_ifs
  · exact hlast opened before
  · have hfile : ∀ file ∈ [(⟨base ++ [name], opened⟩ : Found)], ¬ directory <+: file.path := by
      rw [List.forall_mem_singleton]
      exact hother
    exact (hlast opened (before + 1)).append hfile

/-- So is another directory in front of them. -/
theorem CanMove.dir (hmove : CanMove directory base rest)
    (htree : (Listing.dir name inside rest).IsTree) (hkept : ∀ name ∈ base, isSkipped name = false)
    (hother : ∀ path ∈ inside.files (base ++ [name]), ¬ directory <+: path) :
    CanMove directory base (.dir name inside rest) := by
  obtain ⟨⟨last, hlastOrder, hlast⟩, first, hfirstOrder, hfirst⟩ := hmove
  have hinside : Reorders (base ++ [name]) inside inside := Reorders.refl htree.2.2.1
  refine ⟨⟨.dir name inside last, hinside.dir hlastOrder htree, ?_⟩,
    first.append (.dir name inside .nil), hinside.dir_behind hfirstOrder htree, hfirst.append _⟩
  intro opened before
  rw [found]
  apply (hlast opened _).append
  intro file hfile
  apply hother
  rw [← map_path_inner rfl hkept]
  exact List.mem_map_of_mem hfile

/-- What can be moved inside a directory is moved together with it. -/
theorem CanMove.outwards (hmove : CanMove directory (base ++ [name]) inside)
    (htree : (Listing.dir name inside rest).IsTree) (hfiles : inside.files (base ++ [name]) ≠ [])
    (hothers : ∀ opened before, ∀ file ∈ found base.length base opened before rest,
      ¬ directory <+: file.path) : CanMove directory base (.dir name inside rest) := by
  obtain ⟨⟨last, hlastOrder, hlast⟩, first, hfirstOrder, hfirst⟩ := hmove
  have hrest : Reorders base rest rest := Reorders.refl htree.2.2.2
  have hnonempty : ∀ {listing : Listing}, Reorders (base ++ [name]) inside listing →
      listing.files (base ++ [name]) ≠ [] :=
    fun horder hnil ↦ hfiles (List.perm_nil.mp (hnil ▸ horder.files))
  constructor
  · exact ⟨_, hlastOrder.dir_behind hrest htree,
      comesLast_behind (fun before ↦ hlast before before) (hnonempty hlastOrder) hothers⟩
  · exact ⟨_, hfirstOrder.dir hrest htree, hfirst.dir (hnonempty hfirstOrder)⟩

/-- A directory with files is moved among the entries next to it. -/
theorem canMove_of_files (htree : (Listing.dir name inside rest).IsTree)
    (hkept : ∀ name ∈ base, isSkipped name = false) (hfiles : inside.files (base ++ [name]) ≠ [])
    (hothers : ∀ opened before, ∀ file ∈ found base.length base opened before rest,
      ¬ base ++ [name] <+: file.path) : CanMove (base ++ [name]) base (.dir name inside rest) := by
  obtain ⟨-, hlimitBelow, hkeptBelow⟩ :=
    below_of_not_passed hkept fun hpassed ↦ hfiles (files_of_passed hpassed)
  have hinside : Reorders (base ++ [name]) inside inside := Reorders.refl htree.2.2.1
  refine ⟨⟨_, hinside.dir_behind (Reorders.refl htree.2.2.2) htree,
    comesLast_behind ?_ hfiles hothers⟩, _, Reorders.refl htree, ComesFirst.dir ?_ hfiles⟩
  · intro before
    refine ⟨[], _, rfl, fun _ hnil ↦ absurd hnil List.not_mem_nil, ?_⟩
    exact fun file hfile ↦ ⟨prefix_of_mem_found file hfile, le_opened le_rfl file hfile⟩
  · intro opened before
    have hpaths : (found (base ++ [name]).length (base ++ [name]) opened before inside).map
        Found.path = inside.files (base ++ [name]) :=
      map_path_found rfl hlimitBelow hkeptBelow
    cases hfound : found (base ++ [name]).length (base ++ [name]) opened before inside with
    | nil =>
      rw [hfound] at hpaths
      exact absurd hpaths.symm hfiles
    | cons file others =>
      exact ⟨file, others, rfl, prefix_of_mem_found file (hfound ▸ List.mem_cons_self)⟩

/-- What is found in the other entries lies outside. -/
theorem not_prefix_of_mem_found (hlimit : base.length ≤ maxDepth)
    (hkept : ∀ name ∈ base, isSkipped name = false) (hname : name ∉ rest.names)
    (opened before : ℕ) :
    ∀ file ∈ found base.length base opened before rest, ¬ base ++ name :: tail <+: file.path := by
  intro file hfile
  apply not_prefix_of_notMem hname
  rw [← map_path_found rfl hlimit hkept]
  exact List.mem_map_of_mem hfile

end CanMove

/-- A directory in which a file is found can be moved, by moving the directories around it. -/
theorem canMove {listing : Listing} (htree : listing.IsTree) {base tail path : RelPath}
    {name : String} (hlimit : base.length ≤ maxDepth) (hkept : ∀ name ∈ base, isSkipped name = false)
    (hmem : path ∈ listing.files base) (hin : base ++ name :: tail <+: path)
    (hne : base ++ name :: tail ≠ path) : CanMove (base ++ name :: tail) base listing := by
  induction listing generalizing base name tail with
  | nil => cases hmem
  | file other rest ih =>
    have hrest : path ∈ rest.files base := by
      rw [files_file] at hmem
      refine (List.mem_append.mp hmem).resolve_left fun hhere ↦ ?_
      split_ifs at hhere
      · rw [List.mem_singleton.mp hhere] at hin hne
        have hlength := ((List.prefix_concat_iff.mp hin).resolve_left hne).length_le
        rw [List.length_append, List.length_cons] at hlength
        omega
      · cases hhere
    apply (ih htree.2.2 hlimit hkept hrest hin hne).file htree
    apply not_prefix_of_names
    rintro rfl
    exact not_prefix_of_notMem htree.2.1 hrest hin
  | dir other inside rest ihInside ih =>
    rw [files_dir] at hmem
    rcases List.mem_append.mp hmem with hinside | hrest
    · -- the directory is this one, or inside it
      obtain rfl := name_eq_of_isPrefix hinside hin
      have hfiles : inside.files (base ++ [name]) ≠ [] := List.ne_nil_of_mem hinside
      have hothers : ∀ opened before, ∀ file ∈ found base.length base opened before rest,
          ¬ base ++ name :: tail <+: file.path :=
        not_prefix_of_mem_found hlimit hkept htree.2.1
      cases tail with
      | nil => exact canMove_of_files htree hkept hfiles hothers
      | cons next tail =>
        have hsplit : base ++ name :: next :: tail = base ++ [name] ++ next :: tail := by simp
        rw [hsplit] at hin hne ⊢
        simp only [hsplit] at hothers
        obtain ⟨-, hlimitBelow, hkeptBelow⟩ :=
          below_of_not_passed hkept fun hpassed ↦ hfiles (files_of_passed hpassed)
        have hmove := ihInside htree.2.2.1 hlimitBelow hkeptBelow hinside hin hne
        exact hmove.outwards htree hfiles hothers
    · apply (ih htree.2.2.2 hlimit hkept hrest hin hne).dir htree hkept
      intro inner hinner hprefix
      obtain rfl := name_eq_of_isPrefix hinner hprefix
      exact not_prefix_of_notMem htree.2.1 hrest hin

/-! ## Stability -/

section Stability

variable {root : String} {listing : Listing} {directory : RelPath}

/-- A directory that comes last behind enough files is not seen. -/
theorem not_prefix_of_mem_seen (hlast : ComesLast directory [] listing)
    (hmany : maxFiles ≤ outside directory (listing.files [])) {file : Found}
    (hmem : file ∈ seen (found 0 [] 0 0 listing)) : ¬ directory <+: file.path := by
  obtain ⟨front, back, hfound, hfront, hback⟩ := hlast 0 0
  have hfound : found 0 [] 0 0 listing = front ++ back := hfound
  have houtside : outside directory (listing.files []) = front.length := by
    have hnone : ∀ path ∈ front.map Found.path, ¬ directory <+: path := by
      intro path hpath
      obtain ⟨file, hfile, rfl⟩ := List.mem_map.mp hpath
      exact hfront file hfile
    have hall : ∀ path ∈ back.map Found.path, directory <+: path := by
      intro path hpath
      obtain ⟨file, hfile, rfl⟩ := List.mem_map.mp hpath
      exact (hback file hfile).1
    rw [← map_path_found_root, hfound, List.map_append, outside_append, outside_eq_length hnone,
      outside_eq_zero hall, List.length_map, Nat.add_zero]
  have hlate : seen back = [] := by
    apply seen_eq_nil
    intro file hfile
    have hopened := (hback file hfile).2
    omega
  rw [hfound, seen_append, hlate, List.append_nil] at hmem
  exact hfront file (List.mem_of_mem_filter hmem)

/-- A directory that comes first is seen. -/
theorem exists_mem_seen (hfirst : ComesFirst directory [] listing) :
    ∃ file ∈ seen (found 0 [] 0 0 listing), directory <+: file.path := by
  obtain ⟨file, rest, hfound, hin⟩ := hfirst 0 0
  have hfound : found 0 [] 0 0 listing = file :: rest := hfound
  have hopened : file.opened ≤ 0 := opened_le_index (by rw [hfound]; rfl)
  refine ⟨file, ?_, hin⟩
  rw [hfound, seen_cons_of_lt (hopened.trans_lt (by decide))]
  exact List.mem_cons_self

/-- The plan and the files depend on nothing but the tree exactly when few files lie outside each
directory with files. -/
theorem isStable_iff (htree : listing.IsTree) : IsStable root listing ↔ FewOutside listing := by
  refine ⟨?_, isStable_of_fewOutside⟩
  intro hstable path hpath directory hinside
  obtain ⟨hne, hin, hproper⟩ := hinside
  by_contra hmany
  rw [not_lt] at hmany
  obtain ⟨name, tail, rfl⟩ := List.exists_cons_of_ne_nil hne
  obtain ⟨⟨last, hlastOrder, hlast⟩, first, hfirstOrder, hfirst⟩ :=
    canMove htree (Nat.zero_le _) (fun _ hnil ↦ absurd hnil List.not_mem_nil) hpath hin hproper
  obtain ⟨file, hseen, hfile⟩ := exists_mem_seen hfirst
  have hmanyLast : maxFiles ≤ outside (name :: tail) (last.files []) := by
    rw [outside, ← hlastOrder.files.countP_eq]
    exact hmany
  have htext : pathText file.path ∈ (scanWorkspace root last).files := by
    rw [(hstable last first hlastOrder.isTree hfirstOrder.isTree hlastOrder.entries
      hfirstOrder.entries).1, files_scanWorkspace, (sorted_perm _).mem_iff]
    exact List.mem_map_of_mem hseen
  rw [files_scanWorkspace, (sorted_perm _).mem_iff] at htext
  obtain ⟨other, hother, hsame⟩ := List.mem_map.mp htext
  -- both are files of the tree, and different ones
  have hpaths : ∀ {order : Listing}, Reorders [] listing order →
      ∀ file ∈ seen (found 0 [] 0 0 order), file.path ∈ listing.files [] := by
    intro order horder file hfound
    rw [horder.files.mem_iff, ← map_path_found_root]
    exact List.mem_map_of_mem (List.mem_of_mem_filter hfound)
  have heq := pathText_injOn_files htree (hpaths hlastOrder other hother)
    (hpaths hfirstOrder file hseen) hsame
  exact not_prefix_of_mem_seen hlast hmanyLast hother (heq ▸ hfile)

end Stability

theorem isStable_iff_crate :
    IsStable "/home/user/project" (.dir "src" (.file "main.rs" .nil) (.file "Cargo.toml" .nil)) ↔
      FewOutside (.dir "src" (.file "main.rs" .nil) (.file "Cargo.toml" .nil)) :=
  isStable_iff (by
    simp only [IsTree, IsName, names]
    decide)

/-! ## A crate behind many files -/

/-- A directory with a crate in it. -/
def crateInside : Listing := .dir "z" (.file "Cargo.toml" .nil) .nil

/-- As many files as the limit. -/
def fullDirectory : Listing := withFiles (manyNames maxFiles) .nil

theorem found_fullDirectory (before : ℕ) :
    found 0 [] 0 before fullDirectory = (manyNames maxFiles).map fun name ↦ ⟨[name], 0⟩ :=
  (found_withFiles (fun _ ↦ isSkipped_of_mem_manyNames) 0 [] 0 before .nil).trans
    (List.append_nil _)

theorem found_crateInside (before : ℕ) :
    found 0 [] 0 before crateInside = [⟨["z", "Cargo.toml"], before⟩] := by
  simp [crateInside, found, isSkipped, maxDepth]

theorem isTree_fullDirectory : fullDirectory.IsTree :=
  isTree_withFiles (fun _ ↦ isName_of_mem_manyNames) (nodup_manyNames _) trivial
    fun _ _ ↦ List.not_mem_nil

theorem isTree_crateInside : crateInside.IsTree := by
  simp only [crateInside, IsTree, IsName, names]
  decide

theorem crate_notMem_fullDirectory : ∀ name ∈ fullDirectory.names, name ∉ crateInside.names := by
  intro name hmem hcrate
  rw [fullDirectory, names_withFiles, List.mem_append] at hmem
  obtain ⟨index, hname⟩ := exists_of_mem_manyNames (hmem.resolve_right List.not_mem_nil)
  rw [List.mem_singleton.mp hcrate] at hname
  have hmem : 'z' ∈ List.replicate (index + 1) 'a' := hname ▸ List.mem_cons_self
  exact absurd (List.eq_of_mem_replicate hmem) (by decide)

/-- Behind as many files as the limit, the crate is not seen. -/
theorem runCmd_of_crate_last (root : String) :
    (heuristicPlan (scanWorkspace root (fullDirectory.append crateInside))).runCmd = ["ls -la"] := by
  apply runCmd_heuristicPlan_of_plain
  intro text hmem
  have hlate : ∀ file ∈ [(⟨["z", "Cargo.toml"], maxFiles⟩ : Found)], maxFiles ≤ file.opened := by
    rw [List.forall_mem_singleton]
  rw [files_scanWorkspace, (sorted_perm _).mem_iff, found_append, found_fullDirectory,
    List.length_map, length_manyNames, Nat.zero_add, found_crateInside, seen_append,
    seen_eq_nil hlate, List.append_nil] at hmem
  obtain ⟨file, hfile, rfl⟩ := List.mem_map.mp hmem
  obtain ⟨name, hname, rfl⟩ := List.mem_map.mp (List.mem_of_mem_filter hfile)
  obtain ⟨index, hletters⟩ := exists_of_mem_manyNames hname
  rw [pathText, String.intercalate_singleton, hletters, List.getLast?_replicate,
    if_neg (Nat.succ_ne_zero index)]

/-- In front of them it is. -/
theorem runCmd_of_crate_first (root : String) :
    (heuristicPlan (scanWorkspace root (crateInside.append fullDirectory))).runCmd =
      ["cargo run --release"] := by
  have hmem : "z/Cargo.toml" ∈ (scanWorkspace root (crateInside.append fullDirectory)).files := by
    rw [files_scanWorkspace, (sorted_perm _).mem_iff, found_append, found_crateInside,
      List.singleton_append, seen_cons_of_lt (by decide)]
    exact List.mem_cons_self
  have hhas : has (scanWorkspace root (crateInside.append fullDirectory)) "Cargo.toml" = true :=
    List.any_eq_true.mpr ⟨"z/Cargo.toml", hmem, by decide⟩
  rw [heuristicPlan, if_pos hhas]

/-- The plan for a crate behind many files is another one when the crate comes first. -/
theorem order_decides_plan :
    ¬ ∀ (root : String) (listing : Listing), listing.IsTree → ∀ first second : Listing,
      first.IsTree → second.IsTree → listing.SameTree first → listing.SameTree second →
      heuristicPlan (scanWorkspace root first) = heuristicPlan (scanWorkspace root second) := by
  intro hgeneral
  have htree : (fullDirectory.append crateInside).IsTree :=
    isTree_append isTree_fullDirectory isTree_crateInside crate_notMem_fullDirectory
  have hsame : Reorders [] (fullDirectory.append crateInside) (fullDirectory.append crateInside) :=
    Reorders.refl htree
  have hswapped := hsame.swap isTree_fullDirectory isTree_crateInside
    fun name hcrate hfull ↦ crate_notMem_fullDirectory name hfull hcrate
  have hplans := hgeneral "/home/user/project" _ htree _ _ htree hswapped.isTree hsame.entries
    hswapped.entries
  have hcommands := congrArg Plan.runCmd hplans
  rw [runCmd_of_crate_last, runCmd_of_crate_first] at hcommands
  exact absurd hcommands (by decide)

end EdgeOrchestrator.Agent

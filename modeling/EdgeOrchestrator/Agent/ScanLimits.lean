import EdgeOrchestrator.Agent.Workspace

/-!
# The limits of the scan

A scan lists existing files within the depth limit, each once and in order, and all of them when
these are few. The number of files it lists can pass the limit on it, because a directory that was
entered is read to its end. It stays within the limit exactly when no directory that was opened in
time has a file to come once the limit is reached.
-/

namespace EdgeOrchestrator.Agent

/-- The scan lists no more files than it should, each of them listable, once and in order, and all
of them when it may. -/
def RespectsLimits (root : String) (listing : Listing) : Prop :=
  (scanWorkspace root listing).files.length ≤ maxFiles ∧
  (∀ text ∈ (scanWorkspace root listing).files,
    ∃ path, (path, true) ∈ listing.entries [] ∧ Listable path ∧ text = pathText path) ∧
  (scanWorkspace root listing).files.Nodup ∧
  (scanWorkspace root listing).files.Pairwise (· ≤ ·) ∧
  ((listing.files []).length ≤ maxFiles →
    ∀ path ∈ listing.files [], pathText path ∈ (scanWorkspace root listing).files)

/-- In the order of the listing, a file that comes after the limit is in a directory that is opened
after the limit. -/
def OpensLate (listing : Listing) : Prop :=
  ∀ index file, (found 0 [] 0 0 listing)[index]? = some file → maxFiles ≤ index →
    maxFiles ≤ file.opened

variable {root : String} {listing : Listing}

theorem map_path_found_root : (found 0 [] 0 0 listing).map Found.path = listing.files [] :=
  map_path_found rfl (Nat.zero_le _) (fun _ hmem ↦ absurd hmem List.not_mem_nil)

theorem opened_le_index {index : ℕ} {file : Found}
    (hfile : (found 0 [] 0 0 listing)[index]? = some file) : file.opened ≤ index :=
  (opened_le le_rfl hfile).trans_eq (Nat.zero_add index)

/-- The first files up to the limit are seen. -/
theorem seen_take : seen ((found 0 [] 0 0 listing).take maxFiles) =
    (found 0 [] 0 0 listing).take maxFiles := by
  apply seen_eq_self
  intro file hmem
  obtain ⟨index, hindex⟩ := List.mem_iff_getElem?.mp hmem
  rw [List.getElem?_take] at hindex
  split_ifs at hindex with hearly
  exact (opened_le_index hindex).trans_lt hearly

theorem length_scanWorkspace :
    (scanWorkspace root listing).files.length =
      ((found 0 [] 0 0 listing).take maxFiles).length +
        (seen ((found 0 [] 0 0 listing).drop maxFiles)).length := by
  rw [files_scanWorkspace, (sorted_perm _).length_eq, List.length_map]
  conv_lhs => rw [← List.take_append_drop maxFiles (found 0 [] 0 0 listing)]
  rw [seen_append, seen_take, List.length_append]

/-- The scan stays within the limit exactly when the directories of the files behind it are opened
late. -/
theorem length_scanWorkspace_le_iff :
    (scanWorkspace root listing).files.length ≤ maxFiles ↔ OpensLate listing := by
  rw [length_scanWorkspace]
  constructor
  · intro hlength index file hfile hlate
    by_contra hearly
    have hdropped : file ∈ (found 0 [] 0 0 listing).drop maxFiles := by
      apply List.mem_iff_getElem?.mpr
      exact ⟨index - maxFiles, by rw [List.getElem?_drop, Nat.add_sub_cancel' hlate, hfile]⟩
    have hseen : file ∈ seen ((found 0 [] 0 0 listing).drop maxFiles) :=
      List.mem_filter.mpr ⟨hdropped, decide_eq_true (not_le.mp hearly)⟩
    have hpositive := List.length_pos_of_mem hseen
    have hindex := (List.getElem?_eq_some_iff.mp hfile).1
    rw [List.length_take] at hlength
    omega
  · intro hlate
    rw [seen_eq_nil, List.length_nil, List.length_take]
    · exact Nat.min_le_left _ _
    · intro file hmem
      obtain ⟨index, hindex⟩ := List.mem_iff_getElem?.mp hmem
      rw [List.getElem?_drop] at hindex
      exact hlate _ file hindex (Nat.le_add_right _ _)

theorem exists_of_mem_scanWorkspace {text : String}
    (hmem : text ∈ (scanWorkspace root listing).files) :
    ∃ path ∈ listing.files [], text = pathText path := by
  rw [files_scanWorkspace, (sorted_perm _).mem_iff] at hmem
  obtain ⟨file, hfile, rfl⟩ := List.mem_map.mp hmem
  refine ⟨file.path, ?_, rfl⟩
  rw [← map_path_found_root]
  exact List.mem_map_of_mem (List.mem_of_mem_filter hfile)

theorem pathText_injOn_files (htree : listing.IsTree) {first second : RelPath}
    (hfirst : first ∈ listing.files []) (hsecond : second ∈ listing.files [])
    (htext : pathText first = pathText second) : first = second := by
  have hparts : ∀ path ∈ listing.files [],
      (∀ name ∈ path, Listing.IsName name) ∧ path ≠ [] := by
    intro path hmem
    obtain ⟨name, -, tail, hpath⟩ := exists_of_mem_files hmem
    refine ⟨isName_of_mem_files htree hmem fun _ hnil ↦ absurd hnil List.not_mem_nil, ?_⟩
    rw [hpath]
    exact List.cons_ne_nil _ _
  exact pathText_injective (hparts first hfirst).1 (hparts second hsecond).1
    (hparts first hfirst).2 (hparts second hsecond).2 htext

theorem nodup_scanWorkspace (htree : listing.IsTree) :
    (scanWorkspace root listing).files.Nodup := by
  rw [files_scanWorkspace, (sorted_perm _).nodup_iff]
  have htexts : ((found 0 [] 0 0 listing).map (pathText ·.path)).Nodup := by
    have htwice : (found 0 [] 0 0 listing).map (pathText ·.path) =
        (listing.files []).map pathText := by
      rw [← map_path_found_root, List.map_map]
      rfl
    rw [htwice]
    exact List.Nodup.map_on (fun first hfirst second hsecond htext ↦
      pathText_injOn_files htree hfirst hsecond htext) (nodup_files htree [])
  exact htexts.sublist (List.filter_sublist.map _)

/-- Few files are all seen. -/
theorem mem_scanWorkspace_of_few (hfew : (listing.files []).length ≤ maxFiles) {path : RelPath}
    (hmem : path ∈ listing.files []) : pathText path ∈ (scanWorkspace root listing).files := by
  rw [← map_path_found_root, List.length_map] at hfew
  rw [← map_path_found_root] at hmem
  obtain ⟨file, hfile, rfl⟩ := List.mem_map.mp hmem
  have hall : seen (found 0 [] 0 0 listing) = found 0 [] 0 0 listing := by
    conv_lhs => rw [← List.take_of_length_le hfew, seen_take, List.take_of_length_le hfew]
  rw [files_scanWorkspace, (sorted_perm _).mem_iff, hall]
  exact List.mem_map_of_mem hfile

/-- The scan respects its limits exactly when the directories of the files behind the limit are
opened late. -/
theorem respectsLimits_iff (htree : listing.IsTree) :
    RespectsLimits root listing ↔ OpensLate listing := by
  rw [RespectsLimits, length_scanWorkspace_le_iff]
  refine and_iff_left ⟨?_, nodup_scanWorkspace htree, ?_, ?_⟩
  · intro text hmem
    obtain ⟨path, hpath, rfl⟩ := exists_of_mem_scanWorkspace hmem
    obtain ⟨⟨_, isFile⟩, hentry, rfl⟩ := List.mem_map.mp hpath
    obtain ⟨hmem, hfile⟩ := List.mem_filter.mp hentry
    rw [Bool.and_eq_true, decide_eq_true_eq] at hfile
    obtain ⟨rfl, hlistable⟩ := hfile
    exact ⟨_, hmem, hlistable, rfl⟩
  · rw [files_scanWorkspace]
    exact sorted_pairwise _
  · intro hfew path hmem
    exact mem_scanWorkspace_of_few hfew hmem

theorem respectsLimits_iff_crate :
    RespectsLimits "/home/user/project" (.dir "src" (.file "main.rs" .nil) (.file "Cargo.toml" .nil)) ↔
      OpensLate (.dir "src" (.file "main.rs" .nil) (.file "Cargo.toml" .nil)) :=
  respectsLimits_iff (by
    simp only [Listing.IsTree, Listing.IsName, Listing.names]
    decide)

/-! ## Many files in one directory -/

/-- Files in front of the other entries of a directory. -/
def Listing.withFiles (names : List String) (rest : Listing) : Listing :=
  names.foldr Listing.file rest

theorem names_withFiles (names : List String) (rest : Listing) :
    (Listing.withFiles names rest).names = names ++ rest.names := by
  induction names with
  | nil => rfl
  | cons name names ih => exact congrArg (name :: ·) ih

theorem isTree_withFiles {names : List String} (hnames : ∀ name ∈ names, Listing.IsName name)
    (hdistinct : names.Nodup) {rest : Listing} (hrest : rest.IsTree)
    (hother : ∀ name ∈ names, name ∉ rest.names) : (Listing.withFiles names rest).IsTree := by
  induction names with
  | nil => exact hrest
  | cons name names ih =>
    rw [List.forall_mem_cons] at hnames hother
    rw [List.nodup_cons] at hdistinct
    have hnew : name ∉ (Listing.withFiles names rest).names := by
      rw [names_withFiles, List.mem_append, not_or]
      exact ⟨hdistinct.1, hother.1⟩
    exact ⟨hnames.1, hnew, ih hnames.2 hdistinct.2 hother.2⟩

/-- The files in front are found first. -/
theorem found_withFiles {names : List String} (hkept : ∀ name ∈ names, isSkipped name = false)
    (depth : ℕ) (base : RelPath) (opened before : ℕ) (rest : Listing) :
    found depth base opened before (Listing.withFiles names rest) =
      names.map (fun name ↦ ⟨base ++ [name], opened⟩) ++
        found depth base opened (before + names.length) rest := by
  induction names generalizing before with
  | nil => rfl
  | cons name names ih =>
    rw [List.forall_mem_cons] at hkept
    have hrest := ih hkept.2 (before + 1)
    rw [Nat.add_assoc, Nat.add_comm 1] at hrest
    rw [List.map_cons, List.cons_append, List.length_cons, ← hrest, Listing.withFiles,
      List.foldr_cons, found, hkept.1, if_neg Bool.false_ne_true]
    rfl

/-- So many names of different lengths. -/
def manyNames (count : ℕ) : List String :=
  (List.range count).map fun index ↦ String.ofList (List.replicate (index + 1) 'a')

theorem length_manyNames (count : ℕ) : (manyNames count).length = count := by
  rw [manyNames, List.length_map, List.length_range]

theorem exists_of_mem_manyNames {count : ℕ} {name : String} (hmem : name ∈ manyNames count) :
    ∃ index, name.toList = List.replicate (index + 1) 'a' := by
  obtain ⟨index, -, rfl⟩ := List.mem_map.mp hmem
  exact ⟨index, String.toList_ofList⟩

theorem nodup_manyNames (count : ℕ) : (manyNames count).Nodup := by
  apply List.Nodup.map _ List.nodup_range
  intro first second hsame
  have hlength := congrArg (fun name ↦ name.toList.length) hsame
  simpa using hlength

theorem isName_of_mem_manyNames {count : ℕ} {name : String} (hmem : name ∈ manyNames count) :
    Listing.IsName name := by
  obtain ⟨index, hname⟩ := exists_of_mem_manyNames hmem
  constructor
  · rintro rfl
    cases hname
  · rw [hname]
    intro hslash
    exact absurd (List.eq_of_mem_replicate hslash) (by decide)

theorem isSkipped_of_mem_manyNames {count : ℕ} {name : String} (hmem : name ∈ manyNames count) :
    isSkipped name = false := by
  obtain ⟨index, hname⟩ := exists_of_mem_manyNames hmem
  have hother : ∀ skipped : String, skipped.toList.getLast? ≠ some 'a' → name ≠ skipped := by
    rintro skipped hlast rfl
    exact hlast (by rw [hname, List.getLast?_replicate, if_neg (Nat.succ_ne_zero index)])
  simp only [isSkipped, Bool.or_eq_false_iff, beq_eq_false_iff_ne]
  exact ⟨⟨hother _ (by decide), hother _ (by decide)⟩, hother _ (by decide)⟩

/-- One file more than the limit, and all are listed. -/
theorem many_files_exceed_limit :
    ¬ ∀ (root : String) (listing : Listing), listing.IsTree → RespectsLimits root listing := by
  intro hgeneral
  have htree : (Listing.withFiles (manyNames (maxFiles + 1)) .nil).IsTree :=
    isTree_withFiles (fun _ ↦ isName_of_mem_manyNames) (nodup_manyNames _) trivial
      fun _ _ ↦ List.not_mem_nil
  have hlate := length_scanWorkspace_le_iff.mp (hgeneral "/home/user/data" _ htree).1
  have hkept : ∀ name ∈ manyNames (maxFiles + 1), isSkipped name = false :=
    fun _ ↦ isSkipped_of_mem_manyNames
  have hindex : maxFiles < (manyNames (maxFiles + 1)).length := by
    rw [length_manyNames]
    exact Nat.lt_succ_self maxFiles
  obtain ⟨name, hname⟩ : ∃ name, (manyNames (maxFiles + 1))[maxFiles]? = some name :=
    ⟨_, List.getElem?_eq_getElem hindex⟩
  have hlast := hlate maxFiles ⟨[name], 0⟩ (by
    rw [found_withFiles hkept, List.getElem?_append_left (by rwa [List.length_map]),
      List.getElem?_map, hname]
    rfl) le_rfl
  exact Nat.not_succ_le_zero 199 hlast

end EdgeOrchestrator.Agent

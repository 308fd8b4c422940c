import EdgeOrchestrator.Foundation.ShellReading
import EdgeOrchestrator.Sandbox.Qlean
import EdgeOrchestrator.Storage.Confinement

/-!
# Work directories

The executor takes the last component of a work directory, the sandbox takes its parent, and the
shell of the guest takes its text. The guest resolves `..` in the parent as it finds the directories,
while `cd` drops the name in front of it. The three agree about the directory in every guest exactly
when the shell takes the text literally, it ends in a name, and no `..` stands behind a name.
-/

namespace EdgeOrchestrator.Node

open Sandbox StackWalk Storage

/-- `Path::file_name` of a Unix path. -/
def pathFileName (path : String) : Option String :=
  match (trimSegments (path.toList.splitOn '/')).getLast? with
  | none => none
  | some name => if name = ['.', '.'] then none else some (String.ofList name)

/-- `Path::join` of Unix paths. -/
def pathJoin (path part : String) : String :=
  if part.toList.head? = some '/' then part
  else if path.toList = [] ∨ path.toList.getLast? = some '/' then path ++ part
  else path ++ "/" ++ part

example : ["/root/project", "/root/project/.", "/root/..", "/", "./a", "a//"].map pathFileName =
    [some "project", some "project", none, none, some "a", some "a"] := by decide

/-- The directory into which `QleanProjectExecutor::run` unpacks the snapshot, so that it has the
name of the work directory. -/
def projectDir (tmp workDir : String) : String :=
  pathJoin tmp ((pathFileName workDir).getD "project")

/-! ## The guest -/

/-- The last component of a path that is not empty. -/
def lastComponent (path : List Char) : Option (List Char) :=
  ((path.splitOn '/').filter fun component ↦ !component.isEmpty).getLast?

/-- The machine in which the project runs: its file tree, the directory in which a command starts,
and what its shell makes of a text with expansions. -/
structure GuestHost where
  places : Places (List Char)
  home : Path
  expand : List Char → Option (List (List Char) × List Char)

namespace GuestHost

/-- An entry of a directory, which may be there or not. -/
abbrev Spot (guest : GuestHost) : Type := guest.places.Place × List Char

def movesTo (guest : GuestHost) (text : List Char) : List (StackMove (List Char)) :=
  if IsAbsolute text then textMoves text else guest.home.map StackMove.push ++ textMoves text

/-- Where an upload puts a directory: in the parent, under its own name. -/
def uploadedTo (guest : GuestHost) (dir parent : String) : Option guest.Spot :=
  (pathFileName dir).map fun name ↦
    (guest.places.walk guest.places.top (guest.movesTo parent.toList), name.toList)

/-- Where `cd` goes: it drops a name in front of a `..` before it looks the path up. -/
def changed (guest : GuestHost) (operand : List Char) : Option guest.Spot :=
  let names := (guest.movesTo operand).foldl StackMove.apply []
  names.getLast?.map fun last ↦ (guest.places.descend guest.places.top names.dropLast, last)

/-- What `rm -rf` does about an operand: it refuses to remove `.`, `..` and the root. -/
def removed (guest : GuestHost) (operand : List Char) : Option guest.Spot :=
  match lastComponent operand with
  | none => none
  | some name =>
    if name = ['.'] ∨ name = ['.', '.'] then none
    else some
      (guest.places.walk guest.places.top (guest.movesTo operand).dropLast, name)

/-- The directory in which a command of the project runs: `none` when the shell reads something else
than `cd`, one operand and `&&` with the command behind it. -/
def changesInto (guest : GuestHost) (workDir : String) (command : List String) :
    Option guest.Spot :=
  match Shell.readWords guest.expand (commandIn workDir command).toList with
  | some ([builtin, operand], rest) =>
    if builtin = "cd".toList ∧ rest = ("&& " ++ " ".intercalate command).toList then
      guest.changed operand
    else none
  | _ => none

/-- What the cleanup removes. -/
def cleanedUp (guest : GuestHost) (workDir : String) : List guest.Spot :=
  match Shell.readWords guest.expand ("rm -rf " ++ workDir).toList with
  | some (program :: flags :: operands, _) =>
    if program = "rm".toList ∧ flags = "-rf".toList then operands.filterMap guest.removed else []
  | _ => []

/-- The workspace is uploaded to the directory that the commands change into and that the cleanup
has removed. -/
def LandsInPlace (guest : GuestHost) (workDir : String) : Prop :=
  ∃ spot,
    (∀ tmp, guest.uploadedTo (projectDir tmp workDir) ((pathParent workDir).getD "/root") =
      some spot) ∧
    (∀ command, guest.changesInto workDir command = some spot) ∧
    guest.cleanedUp workDir = [spot]

end GuestHost

/-- The last component of the work directory is a name. -/
def EndsInName (workDir : String) : Prop :=
  ∃ name, lastComponent workDir.toList = some name ∧ name ≠ ['.'] ∧ name ≠ ['.', '.']

/-- No `..` of the work directory stands behind a name. -/
def ClimbsFirst (workDir : String) : Prop :=
  ∀ move ∈ Places.fromTop (textMoves workDir.toList), move.isPop = false

/-! ## Components -/

section Components

variable {front back : List (List Char)} {name : List Char}

theorem componentMove_of_still {component : List Char}
    (hstill : component = [] ∨ component = ['.']) : componentMove component = none :=
  if_pos hstill

theorem textMoves_of_absolute (tail : List Char) :
    textMoves ('/' :: tail) = (tail.splitOn '/').filterMap componentMove := by
  rw [textMoves, splitOn_of_absolute,
    List.filterMap_cons_none (componentMove_of_still (Or.inl rfl))]

theorem filterMap_trimSegments (components : List (List Char)) :
    (trimSegments components).filterMap componentMove = components.filterMap componentMove := by
  let still : List Char → Bool := fun component ↦ component == [] || component == ['.']
  have hsplit : trimSegments components ++ components.rtakeWhile still = components :=
    List.rdropWhile_append_rtakeWhile
  have htail : (components.rtakeWhile still).filterMap componentMove = [] := by
    rw [List.filterMap_eq_nil_iff]
    intro component hmem
    have hstill : component = [] ∨ component = ['.'] := by
      simpa [still] using List.mem_rtakeWhile_imp hmem
    exact componentMove_of_still hstill
  conv_rhs => rw [← hsplit, List.filterMap_append, htail, List.append_nil]

theorem trimSegments_cons (first : List Char) (rest : List (List Char)) :
    trimSegments (first :: rest) =
      if trimSegments rest = [] then trimSegments [first] else first :: trimSegments rest := by
  simp only [trimSegments, List.rdropWhile, List.reverse_cons, List.dropWhile_append,
    List.isEmpty_iff, List.reverse_eq_nil_iff]
  split_ifs <;> simp_all

theorem still_of_empty {components : List (List Char)}
    (hempty : ∀ component ∈ components, component = []) :
    ∀ component ∈ components, (component == [] || component == ['.']) = true := by
  intro component hmem
  rw [hempty component hmem]
  rfl

theorem trimSegments_append_name (hname : name ≠ []) (hdot : name ≠ ['.'])
    (hback : ∀ component ∈ back, component = []) :
    trimSegments (front ++ name :: back) = front ++ [name] := by
  have hdropped : ∀ component ∈ back.reverse,
      (component == [] || component == ['.']) = true :=
    still_of_empty fun component hmem ↦ hback component (List.mem_reverse.mp hmem)
  rw [trimSegments, List.rdropWhile, List.reverse_append, List.reverse_cons, List.append_assoc,
    List.dropWhile_append_of_pos hdropped, List.singleton_append,
    List.dropWhile_cons_of_neg (by simp [hname, hdot])]
  simp

theorem exists_of_lastComponent {path : List Char} (hlast : lastComponent path = some name) :
    name ≠ [] ∧ ∃ front back, path.splitOn '/' = front ++ name :: back ∧
      ∀ component ∈ back, component = [] := by
  rw [lastComponent, List.getLast?_filter, List.find?_eq_some_iff_append] at hlast
  obtain ⟨hname, before, after, hsplit, hbefore⟩ := hlast
  refine ⟨by simpa using hname, after.reverse, before.reverse, ?_, ?_⟩
  · rw [← List.reverse_reverse (path.splitOn '/'), hsplit]
    simp
  · intro component hmem
    simpa using hbefore component (List.mem_reverse.mp hmem)

theorem trimSegments_last {components before : List (List Char)} {last : List Char}
    (htrim : trimSegments components = before ++ [last]) : last ≠ [] ∧ last ≠ ['.'] := by
  have hagain : trimSegments (before ++ [last]) = before ++ [last] :=
    htrim ▸ List.rdropWhile_idempotent _ components
  rw [trimSegments, List.rdropWhile_concat] at hagain
  split_ifs at hagain with hstill
  · have hshorter := (List.rdropWhile_prefix (fun segment : List Char ↦
      segment == [] || segment == ['.']) before).length_le
    rw [hagain, List.length_append, List.length_singleton] at hshorter
    omega
  · simpa using hstill

/-- The text of a parent leads where its components lead. -/
theorem textMoves_parent {components : List (List Char)}
    (hplain : ∀ component ∈ components, '/' ∉ component) :
    textMoves ('/' :: ['/'].intercalate (trimSegments components)) =
      components.filterMap componentMove := by
  rw [textMoves_of_absolute, ← filterMap_trimSegments components]
  cases htrim : trimSegments components with
  | nil => rfl
  | cons first rest =>
    have hmem : ∀ component ∈ first :: rest, '/' ∉ component := by
      intro component hmem
      have hfront : trimSegments components <+: components := List.rdropWhile_prefix _ _
      rw [← htrim] at hmem
      exact hplain component (hfront.subset hmem)
    rw [List.splitOn_intercalate '/' hmem (List.cons_ne_nil _ _)]

end Components

theorem exists_splitOn_pathJoin (path : String) {part : String} (hpart : '/' ∉ part.toList) :
    ∃ front, (pathJoin path part).toList.splitOn '/' = front ++ [part.toList] := by
  have hrelative : part.toList.head? ≠ some '/' :=
    fun hhead ↦ hpart (List.mem_of_mem_head? hhead)
  rw [pathJoin, if_neg hrelative]
  split_ifs with hends
  · rw [String.toList_append]
    rcases hends with hempty | hslash
    · exact ⟨[], by rw [hempty, List.nil_append, List.splitOn_eq_singleton hpart]; rfl⟩
    · obtain ⟨before, hbefore⟩ := List.getLast?_eq_some_iff.mp hslash
      rw [hbefore, List.append_assoc, List.singleton_append, splitOn_append_last hpart]
      exact ⟨_, rfl⟩
  · have htext : (path ++ "/" ++ part).toList = path.toList ++ '/' :: part.toList := by simp
    rw [htext, splitOn_append_last hpart]
    exact ⟨_, rfl⟩

theorem pathFileName_of_splitOn {path : String} {front back : List (List Char)}
    {name : List Char} (hsplit : path.toList.splitOn '/' = front ++ name :: back)
    (hname : name ≠ []) (hdot : name ≠ ['.']) (hup : name ≠ ['.', '.'])
    (hback : ∀ component ∈ back, component = []) :
    pathFileName path = some (String.ofList name) := by
  rw [pathFileName, hsplit, trimSegments_append_name hname hdot hback, List.getLast?_concat]
  exact if_neg hup

/-- The executor's directory has the name that it was given. -/
theorem pathFileName_pathJoin (path : String) {name : List Char} (hslash : '/' ∉ name)
    (hname : name ≠ []) (hdot : name ≠ ['.']) (hup : name ≠ ['.', '.']) :
    pathFileName (pathJoin path (String.ofList name)) = some (String.ofList name) := by
  have hpart : '/' ∉ (String.ofList name).toList := by rwa [String.toList_ofList]
  obtain ⟨front, hsplit⟩ := exists_splitOn_pathJoin path hpart
  rw [String.toList_ofList] at hsplit
  exact pathFileName_of_splitOn hsplit hname hdot hup
    fun component hmem ↦ absurd hmem List.not_mem_nil

/-! ## Weights

Characters of a kind are counted in the names that a walk enters. The kind is neither the separator
nor the dot, so that none is lost between a text and its moves. -/

section Weight

variable {isKind : Char → Bool}

def weight (isKind : Char → Bool) (moves : List (StackMove (List Char))) : ℕ :=
  (moves.map fun
    | .push name => name.countP isKind
    | .pop => 0).sum

def namesWeight (isKind : Char → Bool) (names : List (List Char)) : ℕ :=
  (names.map (List.countP isKind)).sum

theorem namesWeight_concat (names : List (List Char)) (name : List Char) :
    namesWeight isKind (names ++ [name]) = namesWeight isKind names + name.countP isKind := by
  rw [namesWeight, List.map_append, List.sum_append]
  exact congrArg _ (Nat.add_zero _)

theorem weight_append (earlier later : List (StackMove (List Char))) :
    weight isKind (earlier ++ later) = weight isKind earlier + weight isKind later := by
  rw [weight, List.map_append, List.sum_append]
  rfl

theorem weight_push (names : List (List Char)) :
    weight isKind (names.map StackMove.push) = namesWeight isKind names := by
  rw [weight, List.map_map]
  rfl

theorem weight_fromTop (moves : List (StackMove (List Char))) :
    weight isKind (Places.fromTop moves) = weight isKind moves := by
  induction moves with
  | nil => rfl
  | cons first rest ih =>
    cases first with
    | push name => rfl
    | pop => exact ih.trans (Nat.zero_add _).symm

theorem namesWeight_splitOn (hslash : isKind '/' = false) (text : List Char) :
    namesWeight isKind (text.splitOn '/') = text.countP isKind := by
  induction text with
  | nil => rfl
  | cons first rest ih =>
    obtain ⟨next, others, hpieces⟩ := List.exists_cons_of_ne_nil (List.splitOn_ne_nil '/' rest)
    rw [hpieces] at ih
    rw [List.splitOn_cons_eq_if_modifyHead, hpieces]
    split_ifs with hfirst
    · have hchar : first = '/' := by simpa using hfirst
      rw [hchar, List.countP_cons_of_neg (by simp [hslash]), ← ih]
      exact Nat.zero_add _
    · rw [List.modifyHead_cons, List.countP_cons, ← ih]
      simp only [namesWeight, List.map_cons, List.sum_cons, List.countP_cons]
      omega

theorem weight_componentMove (hdot : isKind '.' = false) (components : List (List Char)) :
    weight isKind (components.filterMap componentMove) = namesWeight isKind components := by
  induction components with
  | nil => rfl
  | cons first rest ih =>
    have hcons : namesWeight isKind (first :: rest) =
        first.countP isKind + namesWeight isKind rest := rfl
    rw [hcons, ← ih]
    by_cases hstill : first = [] ∨ first = ['.']
    · have hzero : first.countP isKind = 0 := by
        rcases hstill with rfl | rfl <;> simp [hdot]
      rw [List.filterMap_cons_none (componentMove_of_still hstill), hzero, Nat.zero_add]
    · by_cases hup : first = ['.', '.']
      · have hmove : componentMove first = some .pop := by
          rw [componentMove, if_neg hstill, if_pos hup]
        have hzero : first.countP isKind = 0 := by
          rw [hup]
          simp [hdot]
        rw [List.filterMap_cons_some hmove, hzero]
        rfl
      · have hmove : componentMove first = some (.push first) := by
          rw [componentMove, if_neg hstill, if_neg hup]
        rw [List.filterMap_cons_some hmove]
        rfl

theorem weight_textMoves (hslash : isKind '/' = false) (hdot : isKind '.' = false)
    (text : List Char) : weight isKind (textMoves text) = text.countP isKind := by
  rw [textMoves, weight_componentMove hdot, namesWeight_splitOn hslash]

/-- To drop names only loses weight. -/
theorem namesWeight_foldl_le (moves : List (StackMove (List Char))) :
    namesWeight isKind (moves.foldl StackMove.apply []) ≤ weight isKind moves := by
  induction moves using List.reverseRecOn with
  | nil => exact le_rfl
  | append_singleton earlier last ih =>
    rw [List.foldl_concat, weight_append]
    cases last with
    | push name =>
      rw [StackMove.apply, namesWeight_concat]
      exact Nat.add_le_add ih (Nat.le_add_right _ _)
    | pop =>
      rw [StackMove.apply]
      rcases List.eq_nil_or_concat' (earlier.foldl StackMove.apply []) with
        hnone | ⟨names, name, hnames⟩
      · rw [hnone]
        exact Nat.zero_le _
      · rw [hnames, namesWeight_concat] at ih
        rw [hnames, List.dropLast_concat]
        omega

end Weight

/-! ## Uploads -/

section Uploads

variable {workDir : String}

/-- What the executor and the sandbox make of a work directory: the moves of the parent, and the
name of the uploaded directory. -/
structure UploadRoute (workDir : String) where
  front : List (StackMove (List Char))
  base : List Char
  uploaded : ∀ (guest : GuestHost) (tmp : String),
    guest.uploadedTo (projectDir tmp workDir) ((pathParent workDir).getD "/root") =
      some (guest.places.walk guest.places.top front, base)
  whole : ∀ name, pathFileName workDir = some name →
    base = name.toList ∧ textMoves workDir.toList = front ++ [.push base]
  keeps : ∀ isKind : Char → Bool, isKind '/' = false → isKind '.' = false →
    workDir.toList.countP isKind ≤ weight isKind front + base.countP isKind

/-- An upload of a directory with a name goes to the parent under that name. -/
theorem uploadedTo_of_name (guest : GuestHost) (tmp : String) {parent name : String}
    (hname : (pathFileName workDir).getD "project" = name) (hslash : '/' ∉ name.toList)
    (hempty : name.toList ≠ []) (hdot : name.toList ≠ ['.']) (hup : name.toList ≠ ['.', '.'])
    (hparent : IsAbsolute parent.toList) :
    guest.uploadedTo (projectDir tmp workDir) parent =
      some (guest.places.walk guest.places.top (textMoves parent.toList), name.toList) := by
  have hfile := pathFileName_pathJoin tmp hslash hempty hdot hup
  rw [String.ofList_toList] at hfile
  rw [GuestHost.uploadedTo, projectDir, hname, hfile, Option.map_some, GuestHost.movesTo,
    if_pos hparent]

section Absolute

variable {tail : List Char}

theorem splitOn_toList (htail : workDir.toList = '/' :: tail) :
    workDir.toList.splitOn '/' = [] :: tail.splitOn '/' := by
  rw [htail, splitOn_of_absolute]

/-- The components that `Path` drops at the end move nothing. -/
theorem textMoves_toList (htail : workDir.toList = '/' :: tail) :
    textMoves workDir.toList = (trimSegments (tail.splitOn '/')).filterMap componentMove := by
  rw [htail, textMoves_of_absolute, filterMap_trimSegments]

theorem pathParent_toList (htail : workDir.toList = '/' :: tail) :
    pathParent workDir = (parentSegments (tail.splitOn '/')).map fun segments ↦
      String.ofList ('/' :: ['/'].intercalate segments) := by
  obtain ⟨second, rest, hcons⟩ := List.exists_cons_of_ne_nil (List.splitOn_ne_nil '/' tail)
  rw [pathParent, splitOn_toList htail, hcons]

/-- The root has neither a parent nor a name. -/
theorem uploadedTo_of_root (htail : workDir.toList = '/' :: tail)
    (htrim : trimSegments (tail.splitOn '/') = []) :
    pathFileName workDir = none ∧ ∀ (guest : GuestHost) (tmp : String),
      guest.uploadedTo (projectDir tmp workDir) ((pathParent workDir).getD "/root") =
        some (guest.places.walk guest.places.top (textMoves "/root".toList),
          "project".toList) := by
  have hnone : pathFileName workDir = none := by
    rw [pathFileName, splitOn_toList htail, trimSegments_cons, if_pos htrim]
    rfl
  have hroot : (pathParent workDir).getD "/root" = "/root" := by
    rw [pathParent_toList htail, parentSegments, htrim]
    rfl
  refine ⟨hnone, fun guest tmp ↦ ?_⟩
  rw [hroot]
  exact uploadedTo_of_name guest tmp (by rw [hnone]; rfl) (by decide) (by decide) (by decide)
    (by decide) (by decide)

variable {before : List (List Char)} {last : List Char}

theorem slash_notMem_of_trimmed (htrim : trimSegments (tail.splitOn '/') = before ++ [last]) :
    ∀ component ∈ before ++ [last], '/' ∉ component := by
  intro component hmem hin
  have hfront : trimSegments (tail.splitOn '/') <+: tail.splitOn '/' := List.rdropWhile_prefix _ _
  rw [htrim] at hfront
  exact (mem_of_mem_splitOn (hfront.subset hmem) '/' hin).2 rfl

/-- The parent has the components in front of the last one. -/
theorem textMoves_pathParent (htail : workDir.toList = '/' :: tail)
    (htrim : trimSegments (tail.splitOn '/') = before ++ [last]) :
    IsAbsolute ((pathParent workDir).getD "/root").toList ∧
      textMoves ((pathParent workDir).getD "/root").toList = before.filterMap componentMove := by
  have hsegments : parentSegments (tail.splitOn '/') = some (trimSegments before) := by
    have hdrop : (before ++ [last]).dropLast = before := List.dropLast_concat
    rw [parentSegments, htrim]
    cases before with
    | nil => rfl
    | cons first rest => exact congrArg (fun segments ↦ some (trimSegments segments)) hdrop
  have htext : ((pathParent workDir).getD "/root").toList =
      '/' :: ['/'].intercalate (trimSegments before) := by
    rw [pathParent_toList htail, hsegments, Option.map_some, Option.getD_some,
      String.toList_ofList]
  rw [htext]
  exact ⟨rfl, textMoves_parent fun component hmem ↦
    slash_notMem_of_trimmed htrim component (List.mem_append_left _ hmem)⟩

/-- The name is the last component, unless it is `..`. -/
theorem pathFileName_of_trimmed (htail : workDir.toList = '/' :: tail)
    (htrim : trimSegments (tail.splitOn '/') = before ++ [last]) :
    pathFileName workDir = if last = ['.', '.'] then none else some (String.ofList last) := by
  rw [pathFileName, splitOn_toList htail, trimSegments_cons, htrim,
    if_neg (List.append_ne_nil_of_right_ne_nil _ (List.cons_ne_nil _ _)), ← List.cons_append,
    List.getLast?_concat]

/-- The upload goes to the components in front of the last one, under the last one or, if that is
`..`, under the name that stands in for it. -/
theorem uploadedTo_of_trimmed (htail : workDir.toList = '/' :: tail)
    (htrim : trimSegments (tail.splitOn '/') = before ++ [last]) (guest : GuestHost)
    (tmp : String) :
    guest.uploadedTo (projectDir tmp workDir) ((pathParent workDir).getD "/root") =
      some (guest.places.walk guest.places.top (before.filterMap componentMove),
        if last = ['.', '.'] then "project".toList else last) := by
  obtain ⟨habsolute, hfront⟩ := textMoves_pathParent htail htrim
  have hfile := pathFileName_of_trimmed htail htrim
  split_ifs at hfile ⊢ with hup
  · have hname : (pathFileName workDir).getD "project" = "project" := by
      rw [hfile]
      rfl
    rw [uploadedTo_of_name guest tmp hname (by decide) (by decide) (by decide) (by decide)
      habsolute, hfront]
  · have hname : (pathFileName workDir).getD "project" = String.ofList last := by
      rw [hfile]
      rfl
    have hlast := trimSegments_last htrim
    have hslash := slash_notMem_of_trimmed htrim last (by simp)
    have hsame : (String.ofList last).toList = last := String.toList_ofList
    rw [uploadedTo_of_name guest tmp hname (hsame.symm ▸ hslash) (hsame.symm ▸ hlast.1)
      (hsame.symm ▸ hlast.2) (hsame.symm ▸ hup) habsolute, hfront, hsame]

end Absolute

theorem exists_uploadRoute (habsolute : IsAbsolute workDir.toList) :
    Nonempty (UploadRoute workDir) := by
  obtain ⟨tail, htail⟩ := List.head?_eq_some_iff.mp habsolute
  have hmoves := textMoves_toList htail
  have hweight : ∀ isKind : Char → Bool, isKind '/' = false → isKind '.' = false →
      workDir.toList.countP isKind = weight isKind (textMoves workDir.toList) :=
    fun isKind hsep hdot ↦ (weight_textMoves hsep hdot _).symm
  rcases List.eq_nil_or_concat' (trimSegments (tail.splitOn '/')) with htrim | ⟨before, last, htrim⟩
  · obtain ⟨hnone, huploaded⟩ := uploadedTo_of_root htail htrim
    refine ⟨⟨_, _, huploaded, fun name hname ↦ ?_, fun isKind hsep hdot ↦ ?_⟩⟩
    · rw [hnone] at hname
      cases hname
    · rw [hweight isKind hsep hdot, hmoves, htrim]
      exact Nat.zero_le _
  · have hfile := pathFileName_of_trimmed htail htrim
    refine ⟨⟨_, _, uploadedTo_of_trimmed htail htrim, fun name hname ↦ ?_,
      fun isKind hsep hdot ↦ ?_⟩⟩
    · -- a name is there only when the last component is pushed
      rw [hfile] at hname
      split_ifs at hname ⊢ with hup
      obtain rfl := Option.some.inj hname
      refine ⟨String.toList_ofList.symm, ?_⟩
      have hpush : componentMove last = some (.push last) := by
        rw [componentMove, if_neg (by simp [trimSegments_last htrim]), if_neg hup]
      rw [hmoves, htrim, List.filterMap_append, List.filterMap_cons_some hpush]
      rfl
    · rw [hweight isKind hsep hdot, hmoves, htrim, List.filterMap_append, weight_append,
        weight_componentMove hdot [last]]
      apply Nat.add_le_add_left
      split_ifs with hup
      · rw [hup]
        simp [namesWeight, hdot]
      · exact le_of_eq (Nat.add_zero _)

end Uploads

/-! ## Commands and cleanup -/

section Commands

variable {workDir : String}

theorem pathFileName_of_endsInName (hends : EndsInName workDir) :
    ∃ name, lastComponent workDir.toList = some name ∧
      pathFileName workDir = some (String.ofList name) := by
  obtain ⟨name, hlast, hdot, hup⟩ := hends
  obtain ⟨hname, front, back, hsplit, hback⟩ := exists_of_lastComponent hlast
  exact ⟨name, hlast, pathFileName_of_splitOn hsplit hname hdot hup hback⟩

theorem readWords_commandIn {expand : List Char → Option (List (List Char) × List Char)}
    (hliteral : Shell.IsLiteral workDir.toList) (command : List String) :
    Shell.readWords expand (commandIn workDir command).toList =
      some (["cd".toList, workDir.toList], ("&& " ++ " ".intercalate command).toList) := by
  have htext : (commandIn workDir command).toList = ["cd".toList].flatMap (· ++ [' ']) ++
      (workDir.toList ++ ' ' :: ("&& " ++ " ".intercalate command).toList) := by
    simp [commandIn]
  have htail : Shell.scan (.unquoted false) (' ' :: ("&& " ++ " ".intercalate command).toList) =
      some ([.blank ' '], ("&& " ++ " ".intercalate command).toList) := by
    rw [Shell.scan_space, String.toList_append]
    rfl
  have hcd : ∀ word ∈ ["cd".toList], Shell.IsLiteral word :=
    List.forall_mem_singleton.mpr ⟨by decide, by decide, rfl, rfl⟩
  rw [htext]
  exact Shell.readWords_literals hcd hliteral htail (List.forall_mem_singleton.mpr rfl)

theorem readWords_cleanup {expand : List Char → Option (List (List Char) × List Char)}
    (hliteral : Shell.IsLiteral workDir.toList) :
    Shell.readWords expand ("rm -rf " ++ workDir).toList =
      some (["rm".toList, "-rf".toList, workDir.toList], []) := by
  have htext : ("rm -rf " ++ workDir).toList =
      ["rm".toList, "-rf".toList].flatMap (· ++ [' ']) ++ (workDir.toList ++ []) := by
    simp
  rw [htext]
  have htail : Shell.scan (.unquoted false) [] = some ([], []) := rfl
  apply Shell.readWords_literals _ hliteral htail fun symbol hmem ↦ absurd hmem List.not_mem_nil
  rw [List.forall_mem_cons, List.forall_mem_singleton]
  exact ⟨⟨by decide, by decide, rfl, rfl⟩, by decide, by decide, rfl, rfl⟩

theorem cleanedUp_of_isLiteral (guest : GuestHost) (hliteral : Shell.IsLiteral workDir.toList) :
    guest.cleanedUp workDir = (guest.removed workDir.toList).toList := by
  rw [GuestHost.cleanedUp, readWords_cleanup hliteral]
  simp only [and_self, if_true]
  cases hremoved : guest.removed workDir.toList <;> simp [hremoved]

theorem removed_of_not_endsInName (guest : GuestHost) (hends : ¬ EndsInName workDir) :
    guest.removed workDir.toList = none := by
  rw [GuestHost.removed]
  cases hlast : lastComponent workDir.toList with
  | none => rfl
  | some name =>
    apply if_pos
    by_contra hnot
    rw [not_or] at hnot
    exact hends ⟨name, hlast, hnot⟩

/-- A literal work directory that ends in a name behind all its `..` is one directory for all
three. -/
theorem landsInPlace_of_isLiteral (guest : GuestHost) (habsolute : IsAbsolute workDir.toList)
    (hliteral : Shell.IsLiteral workDir.toList) (hends : EndsInName workDir)
    (hclimbs : ClimbsFirst workDir) : guest.LandsInPlace workDir := by
  obtain ⟨route⟩ := exists_uploadRoute habsolute
  obtain ⟨name, hlast, hfile⟩ := pathFileName_of_endsInName hends
  obtain ⟨hbase, hwhole⟩ := route.whole _ hfile
  rw [String.toList_ofList] at hbase
  have hmoves : guest.movesTo workDir.toList = route.front ++ [.push name] := by
    rw [GuestHost.movesTo, if_pos habsolute, hwhole, hbase]
  rw [ClimbsFirst, hwhole, hbase, Places.fromTop_concat_push] at hclimbs
  obtain ⟨names, hnames⟩ := Places.exists_names_of_no_pop
    fun move hmem ↦ hclimbs move (List.mem_append_left _ hmem)
  have hfront (places : Places (List Char)) :
      places.walk places.top route.front = places.descend places.top names := by
    rw [← Places.walk_fromTop, hnames]
    rfl
  refine ⟨(guest.places.walk guest.places.top route.front, name), ?_, ?_, ?_⟩
  · intro tmp
    rw [route.uploaded, hbase]
  · intro command
    have hlexical : (guest.movesTo workDir.toList).foldl StackMove.apply [] = names ++ [name] := by
      rw [hmoves, List.foldl_concat, ← Places.lexical_walk]
      exact congrArg (· ++ [name]) ((hfront (Places.lexical _)).trans
        (Places.lexical_descend [] names))
    rw [GuestHost.changesInto, readWords_commandIn hliteral]
    simp only [and_self, if_true]
    rw [GuestHost.changed, hlexical, List.getLast?_concat, List.dropLast_concat, hfront]
    rfl
  · have hname := hends
    obtain ⟨found, hfound, hdot, hup⟩ := hname
    obtain rfl : found = name := Option.some.inj (hfound.symm.trans hlast)
    rw [cleanedUp_of_isLiteral guest hliteral, GuestHost.removed, hlast]
    simp only [hdot, hup, or_self, if_false]
    rw [hmoves, List.dropLast_concat]
    rfl

/-- A guest in which every entry is a link and nothing expands. -/
abbrev linkedGuest : GuestHost where
  places := Places.histories (List Char)
  home := []
  expand := fun _ ↦ none

theorem changed_linkedGuest {operand : List Char} {spot : linkedGuest.Spot}
    (hchanged : linkedGuest.changed operand = some spot) :
    ∃ names, (textMoves operand).foldl StackMove.apply [] = names ++ [spot.2] ∧
      spot.1 = names.map StackMove.push := by
  have hmoves : linkedGuest.movesTo operand = textMoves operand := ite_self _
  rw [GuestHost.changed, hmoves, Option.map_eq_some_iff] at hchanged
  obtain ⟨last, hlast, rfl⟩ := hchanged
  refine ⟨_, (List.dropLast_append_getLast? last hlast).symm, ?_⟩
  exact Places.histories_descend _

/-- A work directory between blanks is the word that is read, or has blanks behind it. -/
theorem literal_or_blank_lost (habsolute : IsAbsolute workDir.toList) {operand : List Char}
    (hwords : words Shell.isBlank workDir.toList = [operand])
    (hbare : ∀ char ∈ workDir.toList, Shell.isOrdinary char = true ∨ Shell.isBlank char = true)
    (hkept : Shell.expands (operand.map Shell.Symbol.plain) = false) :
    operand = workDir.toList ∧ Shell.IsLiteral workDir.toList ∨
      operand.countP Shell.isBlank < workDir.toList.countP Shell.isBlank := by
  obtain ⟨tail, htail⟩ := List.head?_eq_some_iff.mp habsolute
  rw [htail] at hwords
  obtain ⟨blanks, hparts, hblanks, hplain⟩ := eq_append_blanks rfl hwords
  rw [← htail] at hparts
  cases blanks with
  | nil =>
    rw [List.append_nil] at hparts
    refine Or.inl ⟨hparts.symm, ?_, ?_, ?_, hparts ▸ hkept⟩
    · rw [htail]
      exact List.cons_ne_nil _ _
    · rw [htail]
      exact fun hhead ↦ absurd (Option.some.inj hhead) (by decide)
    · rw [List.all_eq_true]
      intro char hmem
      apply (hbare char hmem).resolve_right
      rw [hplain char (hparts ▸ hmem)]
      exact Bool.false_ne_true
  | cons blank others =>
    right
    have hzero : operand.countP Shell.isBlank = 0 :=
      List.countP_eq_zero.mpr fun char hmem ↦ by rw [hplain char hmem]; exact Bool.false_ne_true
    rw [hparts, List.countP_append, hzero,
      List.countP_cons_of_pos (hblanks blank List.mem_cons_self)]
    omega

/-- Quotes and blanks of a work directory are lost on the way to `cd`, which weighs less than what
is uploaded. -/
theorem literal_or_lost (habsolute : IsAbsolute workDir.toList) {command : List String}
    {spot : linkedGuest.Spot} (hchanges : linkedGuest.changesInto workDir command = some spot) :
    ∃ operand, linkedGuest.changed operand = some spot ∧
      (operand = workDir.toList ∧ Shell.IsLiteral workDir.toList ∨
        ∃ isKind : Char → Bool, isKind '/' = false ∧ isKind '.' = false ∧
          operand.countP isKind < workDir.toList.countP isKind) := by
  rw [GuestHost.changesInto] at hchanges
  split at hchanges
  · rename_i builtin operand rest hread
    rw [Option.ite_none_right_eq_some] at hchanges
    obtain ⟨⟨rfl, rfl⟩, hchanged⟩ := hchanges
    refine ⟨operand, hchanged, ?_⟩
    have hhead : ("&& " ++ " ".intercalate command).toList.head? = some '&' := by
      rw [String.toList_append]
      rfl
    obtain ⟨consumed, htext, hcases⟩ := Shell.words_bare_or_lost hread hhead
    have hconsumed : consumed = "cd".toList ++ ' ' :: (workDir.toList ++ ' ' :: []) := by
      have hwhole : consumed ++ ("&& " ++ " ".intercalate command).toList =
          "cd".toList ++ ' ' :: (workDir.toList ++ ' ' :: []) ++
            ("&& " ++ " ".intercalate command).toList := by
        rw [← htext]
        simp [commandIn]
      exact List.append_cancel_right hwhole
    rcases hcases with ⟨hfound, hbare, hkept⟩ | hlost
    · have hwords : words Shell.isBlank workDir.toList = [operand] := by
        rw [hconsumed, words_append_blank rfl, words_append_blank rfl] at hfound
        have hcd : words Shell.isBlank "cd".toList = ["cd".toList] := by decide
        have hend : words Shell.isBlank [] = [] := rfl
        rw [hcd, hend, List.append_nil, List.singleton_append] at hfound
        exact (List.cons.inj hfound).2.symm
      have hin : ∀ char ∈ workDir.toList, char ∈ consumed := by
        intro char hmem
        rw [hconsumed]
        simp [hmem]
      exact (literal_or_blank_lost habsolute hwords (fun char hmem ↦ hbare char (hin char hmem))
        (hkept operand (by simp))).imp_right fun hlost ↦ ⟨Shell.isBlank, rfl, rfl, hlost⟩
    · refine Or.inr ⟨Shell.isQuoting, rfl, rfl, ?_⟩
      have hcount := hlost operand (by simp)
      have hcd : "cd".toList.countP Shell.isQuoting = 0 := by decide
      have hspace : [' '].countP Shell.isQuoting = 0 := by decide
      rwa [hconsumed, List.countP_append, List.countP_cons_of_neg (by decide),
        List.countP_append, hcd, hspace, Nat.zero_add, Nat.add_zero] at hcount
  · cases hchanges

/-- What `cd` loses, the upload keeps. -/
theorem not_lost (habsolute : IsAbsolute workDir.toList) {spot : linkedGuest.Spot}
    {operand : List Char} (hchanged : linkedGuest.changed operand = some spot)
    (huploaded : linkedGuest.uploadedTo (projectDir "" workDir)
      ((pathParent workDir).getD "/root") = some spot)
    {isKind : Char → Bool} (hslash : isKind '/' = false) (hdot : isKind '.' = false) :
    workDir.toList.countP isKind ≤ operand.countP isKind := by
  obtain ⟨route⟩ := exists_uploadRoute habsolute
  obtain ⟨names, hnames, hplace⟩ := changed_linkedGuest hchanged
  rw [route.uploaded, Option.some_inj] at huploaded
  rw [← huploaded, Places.histories_walk] at hplace
  calc workDir.toList.countP isKind
      ≤ weight isKind route.front + route.base.countP isKind := route.keeps isKind hslash hdot
    _ = namesWeight isKind ((textMoves operand).foldl StackMove.apply []) := by
        rw [hnames, namesWeight_concat, ← weight_push, ← hplace, weight_fromTop, ← huploaded]
    _ ≤ weight isKind (textMoves operand) := namesWeight_foldl_le _
    _ = operand.countP isKind := weight_textMoves hslash hdot operand

end Commands

end EdgeOrchestrator.Node

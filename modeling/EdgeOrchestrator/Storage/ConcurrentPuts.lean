import EdgeOrchestrator.Foundation.Execution
import EdgeOrchestrator.Storage.PutHistory

/-!
# Concurrent puts of blobs

A call of `put_blob` checks whether the file of its object exists, makes the directory, creates the
file and writes the bytes, and other calls may take steps in between. Creating a file truncates it,
and a write that fails leaves a prefix of its bytes. A call that finds the file trusts it. So what
a call has returned stays readable in the runs in which a call only ever finds complete files and
no file is created again after a call for it has succeeded.
-/

namespace EdgeOrchestrator.Storage.ConcurrentPuts

open Execution

/-- Where a call of `put_blob` stands. -/
inductive PutPhase
  | started
  | missing
  | prepared
  | opened
  | returned (outcome : Outcome CoreError Hash)
  deriving DecidableEq, Repr

structure PutCall where
  data : Bytes
  phase : PutPhase := .started
  deriving DecidableEq, Repr

/-- The store and the calls that share it. -/
structure PutWorld where
  store : LocalObjectStore
  calls : ℕ → Option PutCall := fun _ ↦ none

/-- The atomic steps of a call; each but the first may fail. -/
inductive PutStep
  | check
  | mkdir (fault : Option (ℕ × String))
  | create (fault : Option String)
  | write (fault : Option (ℕ × String))
  deriving DecidableEq, Repr

inductive PutAction
  | call (id : ℕ) (data : Bytes)
  | advance (id : ℕ) (putStep : PutStep)
  deriving DecidableEq, Repr

/-- Content of a file; a path without a file has none. -/
def fileBytes (disk : Disk) (path : Path) : Bytes :=
  match disk.lookup path with
  | some (.file bytes) => bytes
  | _ => []

/-- Write bytes at the start of a file that is open. -/
def overwrite (disk : Disk) (path : Path) (bytes : Bytes) : Disk :=
  disk.insert path (.file (bytes ++ (fileBytes disk path).drop bytes.length))

/-- One step of a call on the file of its object: the next phase and the disk after it. -/
def stepFile (primitives : Primitives) (disk : Disk) (path : Path) (call : PutCall)
    (putStep : PutStep) : Option (PutPhase × Disk) :=
  let hash := hashBlob primitives call.data
  let parent := path.dropLast
  let compressed := storedForm primitives (.blob ⟨hash, call.data⟩)
  match putStep, call.phase with
  | .check, .started =>
    if path ∈ disk then some (.returned (.ok hash), disk) else some (.missing, disk)
  | .mkdir none, .missing => some (.prepared, createDirAll disk parent)
  | .mkdir (some (made, error)), .missing =>
    some (.returned (.err (.storageIo ("mkdir " ++ displayPath parent ++ ": " ++ error))),
      createDirs disk (parent.inits.take made))
  | .create none, .prepared => some (.opened, disk.insert path (.file []))
  | .create (some error), .prepared =>
    some (.returned (.err (.storageIo ("create " ++ displayPath path ++ ": " ++ error))), disk)
  | .write none, .opened => some (.returned (.ok hash), overwrite disk path compressed)
  | .write (some (written, error)), .opened =>
    some (.returned (.err (.storageIo ("write " ++ displayPath path ++ ": " ++ error))),
      overwrite disk path (compressed.take written))
  | _, _ => none

/-- The world with one call replaced and another disk. -/
def PutWorld.withCall (world : PutWorld) (id : ℕ) (call : PutCall) (disk : Disk) : PutWorld where
  store := { world.store with disk := disk }
  calls := Function.update world.calls id (some call)

theorem PutWorld.calls_withCall (world : PutWorld) (id : ℕ) (call : PutCall) (disk : Disk) :
    (world.withCall id call disk).calls = Function.update world.calls id (some call) := rfl

def step (primitives : Primitives) (world : PutWorld) : PutAction → Option PutWorld
  | .call id data =>
    match world.calls id with
    | none => some (world.withCall id { data := data } world.store.disk)
    | some _ => none
  | .advance id putStep =>
    match world.calls id with
    | none => none
    | some call =>
      match world.store.objectPath (hashBlob primitives call.data) with
      | none =>
        let lost := PutPhase.returned (.lost (.panic LocalObjectStore.splitPanic))
        some (world.withCall id { call with phase := lost } world.store.disk)
      | some path =>
        (stepFile primitives world.store.disk path.whole call putStep).map fun moved ↦
          world.withCall id { call with phase := moved.1 } moved.2

/-- Every call that has returned a hash has put a blob that can be read under it. -/
def ReturnedBlobsReadable (primitives : Primitives) (world : PutWorld) : Prop :=
  ∀ id call hash, world.calls id = some call → call.phase = .returned (.ok hash) →
    world.store.getBlob primitives hash = .ok call.data

/-- A check that finds a file finds it complete, and a file is not created after a call for it has
returned its hash. -/
def TrustsCompleteFiles (primitives : Primitives) (world : PutWorld) : PutAction → Prop
  | .advance id .check => ∀ call, world.calls id = some call →
    digestPath world.store.root (hashBlob primitives call.data) ∈ world.store.disk →
      world.store.disk.lookup (digestPath world.store.root (hashBlob primitives call.data)) =
        some (.file (storedForm primitives
          (.blob ⟨hashBlob primitives call.data, call.data⟩)))
  | .advance id (.create none) => ∀ call, world.calls id = some call →
    ∀ other otherCall, world.calls other = some otherCall →
      otherCall.phase ≠ .returned (.ok (hashBlob primitives call.data))
  | _ => True

/-- The puts that the calls of a run make. -/
def putsOf (actions : List PutAction) : List PutOperation :=
  actions.filterMap fun action ↦
    match action with
    | .call _ data => some (.blob data)
    | .advance _ _ => none

/-! ## What a step can do -/

/-- The bytes of a complete file of a blob. -/
def storedBlob (primitives : Primitives) (data : Bytes) : Bytes :=
  storedForm primitives (.blob ⟨hashBlob primitives data, data⟩)

/-- The file of a blob. -/
def blobPath (primitives : Primitives) (root : Path) (data : Bytes) : Path :=
  digestPath root (hashBlob primitives data)

/-- The path of that file as the store writes it. -/
def blobFile (primitives : Primitives) (root : Path) (data : Bytes) : RawPath :=
  digestFile root (hashBlob primitives data)

theorem objectPath_blob (primitives : Primitives) (store : LocalObjectStore) (data : Bytes) :
    store.objectPath (hashBlob primitives data) = some (blobFile primitives store.root data) :=
  store.objectPath_of_isDigest (isDigest_hashBlob primitives data)

theorem existsAt_blobFile (primitives : Primitives) (store : LocalObjectStore) (data : Bytes) :
    store.existsAt (blobFile primitives store.root data) =
      (store.disk.lookup (blobPath primitives store.root data)).isSome :=
  LocalObjectStore.existsAt_digestFile store (isDigest_hashBlob primitives data) store.root

theorem whole_blobFile (primitives : Primitives) (root : Path) (data : Bytes) :
    (blobFile primitives root data).whole = blobPath primitives root data := rfl

/-- Everything a step can do to the file of a call: leave it alone, find it, create it empty, or
write at the start of it once it is open. Only the second and a complete write succeed. -/
inductive FileMove (primitives : Primitives) (disk : Disk) (path : Path) (call : PutCall) :
    PutStep → PutPhase → Disk → Prop
  | directories {putStep : PutStep} {phase : PutPhase} {paths : List Path}
      (hopened : phase ≠ .opened) (hreturned : ∀ hash, phase ≠ .returned (.ok hash)) :
    FileMove primitives disk path call putStep phase (createDirs disk paths)
  | found (hmem : path ∈ disk) :
    FileMove primitives disk path call .check
      (.returned (.ok (hashBlob primitives call.data))) disk
  | created :
    FileMove primitives disk path call (.create none) .opened (disk.insert path (.file []))
  | written {putStep : PutStep} {phase : PutPhase} {bytes : Bytes}
      (hcall : call.phase = .opened) (hbytes : bytes <+: storedBlob primitives call.data)
      (hopened : phase ≠ .opened)
      (hreturned : ∀ hash, phase = .returned (.ok hash) →
        hash = hashBlob primitives call.data ∧ bytes = storedBlob primitives call.data) :
    FileMove primitives disk path call putStep phase (overwrite disk path bytes)

theorem fileMove_of_stepFile {primitives : Primitives} {disk : Disk} {path : Path}
    {call : PutCall} {putStep : PutStep} {moved : PutPhase × Disk}
    (hstep : stepFile primitives disk path call putStep = some moved) :
    FileMove primitives disk path call putStep moved.1 moved.2 := by
  have hunchanged : disk = createDirs disk [] := rfl
  unfold stepFile at hstep
  split at hstep
  · split_ifs at hstep with hmem
    · rw [← Option.some.inj hstep]
      exact .found hmem
    · rw [← Option.some.inj hstep, hunchanged]
      exact .directories (by simp) (by simp)
  · rw [← Option.some.inj hstep]
    exact .directories (by simp) (by simp)
  · rw [← Option.some.inj hstep]
    exact .directories (by simp) (by simp)
  · rw [← Option.some.inj hstep]
    exact .created
  · rw [← Option.some.inj hstep, hunchanged]
    exact .directories (by simp) (by simp)
  · rw [← Option.some.inj hstep]
    apply FileMove.written ‹_› (List.prefix_refl _) (by simp)
    intro hash hphase
    simp only [PutPhase.returned.injEq, Outcome.ok.injEq] at hphase
    exact ⟨hphase.symm, rfl⟩
  · rw [← Option.some.inj hstep]
    exact .written ‹_› (List.take_prefix _ _) (by simp) (by simp)
  · cases hstep

/-- Everything a step of the world can do: start a call, or move a call on its file. -/
theorem step_cases {primitives : Primitives} {world next : PutWorld} {action : PutAction}
    (hstep : step primitives world action = some next) :
    (∃ id data, action = .call id data ∧
      next = world.withCall id { data := data } world.store.disk) ∨
    ∃ id putStep call phase disk, action = .advance id putStep ∧ world.calls id = some call ∧
      FileMove primitives world.store.disk (blobPath primitives world.store.root call.data)
        call putStep phase disk ∧
      next = world.withCall id { call with phase := phase } disk := by
  cases action with
  | call id data =>
    left
    simp only [step] at hstep
    split at hstep
    · exact ⟨id, data, rfl, (Option.some.inj hstep).symm⟩
    · cases hstep
  | advance id putStep =>
    right
    simp only [step] at hstep
    split at hstep
    · cases hstep
    · rename_i call hcall
      rw [objectPath_blob] at hstep
      obtain ⟨moved, hmoved, hnext⟩ := Option.map_eq_some_iff.mp hstep
      exact ⟨id, putStep, call, moved.1, moved.2, rfl, hcall, fileMove_of_stepFile hmoved,
        hnext.symm⟩

/-! ## Files grow towards the complete form -/

/-- The file of a blob holds a prefix of its complete form. -/
def HoldsPrefix (primitives : Primitives) (root : Path) (disk : Disk) (data : Bytes) : Prop :=
  ∃ bytes, disk.lookup (blobPath primitives root data) = some (.file bytes) ∧
    bytes <+: storedBlob primitives data

/-- The file of a blob is complete. -/
def IsComplete (primitives : Primitives) (root : Path) (disk : Disk) (data : Bytes) : Prop :=
  disk.lookup (blobPath primitives root data) = some (.file (storedBlob primitives data))

/-- A prefix written over a prefix leaves the longer one. -/
theorem append_drop_prefix {written old complete : Bytes} (hwritten : written <+: complete)
    (hold : old <+: complete) : written ++ old.drop written.length <+: complete := by
  rcases List.prefix_or_prefix_of_prefix hwritten hold with hlonger | hshorter
  · obtain ⟨rest, hrest⟩ := hlonger
    rw [← hrest, List.drop_left, hrest]
    exact hold
  · rw [List.drop_eq_nil_of_le hshorter.length_le, List.append_nil]
    exact hwritten

theorem append_drop_complete {written complete : Bytes} (hwritten : written <+: complete) :
    written ++ complete.drop written.length = complete := by
  obtain ⟨rest, hrest⟩ := hwritten
  rw [← hrest, List.drop_left]

section Files

variable {primitives : Primitives} {root : Path} {disk : Disk} {data : Bytes}

theorem fileBytes_of_lookup {path : Path} {bytes : Bytes}
    (hlookup : disk.lookup path = some (.file bytes)) : fileBytes disk path = bytes := by
  rw [fileBytes, hlookup]

theorem HoldsPrefix.overwrite {bytes : Bytes} (hbegins : HoldsPrefix primitives root disk data)
    (hbytes : bytes <+: storedBlob primitives data) :
    HoldsPrefix primitives root (overwrite disk (blobPath primitives root data) bytes) data := by
  obtain ⟨old, hlookup, hold⟩ := hbegins
  rw [ConcurrentPuts.overwrite, fileBytes_of_lookup hlookup]
  exact ⟨_, Finmap.lookup_insert _, append_drop_prefix hbytes hold⟩

/-- Writing everything completes the file. -/
theorem HoldsPrefix.isComplete_overwrite (hbegins : HoldsPrefix primitives root disk data) :
    IsComplete primitives root
      (ConcurrentPuts.overwrite disk (blobPath primitives root data)
        (storedBlob primitives data)) data := by
  obtain ⟨old, hlookup, hold⟩ := hbegins
  rw [IsComplete, ConcurrentPuts.overwrite, Finmap.lookup_insert, fileBytes_of_lookup hlookup,
    List.drop_eq_nil_of_le hold.length_le, List.append_nil]

/-- A complete file stays complete whatever part of the same bytes is written again. -/
theorem IsComplete.overwrite {bytes : Bytes} (hcomplete : IsComplete primitives root disk data)
    (hbytes : bytes <+: storedBlob primitives data) :
    IsComplete primitives root
      (ConcurrentPuts.overwrite disk (blobPath primitives root data) bytes) data := by
  rw [IsComplete, ConcurrentPuts.overwrite, Finmap.lookup_insert, fileBytes_of_lookup hcomplete,
    append_drop_complete hbytes]

end Files

/-! ## Runs that trust complete files only -/

/-- The file of a call that writes holds a prefix of its bytes, and the file of a call that has
returned a hash is complete. -/
structure FileSound (primitives : Primitives) (root : Path) (disk : Disk) (call : PutCall) :
    Prop where
  opened : call.phase = .opened → HoldsPrefix primitives root disk call.data
  returned : ∀ hash, call.phase = .returned (.ok hash) →
    hash = hashBlob primitives call.data ∧ IsComplete primitives root disk call.data

/-- The calls put blobs of the run and their files are sound. -/
structure Sound (primitives : Primitives) (puts : List PutOperation) (world : PutWorld) :
    Prop where
  known : ∀ id call, world.calls id = some call → .blob call.data ∈ puts
  files : ∀ id call, world.calls id = some call →
    FileSound primitives world.store.root world.store.disk call

section Soundness

variable {primitives : Primitives} {puts : List PutOperation} {root : Path} {disk : Disk}
  {call : PutCall} {world : PutWorld}

/-- Only the file of the call counts. -/
theorem FileSound.congr {after : Disk} (hsound : FileSound primitives root disk call)
    (hkept : ∀ bytes, disk.lookup (blobPath primitives root call.data) = some (.file bytes) →
      after.lookup (blobPath primitives root call.data) = some (.file bytes)) :
    FileSound primitives root after call := by
  constructor
  · intro hphase
    obtain ⟨bytes, hlookup, hbegins⟩ := hsound.opened hphase
    exact ⟨bytes, hkept bytes hlookup, hbegins⟩
  · intro hash hphase
    exact ⟨(hsound.returned hash hphase).1, hkept _ (hsound.returned hash hphase).2⟩

theorem FileSound.createDirs (hsound : FileSound primitives root disk call) (paths : List Path) :
    FileSound primitives root (createDirs disk paths) call := by
  apply hsound.congr
  intro bytes hlookup
  rw [lookup_createDirs_of_mem (Finmap.mem_of_lookup_eq_some hlookup)]
  exact hlookup

theorem FileSound.insert_of_ne {other : Bytes} (hsound : FileSound primitives root disk call)
    (hhash : hashBlob primitives call.data ≠ hashBlob primitives other) (node : FileNode) :
    FileSound primitives root (disk.insert (blobPath primitives root other) node) call := by
  apply hsound.congr
  intro bytes hlookup
  have hpath : blobPath primitives root call.data ≠ blobPath primitives root other := fun heq ↦
    hhash (digestPath_injective heq)
  rw [Finmap.lookup_insert_of_ne _ hpath]
  exact hlookup

theorem FileSound.overwrite {bytes : Bytes} (hsound : FileSound primitives root disk call)
    (hbytes : bytes <+: storedBlob primitives call.data) :
    FileSound primitives root
      (overwrite disk (blobPath primitives root call.data) bytes) call := by
  constructor
  · intro hphase
    exact (hsound.opened hphase).overwrite hbytes
  · intro hash hphase
    have hreturned := hsound.returned hash hphase
    exact ⟨hreturned.1, hreturned.2.overwrite hbytes⟩

theorem data_eq_of_hashBlob_eq (hcollision : NoCollisions primitives puts) {first second : Bytes}
    (hfirst : .blob first ∈ puts) (hsecond : .blob second ∈ puts)
    (hhash : hashBlob primitives first = hashBlob primitives second) : first = second :=
  withHeader_blob_injective (hcollision.hashed_eq hfirst hsecond hhash)

/-- Replacing a call keeps the world sound when the files of all other calls stay sound and its own
is. -/
theorem Sound.withCall (hworld : Sound primitives puts world) (id : ℕ) {data : Bytes}
    {phase : PutPhase} (hdata : .blob data ∈ puts)
    (hothers : ∀ other otherCall, world.calls other = some otherCall →
      FileSound primitives world.store.root disk otherCall)
    (hown : FileSound primitives world.store.root disk ⟨data, phase⟩) :
    Sound primitives puts (world.withCall id ⟨data, phase⟩ disk) := by
  constructor
  · intro other call hother
    rcases eq_or_of_update_eq_some hother with ⟨-, hnew⟩ | hkept
    · rw [hnew]
      exact hdata
    · exact hworld.known other call hkept
  · intro other call hother
    rcases eq_or_of_update_eq_some hother with ⟨-, hnew⟩ | hkept
    · rw [hnew]
      exact hown
    · exact hothers other call hkept

/-- A file is created while no call for it has returned. -/
theorem Sound.created (hcollision : NoCollisions primitives puts)
    (hworld : Sound primitives puts world) {id : ℕ} (hcall : world.calls id = some call)
    (hguard : TrustsCompleteFiles primitives world (.advance id (.create none))) :
    Sound primitives puts (world.withCall id ⟨call.data, .opened⟩
      (world.store.disk.insert (blobPath primitives world.store.root call.data) (.file []))) := by
  have hdata := hworld.known id call hcall
  have hempty : HoldsPrefix primitives world.store.root (world.store.disk.insert
      (blobPath primitives world.store.root call.data) (.file [])) call.data :=
    ⟨[], Finmap.lookup_insert _, List.nil_prefix⟩
  apply hworld.withCall id hdata
  · intro other otherCall hother
    by_cases hhash : hashBlob primitives otherCall.data = hashBlob primitives call.data
    · have hsame := data_eq_of_hashBlob_eq hcollision (hworld.known other otherCall hother) hdata
        hhash
      constructor
      · intro _
        rw [hsame]
        exact hempty
      · intro hash hreturned
        rw [((hworld.files other otherCall hother).returned hash hreturned).1, hhash] at hreturned
        exact absurd hreturned (hguard call hcall other otherCall hother)
    · exact (hworld.files other otherCall hother).insert_of_ne hhash _
  · constructor
    · intro _
      exact hempty
    · intro hash hreturned
      cases hreturned

/-- A write extends the file, or repeats what is in it. -/
theorem Sound.written (hcollision : NoCollisions primitives puts)
    (hworld : Sound primitives puts world) {id : ℕ} (hcall : world.calls id = some call)
    {bytes : Bytes} {phase : PutPhase} (hopened : call.phase = .opened)
    (hbytes : bytes <+: storedBlob primitives call.data) (hphase : phase ≠ .opened)
    (hreturned : ∀ hash, phase = .returned (.ok hash) →
      hash = hashBlob primitives call.data ∧ bytes = storedBlob primitives call.data) :
    Sound primitives puts (world.withCall id ⟨call.data, phase⟩
      (overwrite world.store.disk (blobPath primitives world.store.root call.data) bytes)) := by
  have hdata := hworld.known id call hcall
  apply hworld.withCall id hdata
  · intro other otherCall hother
    have hsound := hworld.files other otherCall hother
    by_cases hhash : hashBlob primitives otherCall.data = hashBlob primitives call.data
    · have hsame := data_eq_of_hashBlob_eq hcollision (hworld.known other otherCall hother) hdata
        hhash
      rw [← hsame] at hbytes ⊢
      exact hsound.overwrite hbytes
    · exact hsound.insert_of_ne hhash _
  · constructor
    · intro hagain
      exact absurd hagain hphase
    · intro hash hok
      have hbegins := (hworld.files id call hcall).opened hopened
      rw [(hreturned hash hok).2]
      exact ⟨(hreturned hash hok).1, hbegins.isComplete_overwrite⟩

/-- Every step that trusts complete files only keeps the world sound. -/
theorem Sound.step (hcollision : NoCollisions primitives puts)
    (hworld : Sound primitives puts world) {action : PutAction} {next : PutWorld}
    (hguard : TrustsCompleteFiles primitives world action)
    (hputs : ∀ id data, action = .call id data → .blob data ∈ puts)
    (hstep : step primitives world action = some next) : Sound primitives puts next := by
  rcases step_cases hstep with ⟨id, data, haction, hnext⟩ | ⟨id, putStep, call, phase, disk,
    haction, hcall, hmove, hnext⟩
  · rw [hnext]
    apply hworld.withCall id (hputs id data haction) hworld.files
    constructor
    · intro hphase
      cases hphase
    · intro hash hphase
      cases hphase
  · have hdata := hworld.known id call hcall
    rw [hnext]
    rw [haction] at hguard
    cases hmove with
    | directories hopened hreturned =>
      apply hworld.withCall id hdata
      · intro other otherCall hother
        exact (hworld.files other otherCall hother).createDirs _
      · constructor
        · intro hphase
          exact absurd hphase hopened
        · intro hash hphase
          exact absurd hphase (hreturned hash)
    | found hmem =>
      apply hworld.withCall id hdata hworld.files
      constructor
      · intro hphase
        cases hphase
      · intro hash hphase
        simp only [PutPhase.returned.injEq, Outcome.ok.injEq] at hphase
        exact ⟨hphase.symm, hguard call hcall hmem⟩
    | created => exact hworld.created hcollision hcall hguard
    | written hopened hbytes hphase hreturned =>
      exact hworld.written hcollision hcall hopened hbytes hphase hreturned

/-- In a sound world every call that has returned a hash can be read back. -/
theorem Sound.returnedBlobsReadable
    (hroundTrip : ∀ operation ∈ puts, RoundTrips primitives (operation.object primitives))
    (hworld : Sound primitives puts world) : ReturnedBlobsReadable primitives world := by
  intro id call hash hcall hphase
  have hreturned := (hworld.files id call hcall).returned hash hphase
  rw [hreturned.1]
  have hdigest := isDigest_hashBlob primitives call.data
  exact LocalObjectStore.getBlob_eq_ok_iff.mpr
    ⟨_, (LocalObjectStore.holdsFile_iff_of_isDigest hdigest).mpr hreturned.2,
      hroundTrip _ (hworld.known id call hcall)⟩

end Soundness

theorem mem_putsOf {actions : List PutAction} {id : ℕ} {data : Bytes}
    (hmem : .call id data ∈ actions) : .blob data ∈ putsOf actions :=
  List.mem_filterMap.mpr ⟨.call id data, hmem, rfl⟩

/-- In every run whose checks find complete files only and whose files are not created again after
a success, whatever a call has put and returned can be read in every later state. -/
theorem returnedBlobsReadable_of_trustsCompleteFiles (primitives : Primitives)
    (store : LocalObjectStore) (actions : List PutAction)
    (hcollision : NoCollisions primitives (putsOf actions))
    (hroundTrip : ∀ operation ∈ putsOf actions,
      RoundTrips primitives (operation.object primitives))
    (hguarded : Guarded (step primitives) (TrustsCompleteFiles primitives)
      ⟨store, fun _ ↦ none⟩ actions) :
    Throughout (step primitives) (ReturnedBlobsReadable primitives) ⟨store, fun _ ↦ none⟩
      actions := by
  have hputs : ∀ action ∈ actions, ∀ id data, action = .call id data →
      .blob data ∈ putsOf actions := by
    intro action hmem id data haction
    rw [haction] at hmem
    exact mem_putsOf hmem
  have hstart : Sound primitives (putsOf actions) ⟨store, fun _ ↦ none⟩ := ⟨by simp, by simp⟩
  apply throughout_of_guarded (Sound primitives (putsOf actions)) _ _ hstart
    (hguarded.and_of_forall_mem hputs)
  · intro world hworld
    exact hworld.returnedBlobsReadable hroundTrip
  · intro world action next hworld hguard hstep
    exact hworld.step hcollision hguard.1 hguard.2 hstep

/-! ## A call that is not interrupted is `put_blob` -/

/-- The steps of a call that meets a fault, if its file is missing. -/
def stepsOfPut (present : Bool) (fault : Option WriteFault) : List PutStep :=
  if present then [.check]
  else
    match fault with
    | none => [.check, .mkdir none, .create none, .write none]
    | some (.mkdir made error) => [.check, .mkdir (some (made, error))]
    | some (.create error) => [.check, .mkdir none, .create (some error)]
    | some (.write written error) =>
      [.check, .mkdir none, .create none, .write (some (written, error))]

/-- A call without steps of other calls in between. -/
def uninterrupted (id : ℕ) (data : Bytes) (steps : List PutStep) : List PutAction :=
  .call id data :: steps.map (PutAction.advance id)

theorem overwrite_insert (disk : Disk) (path : Path) (bytes : Bytes) :
    overwrite (disk.insert path (.file [])) path bytes = disk.insert path (.file bytes) := by
  have hempty : fileBytes (disk.insert path (.file [])) path = [] := by
    simp only [fileBytes, Finmap.lookup_insert]
  rw [overwrite, hempty, List.drop_nil, List.append_nil, Finmap.insert_insert]

theorem step_advance_withCall (primitives : Primitives) (world : PutWorld) (id : ℕ) (data : Bytes)
    (phase : PutPhase) (disk : Disk) (putStep : PutStep) :
    step primitives (world.withCall id ⟨data, phase⟩ disk) (.advance id putStep) =
      (stepFile primitives disk (blobPath primitives world.store.root data) ⟨data, phase⟩
        putStep).map fun moved ↦ world.withCall id ⟨data, moved.1⟩ moved.2 := by
  have hmoved : ∀ moved : PutPhase × Disk,
      (world.withCall id ⟨data, phase⟩ disk).withCall id ⟨data, moved.1⟩ moved.2 =
        world.withCall id ⟨data, moved.1⟩ moved.2 := by
    intro moved
    simp only [PutWorld.withCall, Function.update_idem]
  simp only [step, PutWorld.calls_withCall, Function.update_self, objectPath_blob, hmoved]
  rfl

theorem run_advance_withCall (primitives : Primitives) (world : PutWorld) (id : ℕ) (data : Bytes)
    (phase : PutPhase) (disk : Disk) (putStep : PutStep) (rest : List PutAction) :
    run (step primitives) (world.withCall id ⟨data, phase⟩ disk) (.advance id putStep :: rest) =
      (stepFile primitives disk (blobPath primitives world.store.root data) ⟨data, phase⟩
        putStep).bind fun moved ↦
          run (step primitives) (world.withCall id ⟨data, moved.1⟩ moved.2) rest := by
  rw [run_cons, step_advance_withCall, Option.bind_map]
  rfl

/-- A call that takes its steps in one go does what `put_blob` does. -/
theorem run_uninterrupted (primitives : Primitives) (world : PutWorld) {id : ℕ}
    (hfresh : world.calls id = none) (data : Bytes) (fault : Option WriteFault) :
    run (step primitives) world (uninterrupted id data
        (stepsOfPut (world.store.existsAt (blobFile primitives world.store.root data)) fault)) =
      some (world.withCall id
        ⟨data, .returned (world.store.putBlob primitives fault data).1⟩
        (world.store.putBlob primitives fault data).2.disk) := by
  have hpath := objectPath_blob primitives world.store data
  have hstart : step primitives world (.call id data) =
      some (world.withCall id ⟨data, .started⟩ world.store.disk) := by
    simp only [step, hfresh]
  rw [uninterrupted, run_cons, hstart, Option.bind_some]
  have hlookup := existsAt_blobFile primitives world.store data
  by_cases hexists : world.store.existsAt (blobFile primitives world.store.root data)
  · have hmem : blobPath primitives world.store.root data ∈ world.store.disk :=
      Finmap.lookup_isSome.mp (hlookup.symm.trans hexists)
    simp [run_advance_withCall, stepsOfPut, stepFile, hmem, LocalObjectStore.putBlob,
      LocalObjectStore.writeObject, hpath, hexists]
  · have hmem : blobPath primitives world.store.root data ∉ world.store.disk := fun hmem ↦
      hexists (hlookup.trans (Finmap.lookup_isSome.mpr hmem))
    cases fault with
    | none =>
      simp [run_advance_withCall, stepsOfPut, stepFile, hmem, overwrite_insert, storedForm,
        LocalObjectStore.putBlob, LocalObjectStore.writeObject, LocalObjectStore.createObject,
        whole_blobFile, hpath, hexists]
    | some fault =>
      cases fault <;>
        simp [run_advance_withCall, stepsOfPut, stepFile, hmem, overwrite_insert, storedForm,
          LocalObjectStore.putBlob, LocalObjectStore.writeObject, LocalObjectStore.createObject,
          whole_blobFile, hpath, hexists]

/-! ## A retry after a failed write -/

/-- A put whose write fails, and a second put of the same data. -/
def retry (data : Bytes) (written : ℕ) (error : String) : List PutAction :=
  uninterrupted 0 data (stepsOfPut false (some (.write written error))) ++
    uninterrupted 1 data (stepsOfPut true none)

/-- The file that a failed write leaves. -/
theorem lookup_of_failed_write (primitives : Primitives) {store : LocalObjectStore} {data : Bytes}
    (hmissing : store.existsAt (blobFile primitives store.root data) = false) (written : ℕ)
    (error : String) :
    (store.putBlob primitives (some (.write written error)) data).2.disk.lookup
      (blobPath primitives store.root data) =
        some (.file ((storedBlob primitives data).take written)) := by
  have hpath := objectPath_blob primitives store data
  simp only [LocalObjectStore.putBlob, LocalObjectStore.writeObject,
    LocalObjectStore.createObject, hpath, hmissing, Bool.false_eq_true, if_false]
  exact Finmap.lookup_insert _

theorem putBlob_of_existsAt (primitives : Primitives) {store : LocalObjectStore} {data : Bytes}
    (hexists : store.existsAt (blobFile primitives store.root data) = true) :
    store.putBlob primitives none data = (.ok (hashBlob primitives data), store) := by
  have hpath := objectPath_blob primitives store data
  simp only [LocalObjectStore.putBlob, LocalObjectStore.writeObject, hpath, if_pos hexists]

/-- The second put finds what the first one left and returns the hash. -/
theorem run_retry (primitives : Primitives) {store : LocalObjectStore} {data : Bytes}
    (hmissing : store.existsAt (blobFile primitives store.root data) = false) (written : ℕ)
    (error : String) :
    ∃ final, run (step primitives) ⟨store, fun _ ↦ none⟩ (retry data written error) = some final ∧
      final.store.root = store.root ∧
      final.store.disk.lookup (blobPath primitives store.root data) =
        some (.file ((storedBlob primitives data).take written)) ∧
      final.calls 1 = some ⟨data, .returned (.ok (hashBlob primitives data))⟩ := by
  let failed := store.putBlob primitives (some (.write written error)) data
  let middle := PutWorld.withCall ⟨store, fun _ ↦ none⟩ 0 ⟨data, .returned failed.1⟩ failed.2.disk
  have hlookup : middle.store.disk.lookup (blobPath primitives store.root data) =
      some (.file ((storedBlob primitives data).take written)) :=
    lookup_of_failed_write primitives hmissing written error
  have hexists : middle.store.existsAt (blobFile primitives middle.store.root data) = true :=
    (existsAt_blobFile primitives middle.store data).trans (congrArg Option.isSome hlookup)
  have hfirst : run (step primitives) ⟨store, fun _ ↦ none⟩
      (uninterrupted 0 data (stepsOfPut false (some (.write written error)))) = some middle := by
    rw [← hmissing]
    exact run_uninterrupted primitives ⟨store, fun _ ↦ none⟩ rfl data _
  have hfresh : middle.calls 1 = none := rfl
  have hsecond := run_uninterrupted primitives middle hfresh data none
  rw [hexists, putBlob_of_existsAt primitives hexists] at hsecond
  have hrun : run (step primitives) ⟨store, fun _ ↦ none⟩ (retry data written error) =
      some (middle.withCall 1 ⟨data, .returned (.ok (hashBlob primitives data))⟩
        middle.store.disk) := by
    rw [retry, run_append, hfirst, Option.bind_some, hsecond]
  exact ⟨_, hrun, rfl, hlookup, by rw [PutWorld.calls_withCall, Function.update_self]⟩

/-- An empty file is not read as an object. -/
theorem not_decodes_emptyFile (object : Object) : ¬ Decodes tabulated [] object := by
  intro hdecodes
  obtain ⟨serialized, hdecompress, hdeserialize⟩ := hdecodes
  have hnothing : tabulated.decompress [] = .ok [] := by simp [tabulated, emptyBlobZlib]
  have hrefused : emptyBlobJson ≠ [] := by decide
  rw [hnothing, Except.ok.injEq] at hdecompress
  rw [← hdecompress] at hdeserialize
  simp [tabulated, hrefused.symm] at hdeserialize

/-! ## Two puts of one blob and a third after them -/

section Racing

variable (primitives : Primitives) (store : LocalObjectStore) (data : Bytes)

/-- Both calls find no file and open it. One write fails, the other completes the file, and a third
call finds it. -/
def racingPuts (data : Bytes) (written : ℕ) (error : String) : List PutAction :=
  [.call 1 data, .call 0 data, .advance 0 .check, .advance 1 .check, .advance 0 (.mkdir none),
    .advance 1 (.mkdir none), .advance 0 (.create none), .advance 1 (.create none),
    .advance 0 (.write (some (written, error))), .advance 1 (.write none), .call 2 data,
    .advance 2 .check]

/-- The world of the two calls. The second one takes the next step. -/
def racing (waiting moving : ℕ) (first second : PutPhase) (disk : Disk) : PutWorld :=
  (PutWorld.withCall ⟨store, fun _ ↦ none⟩ waiting ⟨data, first⟩ disk).withCall moving
    ⟨data, second⟩ disk

variable {store data} {waiting moving : ℕ} {first second : PutPhase} {disk : Disk}

theorem step_racing (hne : waiting ≠ moving) (putStep : PutStep) :
    step primitives (racing store data waiting moving first second disk)
      (.advance moving putStep) =
        (stepFile primitives disk (blobPath primitives store.root data) ⟨data, second⟩
          putStep).map fun moved ↦ racing store data moving waiting moved.1 first moved.2 := by
  rw [racing, step_advance_withCall]
  congr 1
  funext moved
  simp only [racing, PutWorld.withCall, Function.update_comm hne]

/-- Nothing is trusted while the file is missing, and nothing is lost while no call has
succeeded. -/
theorem trusts_racing {id : ℕ} {putStep : PutStep}
    (hmissing : putStep = .check → blobPath primitives store.root data ∉ disk)
    (hfirst : ∀ hash, first ≠ .returned (.ok hash))
    (hsecond : ∀ hash, second ≠ .returned (.ok hash)) :
    TrustsCompleteFiles primitives (racing store data waiting moving first second disk)
      (.advance id putStep) := by
  have hcalls : ∀ {other call},
      (racing store data waiting moving first second disk).calls other = some call →
        call = ⟨data, first⟩ ∨ call = ⟨data, second⟩ := by
    intro other call hcall
    rcases eq_or_of_update_eq_some hcall with ⟨-, hnew⟩ | hkept
    · exact Or.inr hnew
    · rcases eq_or_of_update_eq_some hkept with ⟨-, hnew⟩ | hnone
      · exact Or.inl hnew
      · cases hnone
  unfold TrustsCompleteFiles
  split
  · rename_i haction
    cases haction
    intro call hcall hmem
    have hdata : call.data = data := by rcases hcalls hcall with rfl | rfl <;> rfl
    rw [hdata] at hmem
    exact absurd hmem (hmissing rfl)
  · intro call _ other otherCall hother
    rcases hcalls hother with rfl | rfl
    · exact hfirst _
    · exact hsecond _
  · exact trivial

/-- The actions can all be taken, and trust complete files only. -/
def RunsTo (world : PutWorld) (actions : List PutAction) (final : PutWorld) : Prop :=
  run (step primitives) world actions = some final ∧
    Guarded (step primitives) (TrustsCompleteFiles primitives) world actions

theorem RunsTo.cons {world next final : PutWorld} {action : PutAction} {rest : List PutAction}
    (hstep : step primitives world action = some next)
    (htrusts : TrustsCompleteFiles primitives world action)
    (hrest : RunsTo primitives next rest final) :
    RunsTo primitives world (action :: rest) final := by
  refine ⟨?_, (guarded_cons_iff hstep).mpr ⟨htrusts, hrest.2⟩⟩
  rw [run_cons, hstep, Option.bind_some, hrest.1]

theorem RunsTo.racing {putStep : PutStep} {moved : PutPhase × Disk} {rest : List PutAction}
    {final : PutWorld} (hne : waiting ≠ moving)
    (hmoved : stepFile primitives disk (blobPath primitives store.root data) ⟨data, second⟩
      putStep = some moved)
    (hmissing : putStep = .check → blobPath primitives store.root data ∉ disk)
    (hfirst : ∀ hash, first ≠ .returned (.ok hash))
    (hsecond : ∀ hash, second ≠ .returned (.ok hash))
    (hrest : RunsTo primitives (racing store data moving waiting moved.1 first moved.2) rest
      final) :
    RunsTo primitives (racing store data waiting moving first second disk)
      (.advance moving putStep :: rest) final := by
  refine .cons primitives ?_ (trusts_racing primitives hmissing hfirst hsecond) hrest
  rw [step_racing primitives hne, hmoved, Option.map_some]

/-- A call that comes when the file is complete finds it. -/
theorem runsTo_third_call {world : PutWorld} (hfresh : world.calls 2 = none)
    (hcomplete : IsComplete primitives world.store.root world.store.disk data) :
    RunsTo primitives world [.call 2 data, .advance 2 .check]
      (world.withCall 2 ⟨data, .returned (.ok (hashBlob primitives data))⟩ world.store.disk) := by
  have hmem : blobPath primitives world.store.root data ∈ world.store.disk :=
    Finmap.lookup_isSome.mp (Option.isSome_of_eq_some hcomplete)
  have hcall : step primitives world (.call 2 data) =
      some (world.withCall 2 ⟨data, .started⟩ world.store.disk) := by
    simp only [step, hfresh]
  have hcheck := step_advance_withCall primitives world 2 data .started world.store.disk .check
  have hfound : stepFile primitives world.store.disk (blobPath primitives world.store.root data)
      ⟨data, .started⟩ .check =
        some (.returned (.ok (hashBlob primitives data)), world.store.disk) := if_pos hmem
  rw [hfound] at hcheck
  refine .cons primitives hcall trivial (.cons primitives hcheck ?_ ⟨rfl, trivial⟩)
  intro call hheld _
  rw [PutWorld.calls_withCall, Function.update_self, Option.some.injEq] at hheld
  rw [← hheld]
  exact hcomplete

/-- The two calls race for the file, and nothing but the complete file is trusted. -/
theorem exists_runsTo_racingPuts (hmissing : blobPath primitives store.root data ∉ store.disk)
    (written : ℕ) (error : String) :
    ∃ final, RunsTo primitives ⟨store, fun _ ↦ none⟩ (racingPuts data written error) final ∧
      ∀ id ∈ [1, 2], final.calls id = some ⟨data, .returned (.ok (hashBlob primitives data))⟩ := by
  have hcheck : stepFile primitives store.disk (blobPath primitives store.root data)
      ⟨data, .started⟩ .check = some (.missing, store.disk) := if_neg hmissing
  have hfirst : step primitives ⟨store, fun _ ↦ none⟩ (.call 1 data) =
      some (PutWorld.withCall ⟨store, fun _ ↦ none⟩ 1 ⟨data, .started⟩ store.disk) := rfl
  have hsecond : step primitives
      (PutWorld.withCall ⟨store, fun _ ↦ none⟩ 1 ⟨data, .started⟩ store.disk) (.call 0 data) =
        some (racing store data 1 0 .started .started store.disk) := rfl
  let path := blobPath primitives store.root data
  let made := createDirAll (createDirAll store.disk path.dropLast) path.dropLast
  let opened := (made.insert path (.file [])).insert path (.file [])
  let torn := overwrite opened path ((storedBlob primitives data).take written)
  let complete := overwrite torn path (storedBlob primitives data)
  let failed : PutPhase :=
    .returned (.err (.storageIo ("write " ++ displayPath path ++ ": " ++ error)))
  let done : PutPhase := .returned (.ok (hashBlob primitives data))
  refine ⟨(racing store data 1 0 done failed complete).withCall 2 ⟨data, done⟩ complete,
    .cons primitives hfirst trivial (.cons primitives hsecond trivial ?_), ?_⟩
  · refine .racing primitives one_ne_zero hcheck (fun _ ↦ hmissing) (by simp) (by simp) ?_
    refine .racing primitives zero_ne_one hcheck (fun _ ↦ hmissing) (by simp) (by simp) ?_
    refine .racing primitives one_ne_zero rfl (by simp) (by simp) (by simp) ?_
    refine .racing primitives zero_ne_one rfl (by simp) (by simp) (by simp) ?_
    refine .racing primitives one_ne_zero rfl (by simp) (by simp) (by simp) ?_
    refine .racing primitives zero_ne_one rfl (by simp) (by simp) (by simp) ?_
    refine .racing primitives one_ne_zero rfl (by simp) (by simp) (by simp) ?_
    refine .racing primitives zero_ne_one rfl (by simp) (by simp) (by simp) ?_
    apply runsTo_third_call primitives rfl
    apply HoldsPrefix.isComplete_overwrite
    apply HoldsPrefix.overwrite _ (List.take_prefix _ _)
    exact ⟨[], Finmap.lookup_insert _, List.nil_prefix⟩
  · simp only [List.forall_mem_cons, List.not_mem_nil, false_implies, implies_true, and_true]
    exact ⟨rfl, rfl⟩

end Racing

theorem returnedBlobsReadable_racingPuts :
    let actions := racingPuts [] 3 "No space left on device (os error 28)"
    ∃ final, run (step tabulated) ⟨⟨[], ∅⟩, fun _ ↦ none⟩ actions = some final ∧
      (∀ id ∈ [1, 2], final.calls id = some ⟨[], .returned (.ok (hashBlob tabulated []))⟩) ∧
      Throughout (step tabulated) (ReturnedBlobsReadable tabulated) ⟨⟨[], ∅⟩, fun _ ↦ none⟩
        actions := by
  intro actions
  have hputs : ∀ operation ∈ putsOf actions, operation = .blob [] := by decide
  let store : LocalObjectStore := ⟨[], ∅⟩
  have hmissing : blobPath tabulated store.root [] ∉ store.disk := Finmap.notMem_empty
  obtain ⟨final, ⟨hrun, hguarded⟩, hreturned⟩ := exists_runsTo_racingPuts tabulated hmissing 3
    "No space left on device (os error 28)"
  exact ⟨final, hrun, hreturned, returnedBlobsReadable_of_trustsCompleteFiles tabulated ⟨[], ∅⟩ _
    (noCollisions_of_emptyBlobs hputs tabulated) (roundTrips_of_emptyBlobs hputs) hguarded⟩

/-- A put is retried after its write failed on a full disk. It returns the hash of a blob that
cannot be read. -/
theorem retry_returns_unreadable_blob :
    ¬ ∀ (primitives : Primitives) (store : LocalObjectStore) (actions : List PutAction),
      NoCollisions primitives (putsOf actions) →
      (∀ operation ∈ putsOf actions, RoundTrips primitives (operation.object primitives)) →
      Throughout (step primitives) (ReturnedBlobsReadable primitives) ⟨store, fun _ ↦ none⟩
        actions := by
  intro hgeneral
  let error := "No space left on device (os error 28)"
  have hputs : ∀ operation ∈ putsOf (retry [] 0 error), operation = .blob [] := by decide
  have hmissing : LocalObjectStore.existsAt ⟨[], ∅⟩ (blobFile tabulated [] []) = false := by
    rw [existsAt_blobFile]
    rfl
  obtain ⟨final, hrun, hroot, hlookup, hcall⟩ := run_retry tabulated hmissing 0 error
  have hreadable := (hgeneral tabulated ⟨[], ∅⟩ (retry [] 0 error)
    (noCollisions_of_emptyBlobs hputs tabulated) (roundTrips_of_emptyBlobs hputs)).final hrun
  obtain ⟨bytes, hfile, hdecodes⟩ :=
    LocalObjectStore.getBlob_eq_ok_iff.mp (hreadable 1 _ _ hcall rfl)
  have hbytes := (LocalObjectStore.holdsFile_iff_of_isDigest
    (isDigest_hashBlob tabulated [])).mp hfile
  rw [hroot, ← blobPath, hlookup, Option.some.injEq, FileNode.file.injEq, List.take_zero] at hbytes
  rw [← hbytes] at hdecodes
  exact not_decodes_emptyFile _ hdecodes

end EdgeOrchestrator.Storage.ConcurrentPuts

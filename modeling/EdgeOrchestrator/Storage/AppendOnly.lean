import EdgeOrchestrator.Storage.PutHistory

/-!
# Objects that stay readable

A put leaves the file of its object alone when it is there. It asks `Path::exists`, which says no as
well when the file system fails to tell. Then the put goes on and empties the file, and an object
that could be read is read again only when what is written afterwards decodes to it. All other puts,
whichever of their calls fail, keep what can be read.
-/

namespace EdgeOrchestrator.Storage

/-- The calls that fail in a put: its existence check, and one of the calls behind it. -/
structure PutFaults where
  checkFails : Bool
  write : Option WriteFault
  deriving DecidableEq, Repr

namespace LocalObjectStore

section Puts

variable (primitives : Primitives)

/-- `write_object` behind an existence check that has failed. `File::create` does not open a
directory. -/
def createUnchecked (fault : Option WriteFault) (store : LocalObjectStore) (object : Object)
    (path : Path) : Outcome CoreError Unit × LocalObjectStore :=
  match fault, store.disk.lookup path with
  | none, some .directory | some (.write _ _), some .directory =>
    (.err (.storageIo ("create " ++ displayPath path ++ ": Is a directory (os error 21)")),
      { store with disk := createDirAll store.disk path.dropLast })
  | _, _ => store.createObject primitives fault object path

/-- A put of which the existence check fails. -/
def putUnchecked (fault : Option WriteFault) (store : LocalObjectStore)
    (operation : PutOperation) : Outcome CoreError Hash × LocalObjectStore :=
  let hash := operation.hash primitives
  match store.objectPath hash with
  | none => (.lost (.panic splitPanic), store)
  | some path =>
    match store.createUnchecked primitives fault (operation.object primitives) path.whole with
    | (.ok _, written) => (.ok hash, written)
    | (.err error, written) => (.err error, written)
    | (.lost loss, written) => (.lost loss, written)

/-- A put with its faults. -/
def putUnder (faults : PutFaults) (store : LocalObjectStore) (operation : PutOperation) :
    Outcome CoreError Hash × LocalObjectStore :=
  if faults.checkFails then store.putUnchecked primitives faults.write operation
  else store.put primitives faults.write operation

/-- The store after a list of puts, each with its faults. -/
def afterPuts (store : LocalObjectStore) (puts : List (PutOperation × PutFaults)) :
    LocalObjectStore :=
  puts.foldl (fun store put ↦ (store.putUnder primitives put.2 put.1).2) store

/-- An object that is readable under a digest at some time of the run is readable under it, and the
same, at every later time. -/
def AppendOnly (store : LocalObjectStore) (puts : List (PutOperation × PutFaults)) : Prop :=
  ∀ earlier middle later, puts = earlier ++ middle ++ later → ∀ hash object, IsDigest hash →
    (store.afterPuts primitives earlier).readObject primitives hash = .ok object →
    (store.afterPuts primitives (earlier ++ middle)).readObject primitives hash = .ok object

/-- What a put leaves in its file once it has created it; `none` when it does not get that far. -/
def bytesLeft (fault : Option WriteFault) (operation : PutOperation) : Option Bytes :=
  match fault with
  | none => some (storedForm primitives (operation.object primitives))
  | some (.write written _) =>
    some ((storedForm primitives (operation.object primitives)).take written)
  | some (.mkdir _ _) | some (.create _) => none

/-- The existence check works, or there is nothing to lose, or what the put leaves in its file
decodes to what could be read there. -/
def KeepsObject (store : LocalObjectStore) (put : PutOperation × PutFaults) : Prop :=
  put.2.checkFails = true → ∀ object bytes,
    store.readObject primitives (put.1.hash primitives) = .ok object →
    bytesLeft primitives put.2.write put.1 = some bytes → Decodes primitives bytes object

end Puts

variable {primitives : Primitives} {store : LocalObjectStore}

theorem putUnchecked_snd (fault : Option WriteFault) (operation : PutOperation) :
    (store.putUnchecked primitives fault operation).2 =
      (store.createUnchecked primitives fault (operation.object primitives)
        (digestPath store.root (operation.hash primitives))).2 := by
  rw [putUnchecked, store.objectPath_of_isDigest (operation.isDigest_hash primitives)]
  dsimp only
  rw [whole_digestFile]
  split
  all_goals
    rename_i hcreate
    rw [hcreate]

theorem createUnchecked_of_file {fault : Option WriteFault} {object : Object} {path : Path}
    {bytes : Bytes} (hfile : store.disk.lookup path = some (.file bytes)) :
    store.createUnchecked primitives fault object path =
      store.createObject primitives fault object path := by
  unfold createUnchecked
  rw [hfile]
  rcases fault with - | ⟨made, error⟩ | ⟨error⟩ | ⟨written, error⟩ <;> rfl

theorem createUnchecked_root (fault : Option WriteFault) (object : Object) (path : Path) :
    (store.createUnchecked primitives fault object path).2.root = store.root := by
  unfold createUnchecked
  split
  · rfl
  · rfl
  · exact store.createObject_root primitives _ object path

theorem putUnder_root (faults : PutFaults) (operation : PutOperation) :
    (store.putUnder primitives faults operation).2.root = store.root := by
  rw [putUnder]
  split_ifs
  · rw [putUnchecked_snd, createUnchecked_root]
  · exact store.put_root primitives faults.write operation

/-- A put leaves every other file alone. -/
theorem putUnder_lookup_of_ne (faults : PutFaults) (operation : PutOperation) {path : Path}
    (hpath : path ∈ store.disk) (hne : path ≠ digestPath store.root (operation.hash primitives)) :
    (store.putUnder primitives faults operation).2.disk.lookup path = store.disk.lookup path := by
  rw [putUnder]
  split_ifs
  · rw [putUnchecked_snd]
    unfold createUnchecked
    split
    · exact lookup_createDirs_of_mem hpath _
    · exact lookup_createDirs_of_mem hpath _
    · exact createObject_lookup_of_ne faults.write _ hpath hne
  · exact put_lookup_of_mem faults.write operation hpath

/-- A put behind a failed check writes over the file that is there, unless it fails before. -/
theorem putUnchecked_lookup (fault : Option WriteFault) (operation : PutOperation) {bytes : Bytes}
    (hfile : store.disk.lookup (digestPath store.root (operation.hash primitives)) =
      some (.file bytes)) :
    (store.putUnchecked primitives fault operation).2.disk.lookup
        (digestPath store.root (operation.hash primitives)) =
      some (.file ((bytesLeft primitives fault operation).getD bytes)) := by
  have hmem := Finmap.mem_of_lookup_eq_some hfile
  rw [putUnchecked_snd, createUnchecked_of_file hfile]
  rcases fault with - | ⟨made, error⟩ | ⟨error⟩ | ⟨written, error⟩
  · exact Finmap.lookup_insert _
  · exact (lookup_createDirs_of_mem hmem _).trans hfile
  · exact (lookup_createDirs_of_mem hmem _).trans hfile
  · exact Finmap.lookup_insert _

/-- One put keeps what can be read exactly when it keeps the object of its own file. -/
theorem keepsObject_iff (put : PutOperation × PutFaults) :
    (∀ hash object, IsDigest hash → store.readObject primitives hash = .ok object →
      (store.putUnder primitives put.2 put.1).2.readObject primitives hash = .ok object) ↔
      store.KeepsObject primitives put := by
  obtain ⟨operation, faults⟩ := put
  have hdigest := operation.isDigest_hash primitives
  constructor
  · intro hkeeps hfails object left hread hleft
    obtain ⟨bytes, hfile, -, -⟩ := readObject_eq_ok_iff.mp hread
    obtain ⟨after, hafter, hdecodes, -⟩ :=
      readObject_eq_ok_iff.mp (hkeeps _ object hdigest hread)
    rw [holdsFile_iff_of_isDigest hdigest] at hfile hafter
    rw [putUnder_root, putUnder, if_pos hfails, putUnchecked_lookup _ _ hfile, hleft,
      Option.getD_some] at hafter
    cases hafter
    exact hdecodes
  · intro hkeeps hash object hhash hread
    obtain ⟨bytes, hfile, hdecodes, hobject⟩ := readObject_eq_ok_iff.mp hread
    rw [holdsFile_iff_of_isDigest hhash] at hfile
    have hmem := Finmap.mem_of_lookup_eq_some hfile
    suffices hafter : ∃ after, (store.putUnder primitives faults operation).2.disk.lookup
        (digestPath store.root hash) = some (.file after) ∧ Decodes primitives after object by
      obtain ⟨after, hafter, hdecodes⟩ := hafter
      have hroot : (store.putUnder primitives faults operation).2.root = store.root :=
        store.putUnder_root faults operation
      rw [← hroot] at hafter
      exact readObject_eq_ok_iff.mpr
        ⟨after, (holdsFile_iff_of_isDigest hhash).mpr hafter, hdecodes, hobject⟩
    by_cases hsame : operation.hash primitives = hash
    · cases hfails : faults.checkFails with
      | false =>
        refine ⟨bytes, ?_, hdecodes⟩
        rw [putUnder, hfails, ← hfile]
        exact put_lookup_of_mem faults.write operation hmem
      | true =>
        rw [← hsame] at hfile hread ⊢
        rw [putUnder, hfails, if_pos rfl, putUnchecked_lookup _ _ hfile]
        refine ⟨_, rfl, ?_⟩
        cases hleft : bytesLeft primitives faults.write operation with
        | none => exact hdecodes
        | some left => exact hkeeps hfails object left hread hleft
    · refine ⟨bytes, ?_, hdecodes⟩
      rw [← hfile]
      apply putUnder_lookup_of_ne faults operation hmem
      exact fun hpath ↦ hsame (digestPath_injective hpath).symm

theorem afterPuts_append (earlier later : List (PutOperation × PutFaults)) :
    store.afterPuts primitives (earlier ++ later) =
      (store.afterPuts primitives earlier).afterPuts primitives later :=
  List.foldl_append

/-- Puts that all keep their own object keep everything that can be read. -/
theorem readObject_afterPuts {puts : List (PutOperation × PutFaults)}
    (hkeeps : ∀ earlier put later, puts = earlier ++ put :: later →
      (store.afterPuts primitives earlier).KeepsObject primitives put)
    {hash : Hash} (hhash : IsDigest hash) {object : Object}
    (hread : store.readObject primitives hash = .ok object) :
    (store.afterPuts primitives puts).readObject primitives hash = .ok object := by
  induction puts generalizing store with
  | nil => exact hread
  | cons first rest ih =>
    have hfirst := keepsObject_iff first |>.mpr (hkeeps [] first rest rfl) hash object hhash hread
    apply ih _ hfirst
    intro earlier put later hrest
    exact hkeeps (first :: earlier) put later (congrArg (first :: ·) hrest)

/-- A run of puts loses nothing that can be read exactly when each put keeps its own object. -/
theorem appendOnly_iff (primitives : Primitives) (store : LocalObjectStore)
    (puts : List (PutOperation × PutFaults)) :
    store.AppendOnly primitives puts ↔ ∀ earlier put later, puts = earlier ++ put :: later →
      (store.afterPuts primitives earlier).KeepsObject primitives put := by
  constructor
  · intro happend earlier put later hputs
    rw [← keepsObject_iff]
    intro hash object hhash hread
    have hlater := happend earlier [put] later (by rw [hputs, List.append_assoc]; rfl) hash object
      hhash hread
    rw [afterPuts_append] at hlater
    exact hlater
  · intro hkeeps earlier middle later hputs hash object hhash hread
    rw [afterPuts_append]
    apply readObject_afterPuts _ hhash hread
    intro before put after hmiddle
    rw [← afterPuts_append]
    apply hkeeps (earlier ++ before) put (after ++ later)
    rw [hputs, hmiddle]
    simp only [List.append_assoc, List.cons_append]

/-- A put whose existence check fails, and whose write fails after three bytes, loses the object
that the file held. -/
theorem failedCheck_loses_emptyBlob :
    ¬ ∀ (primitives : Primitives) (store : LocalObjectStore)
      (puts : List (PutOperation × PutFaults)), store.AppendOnly primitives puts := by
  intro hgeneral
  let blob := PutOperation.blob []
  let disk := (∅ : Disk).insert (digestPath [] (blob.hash tabulated))
    (.file (storedForm tabulated (blob.object tabulated)))
  have hread : (LocalObjectStore.mk [] disk).readObject tabulated (blob.hash tabulated) =
      .ok (blob.object tabulated) :=
    readObject_of_decodes (Finmap.lookup_insert _) roundTrips_emptyBlob
  have hkeeps := (appendOnly_iff tabulated ⟨[], disk⟩ _).mp
    (hgeneral tabulated ⟨[], disk⟩ [(blob, ⟨true, some (.write 3 "No space left on device")⟩)])
    [] _ [] rfl rfl _ _ hread rfl
  obtain ⟨serialized, hdecompress, -⟩ := hkeeps
  have hzlib : storedForm tabulated (blob.object tabulated) = emptyBlobZlib := by
    rw [object_emptyBlob]
    simp only [storedForm, tabulated, if_true]
  rw [hzlib] at hdecompress
  have hcut : emptyBlobZlib.take 3 ≠ emptyBlobZlib := by decide
  simp only [tabulated, hcut, if_false] at hdecompress
  cases hdecompress

end LocalObjectStore

end EdgeOrchestrator.Storage

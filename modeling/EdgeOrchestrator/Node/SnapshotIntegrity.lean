import EdgeOrchestrator.Node.CasFetch
import EdgeOrchestrator.Storage.PutHistory

/-!
# The integrity of fetched snapshots

Peers answer blob requests with bytes of their choice. A response is stored under the hash of its
bytes, not under the hash it was sent for, and the executor unpacks what the store returns under
the hash of the task. So whatever peers answer, the files that the events write are only ever
returned under the hash of their content. But a key may lead to a file that the store has not
written, and of such a file the read compares the hash field alone. A blob is returned under its own
hash throughout exactly when the files of the host that keys lead to are genuine.
-/

namespace EdgeOrchestrator.Node

open Storage

/-- A write to the store: a response of a peer or a local put. -/
inductive CasEvent
  | received (hash : Hash) (found : Bool) (data : Bytes)
  | put (operation : PutOperation)
  deriving DecidableEq, Repr

/-- The object an event may write. -/
def CasEvent.operation : CasEvent → PutOperation
  | .received _ _ data => .blob data
  | .put operation => operation

namespace BlobFetcher

/-- The fetcher after an event that meets no fault. -/
def handleCasEvent (primitives : Primitives) (fetcher : BlobFetcher) : CasEvent → BlobFetcher
  | .received hash found data => (fetcher.onBlobReceived primitives none hash found data).2.1
  | .put operation => { fetcher with store := (fetcher.store.put primitives none operation).2 }

/-- The fetcher after a list of events, first one first. -/
def handleCasEvents (primitives : Primitives) (fetcher : BlobFetcher) (events : List CasEvent) :
    BlobFetcher :=
  events.foldl (handleCasEvent primitives) fetcher

/-- An event leaves the store alone or puts its object. -/
theorem store_handleCasEvent (primitives : Primitives) (fetcher : BlobFetcher) (event : CasEvent) :
    (fetcher.handleCasEvent primitives event).store = fetcher.store ∨
      (fetcher.handleCasEvent primitives event).store =
        (fetcher.store.put primitives none event.operation).2 := by
  cases event with
  | put operation => exact Or.inr rfl
  | received hash found data =>
    simp only [handleCasEvent, onBlobReceived]
    split_ifs with hcarries
    · exact Or.inl rfl
    · right
      have hput : fetcher.store.put primitives none (.blob data) =
          fetcher.store.putBlob primitives none data := rfl
      rw [CasEvent.operation, hput]
      split
      · rename_i hok
        rw [hok]
        rfl
      · rename_i hother
        rw [hother]

end BlobFetcher

/-- Bytes of a snapshot: the inline payload, or what the local store returns for its hash. -/
def snapshotBytes (primitives : Primitives) (store : LocalObjectStore)
    (snapshot : ProjectSnapshot) : Outcome CoreError Bytes :=
  if snapshot.tarBytes ≠ [] then .ok snapshot.tarBytes
  else
    match store.getBlob primitives snapshot.hash with
    | .ok bytes => .ok bytes
    | .err error => .err (.internal ("snapshot " ++ snapshot.hash ++
        " is neither inline nor in the local CAS: " ++ error.display))
    | .lost loss => .lost loss

/-- `extract_snapshot`: the bytes it hands to `unpack_tar`, if it comes to that, and what it
returns. -/
def extractSnapshot (primitives : Primitives) (unpackTar : Bytes → Path → Outcome CoreError Unit)
    (store : LocalObjectStore) (snapshot : ProjectSnapshot) (dest : Path) :
    Option Bytes × Outcome CoreError Unit :=
  match snapshotBytes primitives store snapshot with
  | .ok bytes => (some bytes, unpackTar bytes dest)
  | .err error => (none, .err error)
  | .lost loss => (none, .lost loss)

/-- The store returns blobs only under the hash of their data, and a task without inline bytes is
unpacked only from bytes that have the hash of its snapshot. -/
structure Unpoisoned (primitives : Primitives) (store : LocalObjectStore) : Prop where
  read : ∀ key data, store.getBlob primitives key = .ok data → hashBlob primitives data = key
  unpacked : ∀ (unpackTar : Bytes → Path → Outcome CoreError Unit) (task : ProjectTask)
    (dest : Path) (bytes : Bytes), task.snapshot.tarBytes = [] →
    (extractSnapshot primitives unpackTar store task.snapshot dest).1 = some bytes →
    hashBlob primitives bytes = task.snapshot.hash

/-- Through the directories that are there now, the key leads to a file that was on the disk before
and that decodes to a blob with the key in its hash field. -/
def LeadsToOlder (primitives : Primitives) (before now : LocalObjectStore) (key : Hash)
    (data : Bytes) : Prop :=
  ∃ path place bytes, now.objectPath key = some path ∧ now.tree.locate path = some place ∧
    before.tree.node place = some (.file bytes) ∧ now.isEndless primitives place = false ∧
    Decodes primitives bytes (.blob ⟨key, data⟩)

/-- Blobs of files that were on the disk before hash to the keys that lead to them. -/
def OlderFilesGenuine (primitives : Primitives) (before now : LocalObjectStore) : Prop :=
  ∀ key data, LeadsToOlder primitives before now key data → hashBlob primitives data = key

section Integrity

variable {primitives : Primitives} {store : LocalObjectStore}

/-- The object of a put is a blob only under the hash of its data. -/
theorem hashBlob_of_object_eq {operation : PutOperation} {hash : Hash} {data : Bytes}
    (hobject : operation.object primitives = .blob ⟨hash, data⟩) :
    hashBlob primitives data = hash := by
  cases operation with
  | blob put =>
    rw [PutOperation.object, Object.blob.injEq, Blob.mk.injEq] at hobject
    rw [← hobject.1, ← hobject.2]
    rfl
  | tree entries => cases hobject
  | commit now treeHash parentHashes author message => cases hobject
  | tag commitHash name message => cases hobject

/-- The files of a store are older ones and those of puts. Older ones are still there. -/
structure ExtendedBy (primitives : Primitives) (puts : List PutOperation)
    (before now : LocalObjectStore) : Prop where
  root : now.root = before.root
  kept : ∀ place bytes, before.disk.lookup place = some (.file bytes) →
    now.disk.lookup place = some (.file bytes)
  files : ∀ place bytes, now.disk.lookup place = some (.file bytes) →
    before.disk.lookup place = some (.file bytes) ∨
      ∃ operation ∈ puts, bytes = storedForm primitives (operation.object primitives)

theorem ExtendedBy.refl (puts : List PutOperation) (store : LocalObjectStore) :
    ExtendedBy primitives puts store store :=
  ⟨rfl, fun _ _ hfile ↦ hfile, fun _ _ hfile ↦ Or.inl hfile⟩

theorem ExtendedBy.put {puts : List PutOperation} {before now : LocalObjectStore}
    (hextended : ExtendedBy primitives puts before now) {operation : PutOperation}
    (hmem : operation ∈ puts) :
    ExtendedBy primitives puts before (now.put primitives none operation).2 where
  root := (now.put_root primitives none operation).trans hextended.root
  kept := by
    intro place bytes hfile
    have hnow := hextended.kept place bytes hfile
    rw [← hnow]
    exact LocalObjectStore.put_lookup_of_mem none operation (Finmap.mem_of_lookup_eq_some hnow)
  files := by
    intro place bytes hfile
    rw [LocalObjectStore.put_none] at hfile
    split_ifs at hfile
    · exact hextended.files place bytes hfile
    · rcases eq_or_of_lookup_insert_eq_some hfile with ⟨-, hnew⟩ | hother
      · exact Or.inr ⟨operation, hmem, FileNode.file.inj hnew⟩
      · rcases lookup_createDirs hother with hdisk | ⟨-, hdirectory⟩
        · exact hextended.files place bytes hdisk
        · cases hdirectory

theorem ExtendedBy.handleCasEvents {puts : List PutOperation} {before : LocalObjectStore}
    {fetcher : BlobFetcher} (hextended : ExtendedBy primitives puts before fetcher.store)
    {events : List CasEvent} (hputs : ∀ event ∈ events, event.operation ∈ puts) :
    ExtendedBy primitives puts before (fetcher.handleCasEvents primitives events).store := by
  induction events generalizing fetcher with
  | nil => exact hextended
  | cons event rest ih =>
    have hhead : ExtendedBy primitives puts before
        (fetcher.handleCasEvent primitives event).store := by
      rcases fetcher.store_handleCasEvent primitives event with hsame | hput
      · rw [hsame]
        exact hextended
      · rw [hput]
        exact hextended.put (hputs event List.mem_cons_self)
    exact ih hhead fun other hother ↦ hputs other (List.mem_cons_of_mem event hother)

/-- A blob that is read under a digest after a put that is read back as written was read before, or
was put. -/
theorem getBlob_put {operation : PutOperation}
    (hroundTrip : RoundTrips primitives (operation.object primitives)) {hash : Hash} {data : Bytes}
    (hhash : IsDigest hash)
    (hget : (store.put primitives none operation).2.getBlob primitives hash = .ok data) :
    store.getBlob primitives hash = .ok data ∨ operation.object primitives = .blob ⟨hash, data⟩ := by
  obtain ⟨bytes, hfile, hdecodes⟩ := LocalObjectStore.getBlob_eq_ok_iff.mp hget
  have hlookup := (LocalObjectStore.holdsFile_iff_of_isDigest hhash).mp hfile
  rw [LocalObjectStore.put_root] at hlookup
  have hextended : ExtendedBy primitives [operation] store (store.put primitives none operation).2 :=
    (ExtendedBy.refl _ store).put (List.mem_singleton_self operation)
  rcases hextended.files _ bytes hlookup with hbefore | ⟨other, hmem, hbytes⟩
  · left
    exact LocalObjectStore.getBlob_eq_ok_iff.mpr
      ⟨bytes, (LocalObjectStore.holdsFile_iff_of_isDigest hhash).mpr hbefore, hdecodes⟩
  · right
    rw [List.mem_singleton.mp hmem] at hbytes
    rw [hbytes] at hdecodes
    exact hroundTrip.unique hdecodes

/-- The blobs that an extended store returns are older ones or hash to their key. -/
theorem ExtendedBy.leadsToOlder_or {puts : List PutOperation} {before now : LocalObjectStore}
    (hextended : ExtendedBy primitives puts before now)
    (hroundTrip : ∀ operation ∈ puts, RoundTrips primitives (operation.object primitives))
    {key : Hash} {data : Bytes} (hget : now.getBlob primitives key = .ok data) :
    LeadsToOlder primitives before now key data ∨ hashBlob primitives data = key := by
  obtain ⟨bytes, ⟨path, place, hpath, hplace, hnode, hends⟩, hdecodes⟩ :=
    LocalObjectStore.getBlob_eq_ok_iff.mp hget
  obtain ⟨htop, hfile⟩ := LocalObjectStore.node_eq_file_iff.mp hnode
  rcases hextended.files place bytes hfile with holder | ⟨operation, hmem, hbytes⟩
  · left
    have hfile := LocalObjectStore.node_eq_file_iff.mpr ⟨htop, holder⟩
    exact ⟨path, place, bytes, hpath, hplace, hfile, hends, hdecodes⟩
  · right
    rw [hbytes] at hdecodes
    exact hashBlob_of_object_eq ((hroundTrip operation hmem).unique hdecodes)

theorem ExtendedBy.getBlob_of_leadsToOlder {puts : List PutOperation}
    {before now : LocalObjectStore} (hextended : ExtendedBy primitives puts before now)
    {key : Hash} {data : Bytes} (hleads : LeadsToOlder primitives before now key data) :
    now.getBlob primitives key = .ok data := by
  obtain ⟨path, place, bytes, hpath, hplace, hnode, hends, hdecodes⟩ := hleads
  obtain ⟨htop, hfile⟩ := LocalObjectStore.node_eq_file_iff.mp hnode
  have hnow := LocalObjectStore.node_eq_file_iff.mpr ⟨htop, hextended.kept place bytes hfile⟩
  exact LocalObjectStore.getBlob_eq_ok_iff.mpr
    ⟨bytes, ⟨path, place, hpath, hplace, hnow, hends⟩, hdecodes⟩

theorem getBlob_of_extractSnapshot {unpackTar : Bytes → Path → Outcome CoreError Unit}
    {snapshot : ProjectSnapshot} {dest : Path} (hinline : snapshot.tarBytes = []) {bytes : Bytes}
    (hunpacks : (extractSnapshot primitives unpackTar store snapshot dest).1 = some bytes) :
    store.getBlob primitives snapshot.hash = .ok bytes := by
  rw [extractSnapshot, snapshotBytes, if_neg (not_not.mpr hinline)] at hunpacks
  cases hget : store.getBlob primitives snapshot.hash with
  | ok found =>
    rw [hget] at hunpacks
    rw [← Option.some.inj hunpacks]
  | err error =>
    rw [hget] at hunpacks
    cases hunpacks
  | lost loss =>
    rw [hget] at hunpacks
    cases hunpacks

end Integrity

/-- A store that returns blobs only under their own hash hands nothing else to the unpacker. -/
theorem Unpoisoned.of_read {primitives : Primitives} {store : LocalObjectStore}
    (hread : ∀ key data, store.getBlob primitives key = .ok data → hashBlob primitives data = key) :
    Unpoisoned primitives store where
  read := hread
  unpacked := by
    intro unpackTar task dest bytes hinline hunpacks
    exact hread _ _ (getBlob_of_extractSnapshot hinline hunpacks)

/-- Whatever peers answer and whatever is put locally, the store is not poisoned afterwards exactly
when the files that were on the disk before are genuine as far as keys lead to them. -/
theorem unpoisoned_iff (primitives : Primitives) (fetcher : BlobFetcher) (events : List CasEvent)
    (hroundTrip : ∀ event ∈ events, RoundTrips primitives (event.operation.object primitives)) :
    Unpoisoned primitives (fetcher.handleCasEvents primitives events).store ↔
      OlderFilesGenuine primitives fetcher.store
        (fetcher.handleCasEvents primitives events).store := by
  have hextended : ExtendedBy primitives (events.map CasEvent.operation) fetcher.store
      (fetcher.handleCasEvents primitives events).store :=
    (ExtendedBy.refl _ fetcher.store).handleCasEvents fun event hmem ↦ List.mem_map_of_mem hmem
  constructor
  · intro hunpoisoned key data hleads
    exact hunpoisoned.read key data (hextended.getBlob_of_leadsToOlder hleads)
  · intro hgenuine
    apply Unpoisoned.of_read
    intro key data hget
    rcases hextended.leadsToOlder_or (List.forall_mem_map.mpr hroundTrip) hget with hleads | hhash
    · exact hgenuine key data hleads
    · exact hhash

/-- A response to another request is stored under the hash of its bytes. -/
theorem unpoisoned_iff_releaseBlob :
    let fetcher : BlobFetcher := { store := ⟨[], ∅⟩ }
    let store := (fetcher.handleCasEvents releaseTabulated
      [.received "another hash" true releaseJson]).store
    store.getBlob releaseTabulated (hexEncode releaseDigest) = .ok releaseJson ∧
      Unpoisoned releaseTabulated store := by
  intro fetcher store
  have hroundTrip : ∀ event ∈ [CasEvent.received "another hash" true releaseJson],
      RoundTrips releaseTabulated (event.operation.object releaseTabulated) := by
    intro event hmem
    rw [List.mem_singleton.mp hmem]
    exact roundTrips_releaseBlobPut
  have husable : fetcher.Usable releaseTabulated none true releaseJson :=
    ⟨rfl, by decide, LocalObjectStore.not_writeFails_none _ _ _⟩
  have hstore : store =
      LocalObjectStore.afterHistory releaseTabulated ⟨[], ∅⟩ [releaseBlobPut] :=
    congrArg (fun result ↦ result.2.1.store)
      (BlobFetcher.onBlobReceived_of_usable husable "another hash")
  have hget : store.getBlob releaseTabulated (hexEncode releaseDigest) = .ok releaseJson := by
    rw [hstore, ← hash_releaseBlobPut]
    exact blobsReadable_releaseBlobPut releaseJson List.mem_cons_self
  apply And.intro hget
  apply (unpoisoned_iff releaseTabulated fetcher _ hroundTrip).mpr
  -- no file was on the disk before
  intro key data hleads
  obtain ⟨path, place, bytes, -, -, hnode, -⟩ := hleads
  cases (LocalObjectStore.node_eq_file_iff.mp hnode).2

/-! ## A file of the host under a key -/

/-- A blob with a key that leaves the store in its hash field. -/
def plantedForm : ObjectForm where
  object := .blob ⟨"ab/x", [0x21]⟩
  json := utf8 "\x7b\"Blob\":\x7b\"hash\":\"ab/x\",\"data\":[33]\x7d\x7d"
  zlib :=
    [0x78, 0x9c, 0xab, 0x56, 0x72, 0xca, 0xc9, 0x4f, 0x52, 0xb2, 0xaa, 0x56, 0xca, 0x48, 0x2c,
     0xce, 0x50, 0xb2, 0x52, 0x4a, 0x4c, 0xd2, 0xaf, 0x50, 0xd2, 0x51, 0x4a, 0x49, 0x2c, 0x49,
     0x54, 0xb2, 0x8a, 0x36, 0x36, 0x8e, 0xad, 0xad, 0x05, 0x00, 0xcd, 0x5e, 0x0b, 0x20]

def plantedTabulated : Primitives :=
  .ofForms [] [plantedForm]

/-- A file outside an empty store is returned under a key that is not its hash. -/
theorem planted_file_poisons :
    ¬ ∀ (primitives : Primitives) (fetcher : BlobFetcher) (events : List CasEvent),
      fetcher.store.IsEmpty →
      (∀ event ∈ events, RoundTrips primitives (event.operation.object primitives)) →
      Unpoisoned primitives (fetcher.handleCasEvents primitives events).store := by
  intro hgeneral
  let store : LocalObjectStore :=
    ⟨["objects".toList], (∅ : Disk).insert ["x".toList] (.file plantedForm.zlib)⟩
  have hempty : store.IsEmpty := by
    intro below _ hmem
    rcases Finmap.mem_insert.mp hmem with hplanted | hnothing
    · rw [List.singleton_append, List.cons_eq_cons] at hplanted
      exact absurd hplanted.1 (by decide)
    · exact Finmap.notMem_empty hnothing
  have hfile : store.HoldsFile plantedTabulated "ab/x" plantedForm.zlib :=
    ⟨⟨[], ["x".toList]⟩, ["x".toList], by decide, by decide,
      LocalObjectStore.node_eq_file_iff.mpr ⟨by decide, Finmap.lookup_insert _⟩, rfl⟩
  have hdecodes : Decodes plantedTabulated plantedForm.zlib plantedForm.object := by
    have hroundTrip : RoundTrips plantedTabulated plantedForm.object :=
      roundTrips_single_form plantedForm
    have hzlib : storedForm plantedTabulated plantedForm.object = plantedForm.zlib :=
      storedForm_single_form plantedForm
    rwa [RoundTrips, hzlib] at hroundTrip
  have hget := LocalObjectStore.getBlob_eq_ok_iff.mpr ⟨_, hfile, hdecodes⟩
  have hhash := (hgeneral plantedTabulated { store := store } [] hempty
    (List.forall_mem_nil _)).read "ab/x" [0x21] hget
  have hlength := (isDigest_hashBlob plantedTabulated [0x21]).length
  rw [hhash] at hlength
  exact absurd hlength (by decide)

end EdgeOrchestrator.Node

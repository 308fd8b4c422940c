import EdgeOrchestrator.Storage.Hashing

/-!
# Histories of puts

The four kinds of objects are put into one key space. A put leaves every file alone that is there.
In a history without faults every file of the store holds an object of the history, under the hash
of what was hashed for it. Blobs, trees and commits never share a key, but a tag is hashed as the
blob of its JSON form: a blob is lost to a tag put before it when its data is that text, and only
then.
-/

namespace EdgeOrchestrator.Storage

/-- A call that puts an object into the store. A commit is made at a time. -/
inductive PutOperation
  | blob (data : Bytes)
  | tree (entries : List TreeEntry)
  | commit (now : DateTime) (treeHash : Hash) (parentHashes : List Hash) (author message : String)
  | tag (commitHash : Hash) (name : String) (message : Option String)
  deriving DecidableEq, Repr

inductive ObjectKind
  | blob
  | tree
  | commit
  | tag
  deriving DecidableEq, Repr

namespace PutOperation

@[simp]
def kind : PutOperation → ObjectKind
  | .blob _ => .blob
  | .tree _ => .tree
  | .commit _ _ _ _ _ => .commit
  | .tag _ _ _ => .tag

/-- What is hashed for the object. -/
def hashed : PutOperation → Bytes
  | .blob data => withHeader "blob" data
  | .tree entries => withHeader "tree" (treeContent entries)
  | .commit now treeHash parentHashes author message =>
    withHeader "commit" (commitContent treeHash parentHashes author now message)
  | .tag commitHash name message => withHeader "blob" (tagJson ⟨"", commitHash, name, message⟩)

/-- The hash the object is stored under. -/
def hash (primitives : Primitives) (operation : PutOperation) : Hash :=
  hexEncode (primitives.sha256 operation.hashed)

/-- The object that is stored. -/
def object (primitives : Primitives) (operation : PutOperation) : Object :=
  let hash := operation.hash primitives
  match operation with
  | .blob data => .blob ⟨hash, data⟩
  | .tree entries => .tree ⟨hash, entries⟩
  | .commit now treeHash parentHashes author message =>
    .commit ⟨hash, treeHash, parentHashes, author, now, message⟩
  | .tag commitHash name message => .tag ⟨hash, commitHash, name, message⟩

theorem isDigest_hash (primitives : Primitives) (operation : PutOperation) :
    IsDigest (operation.hash primitives) :=
  isDigest_sha256 primitives operation.hashed

end PutOperation

namespace LocalObjectStore

variable (primitives : Primitives)

def put (fault : Option WriteFault) (store : LocalObjectStore) :
    PutOperation → Outcome CoreError Hash × LocalObjectStore
  | .blob data => store.putBlob primitives fault data
  | .tree entries => store.putTree primitives fault entries
  | .commit now treeHash parentHashes author message =>
    store.commit primitives fault now treeHash parentHashes author message
  | .tag commitHash name message => store.putTag primitives fault commitHash name message

/-- Every put writes its object under its hash. -/
theorem put_eq_putObject (fault : Option WriteFault) (store : LocalObjectStore)
    (operation : PutOperation) :
    store.put primitives fault operation =
      store.putObject primitives fault (operation.object primitives)
        (operation.hash primitives) := by
  cases operation <;> rfl

theorem put_snd (fault : Option WriteFault) (store : LocalObjectStore)
    (operation : PutOperation) :
    (store.put primitives fault operation).2 =
      (store.writeObject primitives fault (operation.object primitives)
        (operation.hash primitives)).2 := by
  rw [put_eq_putObject, putObject_snd]

theorem put_root (fault : Option WriteFault) (store : LocalObjectStore)
    (operation : PutOperation) : (store.put primitives fault operation).2.root = store.root := by
  rw [put_snd, writeObject_root]

/-- The store after a list of puts, each with the fault it meets. -/
def putAll (store : LocalObjectStore) (puts : List (PutOperation × Option WriteFault)) :
    LocalObjectStore :=
  puts.foldl (fun store entry ↦ (store.put primitives entry.2 entry.1).2) store

variable {primitives}

/-- A put of which the existence check works leaves every file alone that is there. -/
theorem put_lookup_of_mem {store : LocalObjectStore} (fault : Option WriteFault)
    (operation : PutOperation) {path : Path} (hpath : path ∈ store.disk) :
    (store.put primitives fault operation).2.disk.lookup path = store.disk.lookup path := by
  have hdigest := operation.isDigest_hash primitives
  rw [put_snd, writeObject, store.objectPath_of_isDigest hdigest]
  dsimp only
  split_ifs with hexists
  · rfl
  · apply createObject_lookup_of_ne fault _ hpath
    intro hsame
    rw [existsAt_digestFile store hdigest] at hexists
    rw [hsame, whole_digestFile] at hpath
    exact hexists (Finmap.lookup_isSome.mpr hpath)

/-- A put without a fault returns the hash. It changes the disk only when the file is missing. -/
theorem put_none (primitives : Primitives) (store : LocalObjectStore) (operation : PutOperation) :
    store.put primitives none operation = (.ok (operation.hash primitives),
      if digestPath store.root (operation.hash primitives) ∈ store.disk then store
      else { store with
        disk := (createDirAll store.disk
          (digestPath store.root (operation.hash primitives)).dropLast).insert
            (digestPath store.root (operation.hash primitives))
            (.file (storedForm primitives (operation.object primitives))) }) := by
  have hdigest := operation.isDigest_hash primitives
  have hexists := existsAt_digestFile store hdigest store.root
  rw [put_eq_putObject, putObject, writeObject, store.objectPath_of_isDigest hdigest]
  dsimp only
  rw [hexists]
  simp only [Finmap.lookup_isSome, createObject, whole_digestFile]
  split_ifs <;> rfl

end LocalObjectStore

theorem PutOperation.hash_object (primitives : Primitives) (operation : PutOperation) :
    (operation.object primitives).hash = operation.hash primitives := by
  cases operation <;> rfl

/-- A file that decodes to the object of a put is read under its hash. -/
theorem LocalObjectStore.readObject_of_decodes {primitives : Primitives} {store : LocalObjectStore}
    {operation : PutOperation} {bytes : Bytes}
    (hfile : store.disk.lookup (digestPath store.root (operation.hash primitives)) =
      some (.file bytes))
    (hdecodes : Decodes primitives bytes (operation.object primitives)) :
    store.readObject primitives (operation.hash primitives) =
      .ok (operation.object primitives) := by
  have hheld : store.HoldsFile primitives _ bytes :=
    (holdsFile_iff_of_isDigest (operation.isDigest_hash primitives)).mpr hfile
  exact readObject_eq_ok_iff.mpr ⟨bytes, hheld, hdecodes, operation.hash_object primitives⟩

theorem object_emptyBlob : (PutOperation.blob []).object tabulated =
    .blob ⟨hexEncode emptyBlobDigest, []⟩ := by
  have hheader : withHeader "blob" [] = utf8 "blob 0\x00" := by decide
  simp only [PutOperation.object, PutOperation.hash, PutOperation.hashed, hheader, tabulated,
    if_true]

theorem roundTrips_emptyBlob : RoundTrips tabulated ((PutOperation.blob []).object tabulated) := by
  have hserialize : tabulated.serialize (.blob ⟨hexEncode emptyBlobDigest, []⟩) =
      emptyBlobJson := by simp only [tabulated, if_true]
  have hcompress : tabulated.compress emptyBlobJson = emptyBlobZlib := by
    simp only [tabulated, if_true]
  rw [object_emptyBlob]
  exact roundTrips_of_forms hserialize hcompress (by simp only [tabulated, if_true])
    (by simp only [tabulated, if_true])

/-! ## Histories without faults -/

/-- Nothing lies below the root. -/
def LocalObjectStore.IsEmpty (store : LocalObjectStore) : Prop :=
  ∀ below : Path, below ≠ [] → store.root ++ below ∉ store.disk

/-- The store after a history of puts that meet no fault. -/
def LocalObjectStore.afterHistory (primitives : Primitives) (store : LocalObjectStore)
    (operations : List PutOperation) : LocalObjectStore :=
  store.putAll primitives (operations.map fun operation ↦ (operation, none))

/-- The files of digests are those of the history: each holds an object with that digest, and none
is missing. -/
structure HoldsHistory (primitives : Primitives) (operations : List PutOperation)
    (store : LocalObjectStore) : Prop where
  files : ∀ hash node, store.disk.lookup (digestPath store.root hash) = some node →
    ∃ operation ∈ operations, operation.hash primitives = hash ∧
      node = .file (storedForm primitives (operation.object primitives))
  present : ∀ operation ∈ operations,
    digestPath store.root (operation.hash primitives) ∈ store.disk

/-- The first put of a history with a hash. -/
def firstPut (primitives : Primitives) (operations : List PutOperation) (hash : Hash) :
    Option PutOperation :=
  operations.find? fun operation ↦ operation.hash primitives = hash

/-- The file of a digest holds the object of the first put with that digest. -/
def HoldsFirstPuts (primitives : Primitives) (operations : List PutOperation)
    (store : LocalObjectStore) : Prop :=
  ∀ hash, store.disk.lookup (digestPath store.root hash) =
    (firstPut primitives operations hash).map fun operation ↦
      .file (storedForm primitives (operation.object primitives))

theorem holdsFirstPuts_nil (primitives : Primitives) {store : LocalObjectStore}
    (hempty : store.IsEmpty) : HoldsFirstPuts primitives [] store := by
  intro hash
  exact Finmap.lookup_eq_none.mpr (hempty _ (List.cons_ne_nil _ _))

/-- The directories made for the file of a digest are not files of digests. -/
theorem digestPath_notMem_inits (root : Path) (hash other : Hash) :
    digestPath root other ∉ (digestPath root hash).dropLast.inits := by
  intro hmem
  have hlength := ((List.mem_inits _ _).mp hmem).length_le
  rw [List.length_dropLast, length_digestPath, length_digestPath] at hlength
  omega

/-- A later put is the first one with its hash or changes nothing. -/
theorem firstPut_append (primitives : Primitives) (operations : List PutOperation)
    (operation : PutOperation) (hash : Hash) :
    firstPut primitives (operations ++ [operation]) hash =
      (firstPut primitives operations hash).or
        (if operation.hash primitives = hash then some operation else none) := by
  rw [firstPut, List.find?_append, List.find?_singleton]
  simp only [decide_eq_true_eq]
  rfl

/-- A put without a fault extends the history. -/
theorem HoldsFirstPuts.put {primitives : Primitives} {operations : List PutOperation}
    {store : LocalObjectStore} (hstore : HoldsFirstPuts primitives operations store)
    (operation : PutOperation) :
    HoldsFirstPuts primitives (operations ++ [operation])
      (store.put primitives none operation).2 := by
  intro hash
  rw [LocalObjectStore.put_root, LocalObjectStore.put_none, firstPut_append]
  by_cases hhash : operation.hash primitives = hash
  · rw [if_pos hhash]
    have hown := hstore hash
    rw [← hhash] at hown ⊢
    split_ifs with hmem
    · -- the file is there, so the put is not the first one
      cases hfirst : firstPut primitives operations (operation.hash primitives) with
      | none =>
        rw [hfirst] at hown
        exact absurd hmem (Finmap.lookup_eq_none.mp hown)
      | some earlier =>
        rw [hfirst] at hown
        exact hown
    · rw [Finmap.lookup_eq_none.mpr hmem] at hown
      rw [Option.map_eq_none_iff.mp hown.symm]
      exact Finmap.lookup_insert _
  · rw [if_neg hhash, Option.or_none, ← hstore hash]
    split_ifs
    · rfl
    · have hne : digestPath store.root hash ≠ digestPath store.root (operation.hash primitives) :=
        fun hpath ↦ hhash (digestPath_injective hpath).symm
      exact (Finmap.lookup_insert_of_ne _ hne).trans
        (lookup_createDirs_of_notMem (digestPath_notMem_inits _ _ _))

/-- After a history without faults the files of an empty store are those of the first puts. -/
theorem holdsFirstPuts_afterHistory (primitives : Primitives) {store : LocalObjectStore}
    (hempty : store.IsEmpty) (operations : List PutOperation) :
    HoldsFirstPuts primitives operations (store.afterHistory primitives operations) := by
  have hrun : ∀ (later earlier : List PutOperation) (store : LocalObjectStore),
      HoldsFirstPuts primitives earlier store →
      HoldsFirstPuts primitives (earlier ++ later) (store.afterHistory primitives later) := by
    intro later
    induction later with
    | nil =>
      intro earlier store hstore
      rw [List.append_nil]
      exact hstore
    | cons operation rest ih =>
      intro earlier store hstore
      rw [List.append_cons]
      exact ih _ _ (hstore.put operation)
  exact hrun operations [] store (holdsFirstPuts_nil primitives hempty)

theorem HoldsFirstPuts.holdsHistory {primitives : Primitives} {operations : List PutOperation}
    {store : LocalObjectStore} (hstore : HoldsFirstPuts primitives operations store) :
    HoldsHistory primitives operations store where
  files := by
    intro hash node hlookup
    rw [hstore hash, Option.map_eq_some_iff] at hlookup
    obtain ⟨operation, hfirst, hnode⟩ := hlookup
    have hhash := List.find?_some hfirst
    rw [decide_eq_true_eq] at hhash
    exact ⟨operation, List.mem_of_find?_eq_some hfirst, hhash, hnode.symm⟩
  present := by
    intro operation hmem
    rw [← Finmap.lookup_isSome, hstore, Option.isSome_map, firstPut, List.find?_isSome]
    exact ⟨operation, hmem, decide_eq_true rfl⟩

/-- After a history without faults an empty store holds that history. -/
theorem holdsHistory_afterHistory (primitives : Primitives) {store : LocalObjectStore}
    (hempty : store.IsEmpty) (operations : List PutOperation) :
    HoldsHistory primitives operations (store.afterHistory primitives operations) :=
  (holdsFirstPuts_afterHistory primitives hempty operations).holdsHistory

/-- SHA-256 has no collision among what the history hashes. -/
def NoCollisions (primitives : Primitives) (operations : List PutOperation) : Prop :=
  ∀ first ∈ operations, ∀ second ∈ operations,
    primitives.sha256 first.hashed = primitives.sha256 second.hashed →
      first.hashed = second.hashed

/-- Objects of different kinds have different hashes. -/
def KindsSeparated (primitives : Primitives) (operations : List PutOperation) : Prop :=
  ∀ first ∈ operations, ∀ second ∈ operations, first.kind ≠ second.kind →
    first.hash primitives ≠ second.hash primitives

/-- Every blob of the history is returned under its hash. -/
def BlobsReadable (primitives : Primitives) (operations : List PutOperation)
    (store : LocalObjectStore) : Prop :=
  ∀ data, .blob data ∈ operations →
    store.getBlob primitives (hashBlob primitives data) = .ok data

/-- No blob of the history is the JSON form of one of its tags. -/
def NoBlobIsTagJson (operations : List PutOperation) : Prop :=
  ∀ data commitHash name message, .blob data ∈ operations →
    .tag commitHash name message ∈ operations →
    data ≠ tagJson ⟨"", commitHash, name, message⟩

/-- First byte of what is hashed for a kind. -/
def ObjectKind.initial : ObjectKind → UInt8
  | .blob => 0x62
  | .tree => 0x74
  | .commit => 0x63
  | .tag => 0x62

theorem head?_hashed (operation : PutOperation) :
    operation.hashed.head? = some operation.kind.initial := by
  have hblob : (utf8 "blob").head? = some 0x62 := by decide
  have htree : (utf8 "tree").head? = some 0x74 := by decide
  have hcommit : (utf8 "commit").head? = some 0x63 := by decide
  cases operation with
  | blob data => exact head?_withHeader hblob _
  | tree entries => exact head?_withHeader htree _
  | commit now treeHash parentHashes author message => exact head?_withHeader hcommit _
  | tag commitHash name message => exact head?_withHeader hblob _

/-- Objects of different kinds that are hashed as the same bytes are a blob and a tag. -/
theorem blob_and_tag_of_hashed_eq {first second : PutOperation}
    (hhashed : first.hashed = second.hashed) (hkind : first.kind ≠ second.kind) :
    first.kind = .blob ∧ second.kind = .tag ∨ first.kind = .tag ∧ second.kind = .blob := by
  have hinitial : first.kind.initial = second.kind.initial := by
    apply Option.some.inj
    rw [← head?_hashed, ← head?_hashed, hhashed]
  have hall : ∀ left right : ObjectKind, left.initial = right.initial → left ≠ right →
      left = .blob ∧ right = .tag ∨ left = .tag ∧ right = .blob := by
    intro left right
    cases left <;> cases right <;> decide
  exact hall _ _ hinitial hkind

/-- Only a blob and a tag of which it is the JSON form are hashed as the same bytes. -/
theorem eq_tagJson_of_hashed_eq {data : Bytes} {operation : PutOperation}
    (hhashed : (PutOperation.blob data).hashed = operation.hashed) :
    operation = .blob data ∨ ∃ commitHash name message,
      operation = .tag commitHash name message ∧
        data = tagJson ⟨"", commitHash, name, message⟩ := by
  have htagged := fun hkind ↦ blob_and_tag_of_hashed_eq hhashed hkind
  cases operation with
  | blob other => exact Or.inl (congrArg PutOperation.blob (withHeader_blob_injective hhashed).symm)
  | tree entries => simp at htagged
  | commit now treeHash parentHashes author message => simp at htagged
  | tag commitHash name message =>
    exact Or.inr ⟨commitHash, name, message, rfl, withHeader_blob_injective hhashed⟩

section KindSeparation

variable {primitives : Primitives} {operations : List PutOperation}

/-- Without collisions, equal hashes come from the same bytes. -/
theorem NoCollisions.hashed_eq (hcollision : NoCollisions primitives operations)
    {first second : PutOperation} (hfirst : first ∈ operations) (hsecond : second ∈ operations)
    (hhash : first.hash primitives = second.hash primitives) : first.hashed = second.hashed :=
  hcollision first hfirst second hsecond (hexEncode_injective hhash)

theorem noCollisions_of_nodup {primitives : Primitives} {operations : List PutOperation}
    (hnodup : (operations.map fun operation ↦ primitives.sha256 operation.hashed).Nodup) :
    NoCollisions primitives operations := by
  intro first hfirst second hsecond hequal
  rw [List.inj_on_of_nodup_map hnodup hfirst hsecond hequal]

/-- A history that hashes the same bytes again and again has no collision. -/
theorem noCollisions_of_hashed {bytes : Bytes}
    (hsame : ∀ operation ∈ operations, operation.hashed = bytes) :
    NoCollisions primitives operations := by
  intro first hfirst second hsecond _
  rw [hsame first hfirst, hsame second hsecond]

theorem noCollisions_singleton (operation : PutOperation) :
    NoCollisions primitives [operation] :=
  noCollisions_of_hashed (List.forall_mem_singleton.mpr rfl)

theorem noBlobIsTagJson_of_kindsSeparated (hseparated : KindsSeparated primitives operations) :
    NoBlobIsTagJson operations := by
  intro data commitHash name message hblob htag hdata
  apply hseparated _ hblob _ htag (by simp)
  rw [hdata]
  rfl

/-- A blob whose data is not the JSON form of a tag of the history shares no key with it. -/
theorem eq_blob_of_hash_eq (hcollision : NoCollisions primitives operations)
    (htags : NoBlobIsTagJson operations) {data : Bytes} (hblob : .blob data ∈ operations)
    {operation : PutOperation} (hmem : operation ∈ operations)
    (hhash : (PutOperation.blob data).hash primitives = operation.hash primitives) :
    operation = .blob data := by
  rcases eq_tagJson_of_hashed_eq (hcollision.hashed_eq hblob hmem hhash) with hsame | htag
  · exact hsame
  · obtain ⟨commitHash, name, message, htag, hdata⟩ := htag
    rw [htag] at hmem
    exact absurd hdata (htags data commitHash name message hblob hmem)

theorem kindsSeparated_of_noBlobIsTagJson (hcollision : NoCollisions primitives operations)
    (htags : NoBlobIsTagJson operations) : KindsSeparated primitives operations := by
  intro first hfirst second hsecond hkind hhash
  have hhashed := hcollision.hashed_eq hfirst hsecond hhash
  rcases blob_and_tag_of_hashed_eq hhashed hkind with hblob | htag
  · cases first with
    | blob data =>
      rw [eq_blob_of_hash_eq hcollision htags hfirst hsecond hhash] at hkind
      exact hkind rfl
    | _ => simp at hblob
  · cases second with
    | blob data =>
      rw [eq_blob_of_hash_eq hcollision htags hsecond hfirst hhash.symm] at hkind
      exact hkind rfl
    | _ => simp at htag

theorem blobsReadable_of_noBlobIsTagJson {store : LocalObjectStore}
    (hstore : HoldsHistory primitives operations store)
    (hcollision : NoCollisions primitives operations)
    (hroundTrip : ∀ operation ∈ operations, RoundTrips primitives (operation.object primitives))
    (htags : NoBlobIsTagJson operations) : BlobsReadable primitives operations store := by
  intro data hblob
  obtain ⟨node, hnode⟩ := Finmap.mem_iff.mp (hstore.present _ hblob)
  obtain ⟨operation, hmem, hhash, hfile⟩ := hstore.files _ _ hnode
  rw [eq_blob_of_hash_eq hcollision htags hblob hmem hhash.symm] at hfile
  rw [hfile] at hnode
  have hdigest := (PutOperation.blob data).isDigest_hash primitives
  exact LocalObjectStore.getBlob_eq_ok_iff.mpr
    ⟨_, (LocalObjectStore.holdsFile_iff_of_isDigest hdigest).mpr hnode, hroundTrip _ hblob⟩

end KindSeparation

/-- Kinds never share a key and every blob put is readable exactly in the histories in which no blob
is the JSON form of a tag. -/
theorem kindsSeparated_and_blobsReadable_iff (primitives : Primitives) (store : LocalObjectStore)
    (hempty : store.IsEmpty) (operations : List PutOperation)
    (hcollision : NoCollisions primitives operations)
    (hroundTrip : ∀ operation ∈ operations, RoundTrips primitives (operation.object primitives)) :
    KindsSeparated primitives operations ∧
        BlobsReadable primitives operations (store.afterHistory primitives operations) ↔
      NoBlobIsTagJson operations := by
  constructor
  · intro hproperty
    exact noBlobIsTagJson_of_kindsSeparated hproperty.1
  · intro htags
    have hstore := holdsHistory_afterHistory primitives hempty operations
    exact ⟨kindsSeparated_of_noBlobIsTagJson hcollision htags,
      blobsReadable_of_noBlobIsTagJson hstore hcollision hroundTrip htags⟩

theorem noCollisions_of_emptyBlobs {puts : List PutOperation}
    (hputs : ∀ operation ∈ puts, operation = .blob []) (primitives : Primitives) :
    NoCollisions primitives puts := by
  apply noCollisions_of_hashed
  intro operation hmem
  rw [hputs operation hmem]

theorem roundTrips_of_emptyBlobs {puts : List PutOperation}
    (hputs : ∀ operation ∈ puts, operation = .blob []) :
    ∀ operation ∈ puts, RoundTrips tabulated (operation.object tabulated) := by
  intro operation hmem
  rw [hputs operation hmem]
  exact roundTrips_emptyBlob

/-! ## A tag and the blob of its JSON form -/

/-- What is hashed, as a blob, for the tag `v1`. -/
def releaseJson : Bytes := tagJson ⟨"", "", "v1", none⟩

/-- The SHA-256 digest of `releaseJson` with its header. -/
def releaseDigest : Bytes :=
  [0x2a, 0xee, 0x6a, 0xe4, 0xd1, 0xd7, 0x7c, 0xbd, 0xe8, 0xb0, 0x4f, 0xb7, 0xb2, 0xae, 0xe2,
   0xc6, 0x54, 0x48, 0x81, 0x32, 0x3d, 0x99, 0x42, 0x84, 0x22, 0xde, 0x74, 0xc5, 0xc3, 0x3d,
   0xb8, 0x68]

def releaseTag : Tag := ⟨hexEncode releaseDigest, "", "v1", none⟩

def releaseBlob : Blob := ⟨hexEncode releaseDigest, releaseJson⟩

/-- The tag as the serializer writes it. -/
def releaseTagJson : Bytes := utf8 "\x7b\"Tag\":" ++ tagJson releaseTag ++ utf8 "\x7d"

/-- The blob as the serializer writes it. -/
def releaseBlobJson : Bytes :=
  utf8 "\x7b\"Blob\":\x7b\"hash\":\"" ++ utf8 (hexEncode releaseDigest) ++ utf8 "\",\"data\":[" ++
    utf8 (",".intercalate (releaseJson.map fun byte ↦ toString byte.toNat)) ++ utf8 "]\x7d\x7d"

/-- The zlib stream of `releaseTagJson`. -/
def releaseTagZlib : Bytes :=
  [0x78, 0x9c, 0x2d, 0x8c, 0x31, 0x0e, 0xc2, 0x30, 0x0c, 0x45, 0xef, 0xe2, 0x99, 0x81, 0x38,
   0x6e, 0xe2, 0xf6, 0x1c, 0xec, 0xc8, 0xb1, 0x4d, 0x8b, 0xd4, 0x94, 0x21, 0xd0, 0xa5, 0xea,
   0xdd, 0x09, 0x12, 0xdb, 0xfb, 0xef, 0x4b, 0xef, 0x80, 0x9b, 0xcc, 0x30, 0x1d, 0xb0, 0x48,
   0x5b, 0x60, 0x02, 0x14, 0xf7, 0x24, 0x4e, 0x16, 0x2c, 0x67, 0x2d, 0xe6, 0x5c, 0xae, 0xf4,
   0x28, 0xb9, 0xfc, 0x0e, 0xd4, 0x34, 0x10, 0x31, 0x87, 0x88, 0xd1, 0xc6, 0x91, 0x90, 0x09,
   0xd1, 0x3c, 0x93, 0x0e, 0x1a, 0xa3, 0x15, 0x4e, 0x0c, 0x17, 0xd0, 0x57, 0xad, 0xcf, 0xf7,
   0xfd, 0x1f, 0xec, 0x62, 0x93, 0xea, 0x9d, 0xf6, 0xd0, 0xb9, 0x7a, 0x6b, 0x32, 0xf7, 0xb9,
   0x7d, 0xd6, 0xf5, 0x3c, 0xbf, 0x4a, 0x71, 0x25, 0xd7]

/-- The zlib stream of `releaseBlobJson`. -/
def releaseBlobZlib : Bytes :=
  [0x78, 0x9c, 0x85, 0x8c, 0xbd, 0x0e, 0xc2, 0x30, 0x0c, 0x84, 0xdf, 0xc5, 0x73, 0x86, 0xda,
   0x71, 0x12, 0x3b, 0x23, 0xaf, 0x81, 0x18, 0xf2, 0x87, 0x3a, 0x20, 0x31, 0xc0, 0x56, 0xf5,
   0xdd, 0x49, 0x42, 0x25, 0xba, 0x21, 0xf9, 0x2c, 0xcb, 0xf7, 0xdd, 0x6d, 0x70, 0x79, 0x3c,
   0x33, 0xc4, 0x0d, 0xd6, 0xf4, 0x5a, 0x21, 0x02, 0xa5, 0xd6, 0x7c, 0x6a, 0x5c, 0xb1, 0x86,
   0x50, 0x72, 0x6d, 0x92, 0x17, 0xbe, 0xe7, 0x90, 0x87, 0x41, 0xc5, 0x3b, 0x66, 0x11, 0xb4,
   0x64, 0xab, 0x2a, 0x93, 0x30, 0x51, 0x6d, 0x81, 0x8b, 0x2b, 0xd6, 0xd6, 0x2c, 0x5e, 0xc0,
   0x40, 0x4d, 0xef, 0x04, 0xf1, 0x8a, 0x64, 0x8d, 0x65, 0x83, 0x0b, 0x1b, 0x0d, 0x06, 0xd1,
   0xcd, 0xb3, 0x7f, 0x9c, 0x8c, 0xdd, 0x87, 0xe7, 0x56, 0xed, 0x26, 0x76, 0x53, 0x0f, 0x75,
   0x10, 0xbd, 0x51, 0xf7, 0x3f, 0x8a, 0xb8, 0x4c, 0x60, 0xc6, 0xf0, 0x07, 0x20, 0x8a, 0x61,
   0x3d, 0x71, 0x07, 0x30, 0x9b, 0xba, 0x66, 0xc6, 0x9e, 0x32, 0xa3, 0x08, 0x71, 0x7c, 0xe5,
   0x2b, 0x72, 0xb7, 0x7d, 0xff, 0x00, 0xb4, 0x86, 0x3f, 0xf9]

/-- The third-party functions tabulated on the tag and the blob. -/
def releaseTabulated : Primitives where
  sha256 input := if input = withHeader "blob" releaseJson then releaseDigest else List.replicate 32 0
  sha256_length := by
    intro input
    split_ifs
    · rfl
    · exact List.length_replicate
  compress input :=
    if input = releaseTagJson then releaseTagZlib
    else if input = releaseBlobJson then releaseBlobZlib
    else input
  decompress input :=
    if input = releaseTagZlib then .ok releaseTagJson
    else if input = releaseBlobZlib then .ok releaseBlobJson
    else .error "corrupt deflate stream"
  serialize object :=
    if object = .tag releaseTag then releaseTagJson
    else if object = .blob releaseBlob then releaseBlobJson
    else []
  deserialize input :=
    if input = releaseTagJson then .ok (.tag releaseTag)
    else if input = releaseBlobJson then .ok (.blob releaseBlob)
    else .error "expected value at line 1 column 1"
  debug _ := "Object"

def releaseTagPut : PutOperation := .tag "" "v1" none

def releaseBlobPut : PutOperation := .blob releaseJson

theorem hashed_releaseTagPut : releaseTagPut.hashed = releaseBlobPut.hashed := rfl

theorem hash_releaseBlobPut : releaseBlobPut.hash releaseTabulated = hexEncode releaseDigest := by
  simp [PutOperation.hash, PutOperation.hashed, releaseBlobPut, releaseTabulated]

theorem hash_releaseTagPut : releaseTagPut.hash releaseTabulated = hexEncode releaseDigest := by
  rw [PutOperation.hash, hashed_releaseTagPut]
  exact hash_releaseBlobPut

theorem releaseBlobJson_ne : releaseBlobJson ≠ releaseTagJson := by
  intro hjson
  have hbyte := congrArg (fun bytes ↦ bytes[2]?) hjson
  exact absurd hbyte (by decide)

theorem roundTrips_releaseTagPut :
    RoundTrips releaseTabulated (releaseTagPut.object releaseTabulated) := by
  have hobject : releaseTagPut.object releaseTabulated = .tag releaseTag := by
    rw [releaseTagPut, PutOperation.object, ← releaseTagPut, hash_releaseTagPut]
    rfl
  have hserialize : releaseTabulated.serialize (.tag releaseTag) = releaseTagJson := by
    simp only [releaseTabulated, if_true]
  have hcompress : releaseTabulated.compress releaseTagJson = releaseTagZlib := by
    simp only [releaseTabulated, if_true]
  rw [hobject]
  exact roundTrips_of_forms hserialize hcompress (by simp only [releaseTabulated, if_true])
    (by simp only [releaseTabulated, if_true])

theorem roundTrips_releaseBlobPut :
    RoundTrips releaseTabulated (releaseBlobPut.object releaseTabulated) := by
  have hobject : releaseBlobPut.object releaseTabulated = .blob releaseBlob := by
    rw [releaseBlobPut, PutOperation.object, ← releaseBlobPut, hash_releaseBlobPut]
    rfl
  have hzlib : releaseBlobZlib ≠ releaseTagZlib := by decide
  have hserialize : releaseTabulated.serialize (.blob releaseBlob) = releaseBlobJson := by
    simp only [releaseTabulated, reduceCtorEq, if_true, if_false]
  have hcompress : releaseTabulated.compress releaseBlobJson = releaseBlobZlib := by
    simp only [releaseTabulated, releaseBlobJson_ne, if_true, if_false]
  rw [hobject]
  exact roundTrips_of_forms hserialize hcompress
    (by simp only [releaseTabulated, hzlib, if_true, if_false])
    (by simp only [releaseTabulated, releaseBlobJson_ne, if_true, if_false])

theorem isEmpty_emptyDisk (root : Path) : LocalObjectStore.IsEmpty ⟨root, ∅⟩ :=
  fun _ _ ↦ Finmap.notMem_empty

theorem roundTrips_of_mem_releaseBlobPut : ∀ operation ∈ [releaseBlobPut],
    RoundTrips releaseTabulated (operation.object releaseTabulated) := by
  intro operation hmem
  rw [List.mem_singleton.mp hmem]
  exact roundTrips_releaseBlobPut

theorem blobsReadable_releaseBlobPut :
    BlobsReadable releaseTabulated [releaseBlobPut]
      (LocalObjectStore.afterHistory releaseTabulated ⟨[], ∅⟩ [releaseBlobPut]) := by
  apply blobsReadable_of_noBlobIsTagJson
    (holdsHistory_afterHistory releaseTabulated (isEmpty_emptyDisk []) [releaseBlobPut])
    (noCollisions_singleton releaseBlobPut) roundTrips_of_mem_releaseBlobPut
  intro data commitHash name message _ htag
  cases List.mem_singleton.mp htag

/-- Putting the JSON form of a tag after the tag succeeds, but the blob has the key of the tag. -/
theorem tag_takes_key_of_blob :
    ¬ ∀ (primitives : Primitives) (store : LocalObjectStore) (operations : List PutOperation),
      store.IsEmpty → NoCollisions primitives operations →
      (∀ operation ∈ operations, RoundTrips primitives (operation.object primitives)) →
      KindsSeparated primitives operations ∧
        BlobsReadable primitives operations (store.afterHistory primitives operations) := by
  intro hgeneral
  have hsame : ∀ operation ∈ [releaseTagPut, releaseBlobPut],
      operation.hashed = releaseBlobPut.hashed := by
    simp [hashed_releaseTagPut]
  have hroundTrip : ∀ operation ∈ [releaseTagPut, releaseBlobPut],
      RoundTrips releaseTabulated (operation.object releaseTabulated) := by
    simp [roundTrips_releaseTagPut, roundTrips_releaseBlobPut]
  have hproperty := hgeneral releaseTabulated ⟨[], ∅⟩ [releaseTagPut, releaseBlobPut]
    (isEmpty_emptyDisk []) (noCollisions_of_hashed hsame) hroundTrip
  have htags := noBlobIsTagJson_of_kindsSeparated hproperty.1
  exact htags releaseJson "" "v1" none (by simp [releaseBlobPut]) (by simp [releaseTagPut]) rfl

/-! ## One object of each kind -/

def emptyTreeDigest : Bytes :=
  [0x6e, 0xf1, 0x9b, 0x41, 0x22, 0x5c, 0x53, 0x69, 0xf1, 0xc1, 0x04, 0xd4, 0x5d, 0x8d, 0x85,
   0xef, 0xa9, 0xb0, 0x57, 0xb5, 0x3b, 0x14, 0xb4, 0xb9, 0xb9, 0x39, 0xdd, 0x74, 0xde, 0xcc,
   0x53, 0x21]

def emptyTreeForm : ObjectForm where
  object := .tree ⟨hexEncode emptyTreeDigest, []⟩
  json := utf8 ("\x7b\"Tree\":\x7b\"hash\":\"" ++ hexEncode emptyTreeDigest ++
    "\",\"entries\":[]\x7d\x7d")
  zlib :=
    [0x78, 0x9c, 0x0d, 0xca, 0x31, 0x0e, 0x80, 0x20, 0x0c, 0x00, 0xc0, 0xbf, 0x74, 0x76, 0xb0,
     0xd0, 0x2a, 0xe5, 0x1d, 0x6e, 0xc6, 0x81, 0xd2, 0x12, 0x5c, 0x1c, 0xd4, 0xcd, 0xf8, 0x77,
     0xbd, 0xf9, 0x1e, 0x58, 0x4e, 0x77, 0xc8, 0x0f, 0xf4, 0x72, 0x75, 0xc8, 0x30, 0x79, 0x43,
     0x51, 0xc2, 0x10, 0xb8, 0x72, 0x9c, 0xa4, 0x61, 0xc5, 0x91, 0x8c, 0xd8, 0x92, 0x25, 0xf6,
     0x56, 0x44, 0x47, 0x9e, 0x95, 0xa3, 0x22, 0x29, 0xa9, 0xa8, 0x44, 0x31, 0x9b, 0xc9, 0xbc,
     0xfe, 0x3f, 0x20, 0x0c, 0xe0, 0xc7, 0x7d, 0xee, 0x7e, 0x41, 0x5e, 0xb7, 0xf7, 0xfd, 0x00,
     0x4c, 0xb2, 0x1c, 0x48]

/-- The SHA-256 digest of the commit of the empty tree at the epoch. -/
def snapshotDigest : Bytes :=
  [0x93, 0x56, 0x79, 0x14, 0xf3, 0x3f, 0x42, 0x43, 0xec, 0xb7, 0xfc, 0x3a, 0x6a, 0xb2, 0x64,
   0xd2, 0x68, 0x3f, 0x78, 0x23, 0xb2, 0x43, 0xf1, 0xe9, 0x81, 0x68, 0xf0, 0xe4, 0x59, 0xd5,
   0xa3, 0x9a]

theorem length_snapshotDigest : snapshotDigest.length = 32 := rfl

def snapshotCommit (digest : Bytes) (nanos : ℤ) : Commit :=
  ⟨hexEncode digest, hexEncode emptyTreeDigest, [], "raft", ⟨nanos⟩, "snapshot"⟩

/-- The commit as the serializer writes it, with the time in RFC 3339. -/
def snapshotJson (digest : Bytes) (time : String) : Bytes :=
  utf8 ("\x7b\"Commit\":\x7b\"hash\":\"" ++ hexEncode digest ++ "\",\"tree_hash\":\"" ++
    hexEncode emptyTreeDigest ++ "\",\"parent_hashes\":[],\"author\":\"raft\",\"timestamp\":\"" ++
    time ++ "\",\"message\":\"snapshot\"\x7d\x7d")

/-- The zlib stream of the commit at the epoch. -/
def epochZlib : Bytes :=
  [0x78, 0x9c, 0x2d, 0x8d, 0x3b, 0x6e, 0xc4, 0x30, 0x0c, 0x44, 0xef, 0xa2, 0x7a, 0x03, 0x88,
   0x22, 0xf5, 0xa1, 0xdb, 0x5c, 0x21, 0x55, 0x82, 0x20, 0xa0, 0x24, 0x2a, 0xde, 0xc2, 0x6b,
   0xc3, 0x52, 0xaa, 0xc5, 0xde, 0x3d, 0xca, 0x22, 0xc0, 0x54, 0x33, 0x0f, 0x6f, 0xee, 0xe6,
   0x75, 0xdf, 0xb6, 0xeb, 0x30, 0xcb, 0xdd, 0xac, 0xd2, 0x57, 0xb3, 0x18, 0x46, 0x1f, 0x22,
   0x03, 0x35, 0xc4, 0x46, 0x8e, 0x50, 0x4b, 0x8e, 0xad, 0xa0, 0x04, 0xc9, 0x2e, 0x50, 0x75,
   0x21, 0x61, 0x8b, 0xc9, 0x61, 0x9e, 0x5b, 0x03, 0xe5, 0x04, 0x21, 0x35, 0xab, 0xe4, 0xb9,
   0x7a, 0x41, 0x16, 0x73, 0x31, 0xe3, 0x54, 0xfd, 0xfa, 0xd7, 0x05, 0x6d, 0xc0, 0x99, 0xc0,
   0x39, 0x5f, 0x3c, 0x06, 0x6e, 0x50, 0xc0, 0x52, 0x25, 0x5f, 0x53, 0x4d, 0x5e, 0x9b, 0x70,
   0xb6, 0x3e, 0x66, 0x8f, 0x19, 0x28, 0x53, 0xe6, 0xcc, 0xc8, 0xb5, 0x46, 0xaa, 0x5a, 0x26,
   0xef, 0x60, 0xea, 0x0e, 0x39, 0xf5, 0x36, 0x9e, 0x42, 0xed, 0x66, 0xf9, 0xf8, 0xbc, 0x18,
   0xf9, 0x19, 0xeb, 0x7e, 0x4e, 0xfd, 0x29, 0x6d, 0xfc, 0x3d, 0x5e, 0x37, 0xed, 0x43, 0xb6,
   0x63, 0x56, 0xc0, 0xd1, 0xbe, 0x58, 0x98, 0x79, 0xb3, 0x76, 0x79, 0xe6, 0x7d, 0x22, 0x13,
   0xe8, 0xf2, 0xad, 0x13, 0xe8, 0x37, 0x39, 0xfa, 0xba, 0x0f, 0xf3, 0x78, 0xfc, 0x02, 0x8d,
   0x00, 0x4a, 0x69]

def epochForm : ObjectForm :=
  ⟨.commit (snapshotCommit snapshotDigest 0),
    snapshotJson snapshotDigest "1970-01-01T00:00:00Z", epochZlib⟩

def emptyBlobForm : ObjectForm :=
  ⟨.blob ⟨hexEncode emptyBlobDigest, []⟩, emptyBlobJson, emptyBlobZlib⟩

def releaseTagForm : ObjectForm := ⟨.tag releaseTag, releaseTagJson, releaseTagZlib⟩

def snapshotPut : PutOperation :=
  .commit ⟨0⟩ (hexEncode emptyTreeDigest) [] "raft" "snapshot"

/-- Puts of a blob, a tree, a commit and a tag. -/
def mixedHistory : List PutOperation := [.blob [], .tree [], snapshotPut, releaseTagPut]

def mixedDigests : List DigestForm :=
  [⟨(PutOperation.blob []).hashed, emptyBlobDigest, rfl⟩,
    ⟨(PutOperation.tree []).hashed, emptyTreeDigest, rfl⟩,
    ⟨snapshotPut.hashed, snapshotDigest, length_snapshotDigest⟩,
    ⟨releaseTagPut.hashed, releaseDigest, rfl⟩]

def mixedForms : List ObjectForm := [emptyBlobForm, emptyTreeForm, epochForm, releaseTagForm]

/-- The third-party functions tabulated on the four objects. -/
def mixedTabulated : Primitives := .ofForms mixedDigests mixedForms

theorem sha256_mixed : ∀ form ∈ mixedDigests, mixedTabulated.sha256 form.hashed = form.digest :=
  fun _ hmem ↦ sha256_of_mem_digests (by decide +kernel) hmem

theorem map_sha256_mixedHistory :
    (mixedHistory.map fun operation ↦ mixedTabulated.sha256 operation.hashed) =
      mixedDigests.map DigestForm.digest :=
  List.map_congr_left sha256_mixed

theorem noCollisions_mixed : NoCollisions mixedTabulated mixedHistory := by
  apply noCollisions_of_nodup
  rw [map_sha256_mixedHistory]
  decide

theorem map_object_mixedHistory :
    (mixedHistory.map fun operation ↦ operation.object mixedTabulated) =
      mixedForms.map ObjectForm.object := by
  have hdigests := sha256_mixed
  simp only [mixedDigests, List.forall_mem_cons] at hdigests
  obtain ⟨hblob, htree, hcommit, htag, -⟩ := hdigests
  simp only [mixedHistory, mixedForms, List.map_cons, List.map_nil, List.cons.injEq, and_true]
  exact ⟨congrArg (fun digest ↦ Object.blob ⟨hexEncode digest, []⟩) hblob,
    congrArg (fun digest ↦ Object.tree ⟨hexEncode digest, []⟩) htree,
    congrArg (fun digest ↦ Object.commit (snapshotCommit digest 0)) hcommit,
    congrArg (fun digest ↦ Object.tag ⟨hexEncode digest, "", "v1", none⟩) htag⟩

theorem roundTrips_mixed : ∀ operation ∈ mixedHistory,
    RoundTrips mixedTabulated (operation.object mixedTabulated) := by
  intro operation hmem
  have hobjects : operation.object mixedTabulated ∈ mixedForms.map ObjectForm.object :=
    map_object_mixedHistory ▸ List.mem_map_of_mem hmem
  obtain ⟨form, hform, hobject⟩ := List.mem_map.mp hobjects
  rw [← hobject]
  exact roundTrips_of_mem_forms (by decide +kernel) (by decide +kernel) (by decide +kernel) hform

theorem kindsSeparated_and_blobsReadable_mixed :
    KindsSeparated mixedTabulated mixedHistory ∧
      BlobsReadable mixedTabulated mixedHistory
        (LocalObjectStore.afterHistory mixedTabulated ⟨[], ∅⟩ mixedHistory) := by
  apply (kindsSeparated_and_blobsReadable_iff mixedTabulated ⟨[], ∅⟩ (isEmpty_emptyDisk []) _
    noCollisions_mixed roundTrips_mixed).mpr
  intro data commitHash name message hblob htag
  obtain rfl : data = [] := by
    simpa [mixedHistory, snapshotPut, releaseTagPut] using hblob
  obtain ⟨rfl, rfl, rfl⟩ : commitHash = "" ∧ name = "v1" ∧ message = none := by
    simpa [mixedHistory, snapshotPut, releaseTagPut] using htag
  decide

end EdgeOrchestrator.Storage

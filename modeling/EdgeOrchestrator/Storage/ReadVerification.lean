import EdgeOrchestrator.Storage.TreeHashing

/-!
# What a read verifies

A read compares the hash asked for with the hash field of the object it decodes. The field is part
of the file, so a file that was altered can carry it along unchanged. Reads therefore verify their
content exactly in the stores in which a blob or a tree that carries the hash of its file hashes to
it.
-/

namespace EdgeOrchestrator.Storage

def contentHash (primitives : Primitives) : Object → Hash
  | .blob blob => hashBlob primitives blob.data
  | .tree tree => hashTree primitives tree.entries
  | .commit commit => hashCommit primitives commit.treeHash commit.parentHashes commit.author
      commit.timestamp commit.message
  | .tag tag => hashBlob primitives (tagJson { tag with hash := "" })

def Object.IsBlobOrTree : Object → Prop
  | .blob _ | .tree _ => True
  | .commit _ | .tag _ => False

namespace LocalObjectStore

/-- The file of the hash is there and decodes to the object. -/
def HoldsAt (primitives : Primitives) (store : LocalObjectStore) (hash : Hash)
    (object : Object) : Prop :=
  ∃ bytes, store.HoldsFile primitives hash bytes ∧ Decodes primitives bytes object

/-- The file of the hash is there and decodes to no object. -/
def HoldsGarbageAt (primitives : Primitives) (store : LocalObjectStore) (hash : Hash) : Prop :=
  ∃ bytes, store.HoldsFile primitives hash bytes ∧ ∀ object, ¬ Decodes primitives bytes object

/-- The reads of a hash return only content with that hash. Other content is reported as a
mismatch, and a file that does not decode as an error. -/
structure VerifiesReads (primitives : Primitives) (store : LocalObjectStore) (hash : Hash) :
    Prop where
  blob : ∀ data, store.getBlob primitives hash = .ok data → hashBlob primitives data = hash
  tree : ∀ entries, store.getTree primitives hash = .ok entries →
    hashTree primitives entries = hash
  altered : ∀ object, store.HoldsAt primitives hash object → contentHash primitives object ≠ hash →
    (∃ computed, store.getBlob primitives hash = .err (.hashMismatch hash computed)) ∧
      ∃ computed, store.getTree primitives hash = .err (.hashMismatch hash computed)
  garbage : store.HoldsGarbageAt primitives hash →
    ∃ error, store.getBlob primitives hash = .err error ∧
      store.getTree primitives hash = .err error

/-- A blob or a tree that is stored with the hash in its hash field hashes to it. -/
def FieldsAreContentHashes (primitives : Primitives) (store : LocalObjectStore) (hash : Hash) :
    Prop :=
  ∀ object, store.HoldsAt primitives hash object → object.IsBlobOrTree → object.hash = hash →
    contentHash primitives object = hash

variable {primitives : Primitives} {store : LocalObjectStore} {hash : Hash} {object : Object}

/-- What is read is held at the hash and carries it. -/
theorem readObject_eq_ok_iff_holdsAt :
    store.readObject primitives hash = .ok object ↔
      store.HoldsAt primitives hash object ∧ object.hash = hash := by
  rw [readObject_eq_ok_iff]
  constructor
  · intro hread
    obtain ⟨bytes, hfile, hdecodes, hhash⟩ := hread
    exact ⟨⟨bytes, hfile, hdecodes⟩, hhash⟩
  · intro hread
    obtain ⟨⟨bytes, hfile, hdecodes⟩, hhash⟩ := hread
    exact ⟨bytes, hfile, hdecodes, hhash⟩

/-- A hash field that is not the hash asked for is reported. -/
theorem readObject_of_hash_ne (hholds : store.HoldsAt primitives hash object)
    (hne : object.hash ≠ hash) :
    store.readObject primitives hash = .err (.hashMismatch hash object.hash) := by
  obtain ⟨bytes, hfile, serialized, hdecompress, hdeserialize⟩ := hholds
  obtain ⟨path, hread⟩ := readObject_of_holdsFile hfile
  simp only [hread, decodeObject, hdecompress, hdeserialize, if_neg hne]

/-- A file that does not decode is reported. -/
theorem readObject_of_garbage (hgarbage : store.HoldsGarbageAt primitives hash) :
    ∃ error, store.readObject primitives hash = .err error := by
  obtain ⟨bytes, hfile, hnone⟩ := hgarbage
  obtain ⟨path, hread⟩ := readObject_of_holdsFile hfile
  rw [hread]
  unfold decodeObject
  cases hdecompress : primitives.decompress bytes with
  | error error => exact ⟨_, rfl⟩
  | ok serialized =>
    cases hdeserialize : primitives.deserialize serialized with
    | error error => exact ⟨_, by simp only [hdeserialize]; rfl⟩
    | ok object => exact absurd ⟨serialized, hdecompress, hdeserialize⟩ (hnone object)

theorem getBlob_eq_ok_iff_readObject {data : Bytes} :
    store.getBlob primitives hash = .ok data ↔
      store.readObject primitives hash = .ok (.blob ⟨hash, data⟩) := by
  rw [getBlob_eq_ok_iff, readObject_eq_ok_iff]
  simp [Object.hash]

/-- Content that does not have the hash is reported where no hash field hides it. -/
theorem mismatch_of_altered (hfields : store.FieldsAreContentHashes primitives hash)
    (hholds : store.HoldsAt primitives hash object)
    (haltered : contentHash primitives object ≠ hash) :
    (∃ computed, store.getBlob primitives hash = .err (.hashMismatch hash computed)) ∧
      ∃ computed, store.getTree primitives hash = .err (.hashMismatch hash computed) := by
  by_cases hhash : object.hash = hash
  · have hread := readObject_eq_ok_iff_holdsAt.mpr ⟨hholds, hhash⟩
    cases object with
    | blob blob => exact absurd (hfields _ hholds trivial hhash) haltered
    | tree tree => exact absurd (hfields _ hholds trivial hhash) haltered
    | commit commit => exact ⟨⟨_, by rw [getBlob, hread]; rfl⟩, _, by rw [getTree, hread]⟩
    | tag tag => exact ⟨⟨_, by rw [getBlob, hread]; rfl⟩, _, by rw [getTree, hread]⟩
  · have hread := readObject_of_hash_ne hholds hhash
    exact ⟨⟨_, by rw [getBlob, hread]; rfl⟩, _, by rw [getTree, hread]⟩

/-- Reads of a hash verify their content exactly when a blob or a tree that carries the hash in the
file of the hash hashes to it. -/
theorem verifiesReads_iff (primitives : Primitives) (store : LocalObjectStore) (hash : Hash) :
    store.VerifiesReads primitives hash ↔ store.FieldsAreContentHashes primitives hash := by
  constructor
  · intro hverifies object hholds hkind hhash
    have hread := readObject_eq_ok_iff_holdsAt.mpr ⟨hholds, hhash⟩
    cases object with
    | blob blob =>
      apply hverifies.blob
      rw [getBlob, hread]
      rfl
    | tree tree =>
      apply hverifies.tree
      rw [getTree, hread]
    | commit commit => cases hkind
    | tag tag => cases hkind
  · intro hfields
    refine ⟨fun data hget ↦ ?_, fun entries hget ↦ ?_, fun object ↦ mismatch_of_altered hfields,
      fun hgarbage ↦ ?_⟩
    · have hheld := readObject_eq_ok_iff_holdsAt.mp (getBlob_eq_ok_iff_readObject.mp hget)
      exact hfields _ hheld.1 trivial rfl
    · have hheld := readObject_eq_ok_iff_holdsAt.mp (getTree_eq_ok_iff.mp hget)
      exact hfields _ hheld.1 trivial rfl
    · obtain ⟨error, hread⟩ := readObject_of_garbage hgarbage
      exact ⟨error, by rw [getBlob, hread]; rfl, by rw [getTree, hread]⟩

end LocalObjectStore

/-! ## An altered file -/

/-- The SHA-256 digest of the blob `!` with its header. -/
def bangDigest : Bytes :=
  [0x65, 0x6a, 0xa4, 0xbe, 0x34, 0x10, 0xe6, 0xaa, 0x71, 0x5f, 0x51, 0xf9, 0x16, 0x15, 0x37,
   0xf5, 0x5e, 0xea, 0x46, 0x36, 0x0c, 0x4c, 0x9b, 0x11, 0xca, 0xf1, 0x35, 0xa3, 0x01, 0xe5,
   0x58, 0x6d]

/-- A blob with the hash of the empty blob and the content `!`. -/
def alteredForm : ObjectForm where
  object := .blob ⟨hexEncode emptyBlobDigest, [0x21]⟩
  json := utf8 ("\x7b\"Blob\":\x7b\"hash\":\"" ++ hexEncode emptyBlobDigest ++
    "\",\"data\":[33]\x7d\x7d")
  zlib :=
    [0x78, 0x9c, 0x05, 0xc1, 0x31, 0x0e, 0x84, 0x20, 0x10, 0x05, 0xd0, 0xbb, 0x4c, 0x6d, 0xc1,
     0xe7, 0xcf, 0x32, 0x40, 0xe9, 0x35, 0xcc, 0x16, 0x83, 0x40, 0x2c, 0x4c, 0xb6, 0x58, 0x3b,
     0xe3, 0xdd, 0x7d, 0xef, 0x96, 0xf5, 0xfc, 0x35, 0xa9, 0xb7, 0x1c, 0xfe, 0x3f, 0xa4, 0x8a,
     0x1a, 0x3d, 0x4c, 0xdd, 0xd9, 0x46, 0xf6, 0xc2, 0x94, 0xe1, 0x31, 0xd9, 0x60, 0xc3, 0x28,
     0x6e, 0x7d, 0xef, 0x0e, 0xe4, 0x8f, 0x32, 0xcd, 0x01, 0xc5, 0x34, 0xd3, 0x82, 0x18, 0x9c,
     0x81, 0x16, 0x91, 0x41, 0x59, 0xa4, 0xfb, 0xe5, 0x52, 0x37, 0xf2, 0xfb, 0x3c, 0x2f, 0x17,
     0x4e, 0x1a, 0x3b]

theorem length_bangDigest : bangDigest.length = 32 := rfl

/-- The third-party functions tabulated on the altered blob. -/
def alteredTabulated : Primitives :=
  .ofForms [⟨withHeader "blob" [0x21], bangDigest, length_bangDigest⟩] [alteredForm]

/-- A store in which the file of the empty blob was replaced by an altered one. -/
def alteredStore : LocalObjectStore where
  root := []
  disk := (∅ : Disk).insert (digestPath [] (hexEncode emptyBlobDigest)) (.file alteredForm.zlib)

theorem sha256_bang : alteredTabulated.sha256 (withHeader "blob" [0x21]) = bangDigest := by
  unfold alteredTabulated
  exact sha256_single_digest ⟨_, bangDigest, length_bangDigest⟩

theorem hashBlob_bang : hashBlob alteredTabulated [0x21] = hexEncode bangDigest :=
  congrArg hexEncode sha256_bang

/-- The file of the empty blob is read as the altered blob. -/
theorem holdsAt_altered :
    alteredStore.HoldsAt alteredTabulated (hexEncode emptyBlobDigest) alteredForm.object := by
  have hroundTrip : RoundTrips alteredTabulated alteredForm.object :=
    roundTrips_single_form alteredForm
  have hzlib : storedForm alteredTabulated alteredForm.object = alteredForm.zlib :=
    storedForm_single_form alteredForm
  rw [RoundTrips, hzlib] at hroundTrip
  have hfile : alteredStore.HoldsFile alteredTabulated (hexEncode emptyBlobDigest)
      alteredForm.zlib :=
    (LocalObjectStore.holdsFile_iff_of_isDigest ⟨emptyBlobDigest, rfl, rfl⟩).mpr
      (Finmap.lookup_insert _)
  exact ⟨_, hfile, hroundTrip⟩

/-- The altered content is returned under the hash of the empty blob. -/
theorem altered_blob_is_returned :
    ¬ ∀ (primitives : Primitives) (store : LocalObjectStore) (hash : Hash),
      store.VerifiesReads primitives hash := by
  intro hgeneral
  have hverifies := hgeneral alteredTabulated alteredStore (hexEncode emptyBlobDigest)
  have hread := LocalObjectStore.readObject_eq_ok_iff_holdsAt.mpr ⟨holdsAt_altered, rfl⟩
  have hhash := hverifies.blob [0x21] (LocalObjectStore.getBlob_eq_ok_iff_readObject.mpr hread)
  rw [hashBlob_bang] at hhash
  exact absurd (hexEncode_injective hhash) (by decide)

end EdgeOrchestrator.Storage

import EdgeOrchestrator.Foundation.Places
import EdgeOrchestrator.Storage.Objects
import Mathlib.Data.List.Infix

/-!
# The local object store

Objects live in one file each, at a path made of the first two bytes of the hash and the rest of
it. The path goes to the system as it is written, and the system resolves it: `.` and `..` take a
directory to start from. A write is skipped when its path exists; otherwise it makes the parent
directories, creates the file and writes the compressed object. Each of the three steps may fail:
directories made before the failure stay, and a failed write leaves a prefix of the bytes behind.
-/

namespace EdgeOrchestrator.Storage

open StackWalk

inductive FileNode
  | file (bytes : Bytes)
  | directory
  deriving DecidableEq, Repr

abbrev Disk := HashMap Path FileNode

/-! ## Paths and where they lead -/

/-- What a component does to a path; empty and `.` components do nothing. -/
def componentMove (component : List Char) : Option (StackMove (List Char)) :=
  if component = [] ∨ component = ['.'] then none
  else if component = ['.', '.'] then some .pop
  else some (.push component)

def IsAbsolute (text : List Char) : Prop := text.head? = some '/'

instance (text : List Char) : Decidable (IsAbsolute text) :=
  inferInstanceAs (Decidable (_ = _))

/-- A path as the system gets it: the directory it starts from, and the components behind it as
they are written. -/
structure RawPath where
  start : Path
  components : List (List Char)
  deriving DecidableEq, Repr

namespace RawPath

/-- `Path::join`: an absolute text replaces the base, and a base that ends with a slash gets no
second one. -/
def join (base : RawPath) (text : List Char) : RawPath :=
  if IsAbsolute text then ⟨[], (text.splitOn '/').tail⟩
  else if base.components.getLast? = some [] then
    ⟨base.start, base.components.dropLast ++ text.splitOn '/'⟩
  else ⟨base.start, base.components ++ text.splitOn '/'⟩

def steps (path : RawPath) : List (Option (StackMove (List Char))) :=
  path.components.map componentMove

/-- All components of the path, as it is written. -/
def whole (path : RawPath) : Path := path.start ++ path.components

end RawPath

/-- Text of a path in an error message. -/
def displayPath (path : Path) : String :=
  String.ofList (path.flatMap fun component ↦ '/' :: component)

/-- The places of a host, and what lies at them. -/
structure FileTree where
  places : Places (List Char)
  node : places.Place → Option FileNode

namespace FileTree

/-- The place a path leads to. The components behind its start are resolved by the system. -/
def locate (tree : FileTree) (path : RawPath) : Option tree.places.Place :=
  tree.places.reach (fun place ↦ tree.node place = some .directory)
    (tree.places.descend tree.places.top path.start) path.steps

/-- `Path::exists`. -/
def existsAt (tree : FileTree) (path : RawPath) : Bool :=
  ((tree.locate path).bind tree.node).isSome

end FileTree

/-- `str::split_at`: `none` is the panic of an offset that is out of range or inside a character. -/
def splitAt : List Char → ℕ → Option (List Char × List Char)
  | text, 0 => some ([], text)
  | [], _ + 1 => none
  | char :: rest, offset + 1 =>
    if char.utf8Size ≤ offset + 1 then
      (splitAt rest (offset + 1 - char.utf8Size)).map fun halves ↦ (char :: halves.1, halves.2)
    else none

theorem splitAt_two_of_ascii {first second : Char} (rest : List Char)
    (hfirst : first.utf8Size = 1) (hsecond : second.utf8Size = 1) :
    splitAt (first :: second :: rest) 2 = some ([first, second], rest) := by
  simp [splitAt, hfirst, hsecond]

/-- A store rooted at a directory of the disk. -/
structure LocalObjectStore where
  root : Path
  disk : Disk

/-- Failure of one of the file-system calls of a write. -/
inductive WriteFault
  | mkdir (made : ℕ) (error : String)
  | create (error : String)
  | write (written : ℕ) (error : String)
  deriving DecidableEq, Repr

/-- Every path of the list that is missing becomes a directory. -/
def createDirs (disk : Disk) (paths : List Path) : Disk :=
  paths.foldl (fun disk ancestor ↦
    if ancestor ∈ disk then disk else disk.insert ancestor .directory) disk

/-- `fs::create_dir_all`: every ancestor that is missing becomes a directory. -/
def createDirAll (disk : Disk) (path : Path) : Disk := createDirs disk path.inits

/-- What becomes of the bytes of a file: they are decompressed, decoded, and the hash field of the
object is compared with the hash asked for. -/
def decodeObject (primitives : Primitives) (path : Path) (hash : Hash) (compressed : Bytes) :
    Outcome CoreError Object :=
  match primitives.decompress compressed with
  | .error error => .err (.storageIo ("decompress " ++ displayPath path ++ ": " ++ error))
  | .ok serialized =>
    match primitives.deserialize serialized with
    | .error error => .err (.serialization ("deserialize " ++ displayPath path ++ ": " ++ error))
    | .ok object =>
      if object.hash = hash then .ok object else .err (.hashMismatch hash object.hash)

/-- `read_object` behind the computation of the path. A file that is endless is read forever. -/
def FileTree.readAt (primitives : Primitives) (tree : FileTree)
    (endless : tree.places.Place → Bool) (path : RawPath) (hash : Hash) :
    Outcome CoreError Object :=
  match tree.locate path with
  | none => .err (.objectNotFound hash)
  | some place =>
    match tree.node place with
    | none => .err (.objectNotFound hash)
    | some .directory =>
      .err (.storageIo ("read " ++ displayPath path.whole ++ ": Is a directory (os error 21)"))
    | some (.file compressed) =>
      if endless place then .lost .endlessRead
      else decodeObject primitives path.whole hash compressed

theorem FileTree.readAt_of_file {primitives : Primitives} {tree : FileTree}
    {endless : tree.places.Place → Bool} {path : RawPath} {hash : Hash}
    {place : tree.places.Place} {compressed : Bytes} (hplace : tree.locate path = some place)
    (hfile : tree.node place = some (.file compressed)) (hends : endless place = false) :
    tree.readAt primitives endless path hash =
      decodeObject primitives path.whole hash compressed := by
  simp only [readAt, hplace, hfile, hends, Bool.false_eq_true, if_false]

theorem FileTree.readAt_of_endless {primitives : Primitives} {tree : FileTree}
    {endless : tree.places.Place → Bool} {path : RawPath} {hash : Hash}
    {place : tree.places.Place} {compressed : Bytes} (hplace : tree.locate path = some place)
    (hfile : tree.node place = some (.file compressed)) (hendless : endless place = true) :
    tree.readAt primitives endless path hash = .lost .endlessRead := by
  simp only [readAt, hplace, hfile, hendless, if_true]

theorem FileTree.readAt_of_missing {primitives : Primitives} {tree : FileTree}
    {endless : tree.places.Place → Bool} {path : RawPath} {hash : Hash}
    {place : tree.places.Place} (hplace : tree.locate path = some place)
    (hmissing : tree.node place = none) :
    tree.readAt primitives endless path hash = .err (.objectNotFound hash) := by
  simp only [readAt, hplace, hmissing]

/-- `get_blob` on what was read. -/
def blobOf (primitives : Primitives) (hash : Hash) : Outcome CoreError Object →
    Outcome CoreError Bytes
  | .ok (.blob blob) => .ok blob.data
  | .ok other => .err (.hashMismatch hash ("expected Blob, got " ++ primitives.debug other))
  | .err error => .err error
  | .lost loss => .lost loss

namespace LocalObjectStore

/-- Path of an object, or `none` when the split of the hash panics. -/
def objectPath (store : LocalObjectStore) (hash : Hash) : Option RawPath :=
  (splitAt hash.toList 2).map fun halves ↦
    ((RawPath.mk store.root []).join halves.1).join halves.2

def splitPanic : String := "failed to slice string"

/-- The disk as a tree without links. -/
abbrev tree (store : LocalObjectStore) : FileTree where
  places := .lexical (List Char)
  node place := if place = [] then some .directory else store.disk.lookup place

/-- Below the root there are the files of the store alone, and all of them end. -/
def isEndless (primitives : Primitives) (store : LocalObjectStore) (place : Path) : Bool :=
  primitives.endless place && !store.root.isPrefixOf place

def existsAt (store : LocalObjectStore) (path : RawPath) : Bool := store.tree.existsAt path

/-- `LocalObjectStore::exists`. -/
def objectExists (store : LocalObjectStore) (hash : Hash) : Outcome CoreError Bool :=
  match store.objectPath hash with
  | none => .lost (.panic splitPanic)
  | some path => .ok (store.existsAt path)

/-- `write_object` behind the existence check, with the fault its file-system calls meet, if any.
`File::create` empties a file that is there. -/
def createObject (primitives : Primitives) (fault : Option WriteFault) (store : LocalObjectStore)
    (object : Object) (path : Path) : Outcome CoreError Unit × LocalObjectStore :=
  let parent := path.dropLast
  let made := createDirAll store.disk parent
  let compressed := primitives.compress (primitives.serialize object)
  match fault with
  | some (.mkdir made error) =>
    (.err (.storageIo ("mkdir " ++ displayPath parent ++ ": " ++ error)),
      { store with disk := createDirs store.disk (parent.inits.take made) })
  | some (.create error) =>
    (.err (.storageIo ("create " ++ displayPath path ++ ": " ++ error)),
      { store with disk := made })
  | some (.write written error) =>
    (.err (.storageIo ("write " ++ displayPath path ++ ": " ++ error)),
      { store with disk := made.insert path (.file (compressed.take written)) })
  | none => (.ok (), { store with disk := made.insert path (.file compressed) })

def writeObject (primitives : Primitives) (fault : Option WriteFault) (store : LocalObjectStore)
    (object : Object) (hash : Hash) : Outcome CoreError Unit × LocalObjectStore :=
  match store.objectPath hash with
  | none => (.lost (.panic splitPanic), store)
  | some path =>
    if store.existsAt path then (.ok (), store)
    else store.createObject primitives fault object path.whole

def readObject (primitives : Primitives) (store : LocalObjectStore) (hash : Hash) :
    Outcome CoreError Object :=
  match store.objectPath hash with
  | none => .lost (.panic splitPanic)
  | some path => store.tree.readAt primitives (store.isEndless primitives) path hash

def putBlob (primitives : Primitives) (fault : Option WriteFault) (store : LocalObjectStore)
    (data : Bytes) : Outcome CoreError Hash × LocalObjectStore :=
  let hash := hashBlob primitives data
  match store.writeObject primitives fault (.blob ⟨hash, data⟩) hash with
  | (.ok _, written) => (.ok hash, written)
  | (.err error, written) => (.err error, written)
  | (.lost loss, written) => (.lost loss, written)

def getBlob (primitives : Primitives) (store : LocalObjectStore) (hash : Hash) :
    Outcome CoreError Bytes :=
  blobOf primitives hash (store.readObject primitives hash)

def getTree (primitives : Primitives) (store : LocalObjectStore) (hash : Hash) :
    Outcome CoreError (List TreeEntry) :=
  match store.readObject primitives hash with
  | .ok (.tree tree) => .ok tree.entries
  | .ok other => .err (.hashMismatch hash ("expected Tree, got " ++ primitives.debug other))
  | .err error => .err error
  | .lost loss => .lost loss

def getCommit (primitives : Primitives) (store : LocalObjectStore) (hash : Hash) :
    Outcome CoreError Commit :=
  match store.readObject primitives hash with
  | .ok (.commit commit) => .ok commit
  | .ok other => .err (.hashMismatch hash ("expected Commit, got " ++ primitives.debug other))
  | .err error => .err error
  | .lost loss => .lost loss

/-- Write an object and return the hash it is stored under. -/
def putObject (primitives : Primitives) (fault : Option WriteFault) (store : LocalObjectStore)
    (object : Object) (hash : Hash) : Outcome CoreError Hash × LocalObjectStore :=
  match store.writeObject primitives fault object hash with
  | (.ok _, written) => (.ok hash, written)
  | (.err error, written) => (.err error, written)
  | (.lost loss, written) => (.lost loss, written)

def putTree (primitives : Primitives) (fault : Option WriteFault) (store : LocalObjectStore)
    (entries : List TreeEntry) : Outcome CoreError Hash × LocalObjectStore :=
  let hash := hashTree primitives entries
  store.putObject primitives fault (.tree ⟨hash, entries⟩) hash

/-- `LocalObjectStore::commit`, called at a time. -/
def commit (primitives : Primitives) (fault : Option WriteFault) (store : LocalObjectStore)
    (now : DateTime) (treeHash : Hash) (parentHashes : List Hash) (author message : String) :
    Outcome CoreError Hash × LocalObjectStore :=
  let hash := hashCommit primitives treeHash parentHashes author now message
  store.putObject primitives fault
    (.commit ⟨hash, treeHash, parentHashes, author, now, message⟩) hash

/-- `LocalObjectStore::put_tag`: the hash is that of the JSON form of the tag, taken as a blob. -/
def putTag (primitives : Primitives) (fault : Option WriteFault) (store : LocalObjectStore)
    (commitHash : Hash) (name : String) (message : Option String) :
    Outcome CoreError Hash × LocalObjectStore :=
  let hash := hashBlob primitives (tagJson ⟨"", commitHash, name, message⟩)
  store.putObject primitives fault (.tag ⟨hash, commitHash, name, message⟩) hash

/-- A write of these bytes meets a fault that strikes: the object is not there yet. -/
def WriteFails (primitives : Primitives) (fault : Option WriteFault) (store : LocalObjectStore)
    (data : Bytes) : Prop :=
  fault.isSome ∧ store.objectExists (hashBlob primitives data) ≠ .ok true

instance (primitives : Primitives) (fault : Option WriteFault) (store : LocalObjectStore)
    (data : Bytes) : Decidable (store.WriteFails primitives fault data) :=
  inferInstanceAs (Decidable (_ ∧ _))

/-- The hash computed for a blob always splits, so its path exists. -/
theorem objectPath_hashBlob (primitives : Primitives) (store : LocalObjectStore) (data : Bytes) :
    ∃ path, store.objectPath (hashBlob primitives data) = some path := by
  have hdigest : ∃ first rest, primitives.sha256
      (utf8 ("blob " ++ toString data.length ++ "\x00") ++ data) = first :: rest := by
    apply List.exists_cons_of_length_pos
    rw [primitives.sha256_length]
    decide
  rcases hdigest with ⟨first, rest, hdigest⟩
  have hchars : (hashBlob primitives data).toList =
      hexDigit (first.toNat / 16 ^ 1 % 16) :: hexDigit (first.toNat / 16 ^ 0 % 16) ::
        rest.flatMap fun byte ↦ hexNibbles byte.toNat 2 := by
    simp only [hashBlob, hdigest, hexEncode, List.flatMap_cons, hexNibbles, String.toList_ofList,
      List.cons_append, List.nil_append]
  have hsplit := splitAt_two_of_ascii (rest.flatMap fun byte ↦ hexNibbles byte.toNat 2)
    (hexDigit_utf8Size (Nat.mod_lt (first.toNat / 16 ^ 1) (by decide : 16 > 0)))
    (hexDigit_utf8Size (Nat.mod_lt (first.toNat / 16 ^ 0) (by decide : 16 > 0)))
  exact ⟨_, by rw [objectPath, hchars, hsplit]; rfl⟩

/-- What a blob write returns: the hash, unless a fault strikes. It never panics. -/
theorem putBlob_fst (primitives : Primitives) (fault : Option WriteFault)
    (store : LocalObjectStore) (data : Bytes) :
    (store.putBlob primitives fault data).1 = .ok (hashBlob primitives data) ∧
        ¬ store.WriteFails primitives fault data ∨
      (∃ error, (store.putBlob primitives fault data).1 = .err error) ∧
        store.WriteFails primitives fault data := by
  rcases store.objectPath_hashBlob primitives data with ⟨path, hpath⟩
  by_cases hpresent : store.existsAt path
  · left
    simp [putBlob, writeObject, WriteFails, objectExists, hpath, hpresent]
  · cases fault with
    | none => simp [putBlob, writeObject, createObject, WriteFails, hpath, hpresent]
    | some fault =>
      right
      cases fault <;>
        simp [putBlob, writeObject, createObject, WriteFails, objectExists, hpath, hpresent]

theorem putBlob_of_not_fails {primitives : Primitives} {fault : Option WriteFault}
    {store : LocalObjectStore} {data : Bytes} (hwrite : ¬ store.WriteFails primitives fault data) :
    store.putBlob primitives fault data =
      (.ok (hashBlob primitives data), (store.putBlob primitives fault data).2) := by
  rcases store.putBlob_fst primitives fault data with ⟨hok, -⟩ | ⟨-, hfails⟩
  · rw [← hok]
  · exact absurd hfails hwrite

theorem putBlob_of_fails {primitives : Primitives} {fault : Option WriteFault}
    {store : LocalObjectStore} {data : Bytes} (hfails : store.WriteFails primitives fault data) :
    ∃ error, store.putBlob primitives fault data =
      (.err error, (store.putBlob primitives fault data).2) := by
  rcases store.putBlob_fst primitives fault data with ⟨-, hwrite⟩ | ⟨⟨error, herror⟩, -⟩
  · exact absurd hfails hwrite
  · exact ⟨error, by rw [← herror]⟩

/-- The hash leads to a file that is read forever. -/
def ReadsForever (primitives : Primitives) (store : LocalObjectStore) (hash : Hash) : Prop :=
  ∃ path place bytes, store.objectPath hash = some path ∧
    store.tree.locate path = some place ∧ store.tree.node place = some (.file bytes) ∧
    store.isEndless primitives place = true

section Returns

variable {primitives : Primitives} {store : LocalObjectStore} {hash : Hash}

theorem decodeObject_returns (path : Path) (compressed : Bytes) :
    (decodeObject primitives path hash compressed).Returns := by
  rw [decodeObject]
  split
  · exact Outcome.returns_err _
  · split
    · exact Outcome.returns_err _
    · split_ifs
      · exact Outcome.returns_ok _
      · exact Outcome.returns_err _

theorem readObject_returns (hpath : store.objectPath hash ≠ none)
    (hends : ¬ store.ReadsForever primitives hash) :
    (store.readObject primitives hash).Returns := by
  obtain ⟨path, hpath⟩ := Option.ne_none_iff_exists'.mp hpath
  rw [readObject, hpath]
  dsimp only
  rw [FileTree.readAt]
  split
  · exact Outcome.returns_err _
  · rename_i place hplace
    split
    · exact Outcome.returns_err _
    · exact Outcome.returns_err _
    · rename_i bytes hbytes
      split_ifs with hendless
      · exact absurd ⟨path, place, bytes, hpath, hplace, hbytes, hendless⟩ hends
      · exact decodeObject_returns _ _

theorem getBlob_of_readsForever (hforever : store.ReadsForever primitives hash) :
    store.getBlob primitives hash = .lost .endlessRead := by
  obtain ⟨path, place, bytes, hpath, hplace, hbytes, hendless⟩ := hforever
  rw [getBlob, readObject, hpath]
  dsimp only
  rw [FileTree.readAt_of_endless hplace hbytes hendless]
  rfl

theorem blobOf_returns {read : Outcome CoreError Object} (hread : read.Returns) :
    (blobOf primitives hash read).Returns := by
  unfold blobOf
  split
  · exact Outcome.returns_ok _
  · exact Outcome.returns_err _
  · exact Outcome.returns_err _
  · exact absurd rfl (hread _)

theorem getBlob_returns (hpath : store.objectPath hash ≠ none)
    (hends : ¬ store.ReadsForever primitives hash) : (store.getBlob primitives hash).Returns :=
  blobOf_returns (readObject_returns hpath hends)

theorem objectExists_returns (hpath : store.objectPath hash ≠ none) :
    (store.objectExists hash).Returns := by
  obtain ⟨path, hpath⟩ := Option.ne_none_iff_exists'.mp hpath
  rw [objectExists, hpath]
  exact Outcome.returns_ok _

end Returns

/-- Without a fault no write fails. -/
theorem not_writeFails_none (primitives : Primitives) (store : LocalObjectStore) (data : Bytes) :
    ¬ store.WriteFails primitives none data := by
  intro hfails
  cases hfails.1

theorem node_eq_file_iff {store : LocalObjectStore} {place : Path} {bytes : Bytes} :
    store.tree.node place = some (.file bytes) ↔
      place ≠ [] ∧ store.disk.lookup place = some (.file bytes) := by
  show (if place = [] then some .directory else store.disk.lookup place) = _ ↔ _
  split_ifs with htop
  · simp [htop]
  · simp [htop]

theorem locate_eq_reach (store : LocalObjectStore) (path : RawPath) :
    store.tree.locate path = (Places.lexical (List Char)).reach
      (fun place ↦ store.tree.node place = some .directory) path.start path.steps := by
  rw [FileTree.locate, Places.lexical_descend]
  rfl

end LocalObjectStore

/-! ## Files and the objects in them -/

def storedForm (primitives : Primitives) (object : Object) : Bytes :=
  primitives.compress (primitives.serialize object)

/-- A file with these bytes is read as the object. -/
def Decodes (primitives : Primitives) (bytes : Bytes) (object : Object) : Prop :=
  ∃ serialized, primitives.decompress bytes = .ok serialized ∧
    primitives.deserialize serialized = .ok object

/-- What is written for the object is read back as the object. -/
def RoundTrips (primitives : Primitives) (object : Object) : Prop :=
  Decodes primitives (storedForm primitives object) object

theorem roundTrips_of_forms {primitives : Primitives} {object : Object}
    {serialized compressed : Bytes} (hserialize : primitives.serialize object = serialized)
    (hcompress : primitives.compress serialized = compressed)
    (hdecompress : primitives.decompress compressed = .ok serialized)
    (hdeserialize : primitives.deserialize serialized = .ok object) :
    RoundTrips primitives object := by
  rw [RoundTrips, storedForm, hserialize, hcompress]
  exact ⟨serialized, hdecompress, hdeserialize⟩

/-- An object with its JSON form and the zlib stream of that form. -/
structure ObjectForm where
  object : Object
  json : Bytes
  zlib : Bytes

/-- Some input with its SHA-256 digest. -/
structure DigestForm where
  hashed : Bytes
  digest : Bytes
  length_digest : digest.length = 32

/-- The third-party functions tabulated on some digests and on the forms of some objects. -/
def Primitives.ofForms (digests : List DigestForm) (forms : List ObjectForm) : Primitives where
  sha256 input :=
    ((digests.find? fun form ↦ form.hashed = input).map DigestForm.digest).getD
      (List.replicate 32 0)
  sha256_length := by
    intro input
    cases digests.find? fun form ↦ form.hashed = input with
    | none => exact List.length_replicate
    | some form => exact form.length_digest
  compress input := ((forms.find? fun form ↦ form.json = input).map ObjectForm.zlib).getD input
  decompress input :=
    match forms.find? fun form ↦ form.zlib = input with
    | some form => .ok form.json
    | none => .error "corrupt deflate stream"
  serialize object := ((forms.find? fun form ↦ form.object = object).map ObjectForm.json).getD []
  deserialize input :=
    match forms.find? fun form ↦ form.json = input with
    | some form => .ok form.object
    | none => .error "expected value at line 1 column 1"
  debug _ := "Object"

/-- The entry of a table that has no key twice is found by its key. -/
theorem find?_of_mem {Entry Key : Type} [DecidableEq Key] {key : Entry → Key}
    {table : List Entry} (hnodup : (table.map key).Nodup) {entry : Entry} (hmem : entry ∈ table) :
    table.find? (fun other ↦ key other = key entry) = some entry := by
  cases hfind : table.find? fun other ↦ key other = key entry with
  | none =>
    have hne := List.find?_eq_none.mp hfind entry hmem
    simp at hne
  | some found =>
    have hkey := List.find?_some hfind
    rw [decide_eq_true_eq] at hkey
    rw [List.inj_on_of_nodup_map hnodup (List.mem_of_find?_eq_some hfind) hmem hkey]

section Forms

variable {digests : List DigestForm} {forms : List ObjectForm}

theorem sha256_of_mem_digests (hhashed : (digests.map DigestForm.hashed).Nodup) {form : DigestForm}
    (hmem : form ∈ digests) :
    (Primitives.ofForms digests forms).sha256 form.hashed = form.digest := by
  simp only [Primitives.ofForms, find?_of_mem hhashed hmem, Option.map_some, Option.getD_some]

/-- A tabulated object is stored as its zlib stream when no object and no form is listed twice. -/
theorem storedForm_of_mem_forms (hobject : (forms.map ObjectForm.object).Nodup)
    (hjson : (forms.map ObjectForm.json).Nodup) {form : ObjectForm} (hmem : form ∈ forms) :
    storedForm (Primitives.ofForms digests forms) form.object = form.zlib := by
  simp only [storedForm, Primitives.ofForms, find?_of_mem hobject hmem, find?_of_mem hjson hmem,
    Option.map_some, Option.getD_some]

/-- A tabulated object round-trips when no object and no form is listed twice. -/
theorem roundTrips_of_mem_forms (hobject : (forms.map ObjectForm.object).Nodup)
    (hjson : (forms.map ObjectForm.json).Nodup) (hzlib : (forms.map ObjectForm.zlib).Nodup)
    {form : ObjectForm} (hmem : form ∈ forms) :
    RoundTrips (Primitives.ofForms digests forms) form.object := by
  rw [RoundTrips, storedForm_of_mem_forms hobject hjson hmem]
  refine ⟨form.json, ?_, ?_⟩
  · simp only [Primitives.ofForms, find?_of_mem hzlib hmem]
  · simp only [Primitives.ofForms, find?_of_mem hjson hmem]

theorem nodup_map_singleton {Entry Key : Type} (key : Entry → Key) (entry : Entry) :
    ([entry].map key).Nodup :=
  List.nodup_singleton (key entry)

theorem sha256_single_digest (form : DigestForm) :
    (Primitives.ofForms [form] forms).sha256 form.hashed = form.digest :=
  sha256_of_mem_digests (nodup_map_singleton _ form) (List.mem_singleton_self form)

theorem storedForm_single_form (form : ObjectForm) :
    storedForm (Primitives.ofForms digests [form]) form.object = form.zlib :=
  storedForm_of_mem_forms (nodup_map_singleton _ form) (nodup_map_singleton _ form)
    (List.mem_singleton_self form)

theorem roundTrips_single_form (form : ObjectForm) :
    RoundTrips (Primitives.ofForms digests [form]) form.object :=
  roundTrips_of_mem_forms (nodup_map_singleton _ form) (nodup_map_singleton _ form)
    (nodup_map_singleton _ form) (List.mem_singleton_self form)

end Forms

theorem Decodes.unique {primitives : Primitives} {bytes : Bytes} {first second : Object}
    (hfirst : Decodes primitives bytes first) (hsecond : Decodes primitives bytes second) :
    first = second := by
  obtain ⟨serialized, hdecompress, hdeserialize⟩ := hfirst
  obtain ⟨other, hother, hobject⟩ := hsecond
  rw [hdecompress, Except.ok.injEq] at hother
  rw [← hother, hdeserialize, Except.ok.injEq] at hobject
  exact hobject

theorem lookup_createDirs_of_mem {disk : Disk} {path : Path} (hpath : path ∈ disk)
    (paths : List Path) : (createDirs disk paths).lookup path = disk.lookup path := by
  induction paths generalizing disk with
  | nil => rfl
  | cons head rest ih =>
    rw [createDirs, List.foldl_cons, ← createDirs]
    split_ifs with hhead
    · exact ih hpath
    · have hne : path ≠ head := ne_of_mem_of_not_mem hpath hhead
      rw [ih (Finmap.mem_insert.mpr (Or.inr hpath)), Finmap.lookup_insert_of_ne _ hne]

theorem lookup_createDirs_of_notMem {disk : Disk} {paths : List Path} {path : Path}
    (hpath : path ∉ paths) : (createDirs disk paths).lookup path = disk.lookup path := by
  induction paths generalizing disk with
  | nil => rfl
  | cons head rest ih =>
    rw [List.mem_cons, not_or] at hpath
    rw [createDirs, List.foldl_cons, ← createDirs, ih hpath.2]
    split_ifs
    · rfl
    · exact Finmap.lookup_insert_of_ne _ hpath.1

theorem lookup_createDirs_of_missing {disk : Disk} {paths : List Path} {path : Path}
    (hmissing : path ∉ disk) (hpath : path ∈ paths) :
    (createDirs disk paths).lookup path = some .directory := by
  induction paths generalizing disk with
  | nil => cases hpath
  | cons head rest ih =>
    rw [createDirs, List.foldl_cons, ← createDirs]
    by_cases hsame : path = head
    · rw [← hsame, if_neg hmissing,
        lookup_createDirs_of_mem (Finmap.mem_insert.mpr (Or.inl rfl)), Finmap.lookup_insert]
    · have hrest : path ∈ rest := (List.mem_cons.mp hpath).resolve_left hsame
      split_ifs
      · exact ih hmissing hrest
      · apply ih _ hrest
        rw [Finmap.mem_insert, not_or]
        exact ⟨hsame, hmissing⟩

/-- Making directories adds nothing but directories, at the paths listed. -/
theorem lookup_createDirs {disk : Disk} {paths : List Path} {path : Path} {node : FileNode}
    (hlookup : (createDirs disk paths).lookup path = some node) :
    disk.lookup path = some node ∨ path ∈ paths ∧ node = .directory := by
  induction paths generalizing disk with
  | nil => exact Or.inl hlookup
  | cons head rest ih =>
    rw [createDirs, List.foldl_cons, ← createDirs] at hlookup
    rcases ih hlookup with hdisk | ⟨hmem, hnode⟩
    · split_ifs at hdisk with hhead
      · exact Or.inl hdisk
      · by_cases hpath : path = head
        · rw [hpath, Finmap.lookup_insert, Option.some.injEq] at hdisk
          exact Or.inr ⟨hpath ▸ List.mem_cons_self, hdisk.symm⟩
        · rw [Finmap.lookup_insert_of_ne _ hpath] at hdisk
          exact Or.inl hdisk
    · exact Or.inr ⟨List.mem_cons_of_mem head hmem, hnode⟩

namespace LocalObjectStore

variable {primitives : Primitives} {store : LocalObjectStore}

/-- The hash leads to a file with these bytes, and reading it ends. -/
def HoldsFile (primitives : Primitives) (store : LocalObjectStore) (hash : Hash)
    (bytes : Bytes) : Prop :=
  ∃ path place, store.objectPath hash = some path ∧ store.tree.locate path = some place ∧
    store.tree.node place = some (.file bytes) ∧ store.isEndless primitives place = false

/-- A file that is held is read, and its bytes are decoded. -/
theorem readObject_of_holdsFile {hash : Hash} {bytes : Bytes}
    (hfile : store.HoldsFile primitives hash bytes) :
    ∃ path, store.readObject primitives hash = decodeObject primitives path hash bytes := by
  obtain ⟨path, place, hpath, hplace, hbytes, hends⟩ := hfile
  refine ⟨path.whole, ?_⟩
  rw [readObject, hpath]
  exact FileTree.readAt_of_file hplace hbytes hends

theorem decodeObject_eq_ok_iff {path : Path} {hash : Hash} {compressed : Bytes} {object : Object} :
    decodeObject primitives path hash compressed = .ok object ↔
      Decodes primitives compressed object ∧ object.hash = hash := by
  constructor
  · intro hdecode
    unfold decodeObject at hdecode
    split at hdecode
    · cases hdecode
    · rename_i serialized hdecompress
      split at hdecode
      · cases hdecode
      · rename_i decoded hdeserialize
        split_ifs at hdecode with hhash
        rw [Outcome.ok.injEq] at hdecode
        rw [hdecode] at hdeserialize hhash
        exact ⟨⟨serialized, hdecompress, hdeserialize⟩, hhash⟩
  · rintro ⟨⟨serialized, hdecompress, hdeserialize⟩, hhash⟩
    simp only [decodeObject, hdecompress, hdeserialize, if_pos hhash]

/-- Reading succeeds exactly on a file that decodes to an object with the hash asked for. -/
theorem readObject_eq_ok_iff {hash : Hash} {object : Object} :
    store.readObject primitives hash = .ok object ↔
      ∃ bytes, store.HoldsFile primitives hash bytes ∧ Decodes primitives bytes object ∧
        object.hash = hash := by
  constructor
  · intro hread
    unfold readObject FileTree.readAt at hread
    split at hread
    · cases hread
    · rename_i path hpath
      split at hread
      · cases hread
      · rename_i place hplace
        split at hread
        · cases hread
        · cases hread
        · rename_i bytes hbytes
          split_ifs at hread with hendless
          rw [Bool.not_eq_true] at hendless
          have hdecode := decodeObject_eq_ok_iff.mp hread
          exact ⟨bytes, ⟨path, place, hpath, hplace, hbytes, hendless⟩, hdecode⟩
  · rintro ⟨bytes, hfile, hdecode⟩
    obtain ⟨path, hread⟩ := readObject_of_holdsFile hfile
    rw [hread]
    exact decodeObject_eq_ok_iff.mpr hdecode

/-- A blob is returned exactly from a file that decodes to a blob with the hash asked for. -/
theorem getBlob_eq_ok_iff {hash : Hash} {data : Bytes} :
    store.getBlob primitives hash = .ok data ↔
      ∃ bytes, store.HoldsFile primitives hash bytes ∧
        Decodes primitives bytes (.blob ⟨hash, data⟩) := by
  constructor
  · intro hget
    unfold getBlob blobOf at hget
    split at hget
    · rename_i blob hread
      obtain ⟨bytes, hfile, hdecodes, hhash⟩ := readObject_eq_ok_iff.mp hread
      rw [Outcome.ok.injEq] at hget
      rw [← hget, ← hhash]
      exact ⟨bytes, hhash ▸ hfile, hdecodes⟩
    · cases hget
    · cases hget
    · cases hget
  · rintro ⟨bytes, hfile, hdecodes⟩
    have hread := readObject_eq_ok_iff.mpr ⟨bytes, hfile, hdecodes, rfl⟩
    rw [getBlob, hread]
    rfl

/-- What is read carries the hash asked for. -/
theorem hash_of_readObject {hash : Hash} {object : Object}
    (hread : store.readObject primitives hash = .ok object) : object.hash = hash := by
  obtain ⟨bytes, -, -, hhash⟩ := readObject_eq_ok_iff.mp hread
  exact hhash

/-- The entries of a tree are returned exactly when the tree is read. -/
theorem getTree_eq_ok_iff {hash : Hash} {entries : List TreeEntry} :
    store.getTree primitives hash = .ok entries ↔
      store.readObject primitives hash = .ok (.tree ⟨hash, entries⟩) := by
  constructor
  · intro hget
    unfold getTree at hget
    split at hget
    · rename_i tree hread
      rw [Outcome.ok.injEq] at hget
      rw [hread, ← hget, ← hash_of_readObject hread]
      rfl
    all_goals cases hget
  · intro hread
    simp only [getTree, hread]

theorem getCommit_eq_ok_iff {hash : Hash} {commit : Commit} :
    store.getCommit primitives hash = .ok commit ↔
      store.readObject primitives hash = .ok (.commit commit) := by
  constructor
  · intro hget
    unfold getCommit at hget
    split at hget
    · rename_i read hread
      rw [hread, Outcome.ok.inj hget]
    all_goals cases hget
  · intro hread
    simp only [getCommit, hread]

theorem createObject_root (primitives : Primitives) (fault : Option WriteFault)
    (store : LocalObjectStore) (object : Object) (path : Path) :
    (store.createObject primitives fault object path).2.root = store.root := by
  unfold createObject
  split <;> rfl

/-- A write never moves the store. -/
theorem writeObject_root (primitives : Primitives) (fault : Option WriteFault)
    (store : LocalObjectStore) (object : Object) (hash : Hash) :
    (store.writeObject primitives fault object hash).2.root = store.root := by
  unfold writeObject
  split
  · rfl
  · split_ifs
    · rfl
    · exact store.createObject_root primitives fault object _

/-- Creating a file, failed or not, leaves everything else alone that was on the disk. -/
theorem createObject_lookup_of_ne (fault : Option WriteFault) (object : Object)
    {target path : Path} (hpath : path ∈ store.disk) (hne : path ≠ target) :
    (store.createObject primitives fault object target).2.disk.lookup path =
      store.disk.lookup path := by
  have hmade := lookup_createDirs_of_mem hpath target.dropLast.inits
  unfold createObject
  split
  · exact lookup_createDirs_of_mem hpath _
  · exact hmade
  · exact (Finmap.lookup_insert_of_ne _ hne).trans hmade
  · exact (Finmap.lookup_insert_of_ne _ hne).trans hmade

theorem putObject_snd (fault : Option WriteFault) (object : Object) (hash : Hash) :
    (store.putObject primitives fault object hash).2 =
      (store.writeObject primitives fault object hash).2 := by
  unfold putObject
  split
  all_goals
    rename_i hwrite
    rw [hwrite]

end LocalObjectStore

end EdgeOrchestrator.Storage

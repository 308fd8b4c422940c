import EdgeOrchestrator.Foundation.KeyedFold
import EdgeOrchestrator.Foundation.PackedBlocks
import EdgeOrchestrator.Storage.Store

/-!
# Packfiles

A packfile holds the data of its objects end to end. Its index is a JSON array of hashes with
offsets and lengths, written in the iteration order of a hash map. A hash that is appended again
takes the place of the earlier one in the index, and the earlier data stays in the pack unused.
`serde_json` is a parameter; a file-system call fails when the path asks for it or a fault says so.
-/

namespace EdgeOrchestrator.Storage

open PackedBlocks

/-! ## The index -/

structure IndexEntry where
  offset : ℕ
  length : ℕ
  hash : Hash
  deriving DecidableEq, Repr

structure PackIndex where
  entries : HashMap Hash IndexEntry

namespace PackIndex

def new : PackIndex := ⟨∅⟩

def insert (index : PackIndex) (entry : IndexEntry) : PackIndex :=
  ⟨index.entries.insert entry.hash entry⟩

def get (index : PackIndex) (hash : Hash) : Option IndexEntry := index.entries.lookup hash

/-- The entries in the order in which the map is read. -/
def iter (index : PackIndex) (order : IterationOrder index.entries) : List IndexEntry :=
  order.entries.map Prod.snd

@[simp]
theorem get_new (hash : Hash) : new.get hash = none := Finmap.lookup_empty hash

theorem get_insert (index : PackIndex) (entry : IndexEntry) :
    (index.insert entry).get = Function.update index.get entry.hash (some entry) := by
  funext hash
  rw [get, insert]
  by_cases hhash : hash = entry.hash
  · rw [hhash, Function.update_self]
    exact Finmap.lookup_insert _
  · rw [Function.update_of_ne hhash]
    exact Finmap.lookup_insert_of_ne _ hhash

/-- Every entry is under its own hash. -/
def Keyed (index : PackIndex) : Prop := ∀ hash entry, index.get hash = some entry → entry.hash = hash

theorem keyed_new : new.Keyed := by
  intro hash entry hentry
  rw [get_new] at hentry
  cases hentry

theorem Keyed.insert {index : PackIndex} (hkeyed : index.Keyed) (entry : IndexEntry) :
    (index.insert entry).Keyed := by
  intro hash found hfound
  rw [get_insert] at hfound
  by_cases hhash : hash = entry.hash
  · rw [hhash, Function.update_self, Option.some_inj] at hfound
    rw [hhash, hfound]
  · rw [Function.update_of_ne hhash] at hfound
    exact hkeyed hash found hfound

/-- An insertion changes what is under the hash of the entry only. -/
theorem insert_local :
    KeyedFold.Local IndexEntry.hash PackIndex.get PackIndex.insert fun _ entry ↦ some entry where
  own := by
    intro index entry
    rw [get_insert, Function.update_self]
  other := by
    intro index entry hash hhash
    rw [get_insert, Function.update_of_ne hhash.symm]

/-- Inserting the entries of an index one by one, in any order, gives the index again. -/
theorem get_foldl_insert_iter {index : PackIndex} (hkeyed : index.Keyed)
    (order : IterationOrder index.entries) :
    ((index.iter order).foldl insert new).get = index.get := by
  have htarget : ∀ entry ∈ order.entries, ∀ found ∈ [entry.2], found.hash = entry.1 := by
    intro entry hentry found hfound
    rw [List.mem_singleton.mp hfound]
    exact hkeyed entry.1 entry.2 ((order.mem_iff entry.1 entry.2).mp hentry)
  have hiter : index.iter order = order.entries.flatMap fun entry ↦ [entry.2] :=
    List.map_eq_flatMap
  funext hash
  rw [insert_local.view_foldl, hiter]
  cases hlookup : index.get hash with
  | none =>
    rw [KeyedFold.actionsOf_flatMap_of_not_mem htarget]
    · exact get_new hash
    · intro entry hmem
      have hfound : index.get hash = some entry := (order.mem_iff hash entry).mp hmem
      rw [hlookup] at hfound
      cases hfound
  | some entry =>
    rw [KeyedFold.actionsOf_flatMap_of_mem htarget order.nodup
      ((order.mem_iff hash entry).mpr hlookup)]
    rfl

end PackIndex

/-! ## The index as JSON -/

/-- A `serde_json::Value`; a number that is no unsigned integer is kept as it was written. -/
inductive JsonValue
  | null
  | bool (value : Bool)
  | unsigned (value : ℕ)
  | number (literal : String)
  | string (text : String)
  | array (items : List JsonValue)
  | object (fields : List (String × JsonValue))

namespace JsonValue

/-- Indexing with a string: `null` where there is no such field. -/
def field (value : JsonValue) (name : String) : JsonValue :=
  match value with
  | .object fields => (fields.lookup name).getD .null
  | _ => .null

def asU64 : JsonValue → Option ℕ
  | .unsigned value => some value
  | _ => none

def asStr : JsonValue → Option String
  | .string text => some text
  | _ => none

end JsonValue

/-- What `serde_json` does with a list of values. -/
structure JsonText where
  toStringPretty : List JsonValue → Except String String
  fromStr : String → Except String (List JsonValue)

/-- The values are read back from the text they are printed as. -/
def JsonText.ReadsBack (json : JsonText) (values : List JsonValue) : Prop :=
  ∀ text, json.toStringPretty values = .ok text → json.fromStr text = .ok values

namespace IndexEntry

/-- The object that `flush` writes of an entry. -/
def toJson (entry : IndexEntry) : JsonValue :=
  .object [("hash", .string entry.hash), ("length", .unsigned entry.length),
    ("offset", .unsigned entry.offset)]

/-- The entry that `open` makes of a value. -/
def ofJson (value : JsonValue) : IndexEntry where
  offset := (value.field "offset").asU64.getD 0
  length := (value.field "length").asU64.getD 0
  hash := (value.field "hash").asStr.getD ""

@[simp]
theorem ofJson_toJson (entry : IndexEntry) : ofJson entry.toJson = entry := rfl

end IndexEntry

/-! ## Files -/

/-- Why a path cannot be created as a file, if it cannot. -/
def createError (disk : Disk) (path : Path) : Option String :=
  if disk.lookup path = some .directory then some "Is a directory (os error 21)"
  else
    match disk.lookup path.dropLast with
    | none => some "No such file or directory (os error 2)"
    | some (.file _) => some "Not a directory (os error 20)"
    | some .directory => none

/-- `fs::File::create`: the file is there and empty. -/
def createFile (fault : Option String) (disk : Disk) (path : Path) : Except String Disk :=
  match fault.or (createError disk path) with
  | some error => .error error
  | none => .ok (disk.insert path (.file []))

/-- `write_all` into a file just created; a fault leaves a part of the bytes. -/
def writeAll (fault : Option (ℕ × String)) (disk : Disk) (path : Path) (bytes : Bytes) :
    Except String Unit × Disk :=
  match fault with
  | some (written, error) => (.error error, disk.insert path (.file (bytes.take written)))
  | none => (.ok (), disk.insert path (.file bytes))

/-- The text that bytes encode, if they encode one. -/
def fromUtf8 (bytes : Bytes) : Option String := String.fromUTF8? bytes.toByteArray

theorem fromUtf8_utf8 (text : String) : fromUtf8 (utf8 text) = some text := by
  have hbytes : (utf8 text).toByteArray = text.toByteArray := String.utf8Encode_toList
  have hvalid : text.toByteArray.IsValidUTF8 := text.isValidUTF8
  rw [fromUtf8, hbytes, String.fromUTF8?, dif_pos hvalid]
  rfl

def readToString (fault : Option String) (disk : Disk) (path : Path) : Except String String :=
  match fault, disk.lookup path with
  | some error, _ => .error error
  | none, none => .error "No such file or directory (os error 2)"
  | none, some .directory => .error "Is a directory (os error 21)"
  | none, some (.file bytes) =>
    match fromUtf8 bytes with
    | none => .error "stream did not contain valid UTF-8"
    | some text => .ok text

/-- `read_exact` at an offset of an open file. -/
def readExactAt (node : FileNode) (offset length : ℕ) : Except String Bytes :=
  match node with
  | .directory => if length = 0 then .ok [] else .error "Is a directory (os error 21)"
  | .file bytes =>
    if length ≤ (bytes.drop offset).length then .ok (sliceAt bytes offset length)
    else .error "failed to fill whole buffer"

/-! ## Writing a pack -/

structure PackWriter where
  objects : List (Hash × Bytes)
  index : PackIndex
  offset : ℕ

/-- The faults that the calls of a `flush` meet, if any. -/
structure FlushFaults where
  createPack : Option String := none
  writePack : Option (ℕ × String) := none
  flushPack : Option String := none
  createIndex : Option String := none
  writeIndex : Option (ℕ × String) := none

namespace PackWriter

def new : PackWriter := ⟨[], PackIndex.new, 0⟩

/-- `PackWriter::append`; the offset is a 64-bit counter. -/
def append (writer : PackWriter) (hash : Hash) (data : Bytes) : PackWriter where
  objects := writer.objects ++ [(hash, data)]
  index := writer.index.insert ⟨writer.offset, data.length, hash⟩
  offset := (writer.offset + data.length) % 2 ^ 64

/-- `PackWriter::flush`; the index is written in the order in which its map is read. -/
def flush (json : JsonText) (faults : FlushFaults) (writer : PackWriter)
    (order : IterationOrder writer.index.entries) (disk : Disk) (packPath indexPath : Path) :
    Except CoreError Unit × Disk :=
  match createFile faults.createPack disk packPath with
  | .error error => (.error (.storageIo ("create pack: " ++ error)), disk)
  | .ok disk =>
    match writeAll faults.writePack disk packPath (packed writer.objects) with
    | (.error error, disk) => (.error (.storageIo ("write pack: " ++ error)), disk)
    | (.ok _, disk) =>
      match faults.flushPack with
      | some error => (.error (.storageIo ("flush pack: " ++ error)), disk)
      | none =>
        match json.toStringPretty ((writer.index.iter order).map IndexEntry.toJson) with
        | .error error => (.error (.serialization error), disk)
        | .ok indexJson =>
          match createFile faults.createIndex disk indexPath with
          | .error error => (.error (.storageIo ("write index: " ++ error)), disk)
          | .ok disk =>
            match writeAll faults.writeIndex disk indexPath (utf8 indexJson) with
            | (.error error, disk) => (.error (.storageIo ("write index: " ++ error)), disk)
            | (.ok _, disk) => (.ok (), disk)

end PackWriter

/-! ## Reading a pack -/

structure PackReader where
  packPath : Path
  index : PackIndex

/-- The faults that the calls of a `read` meet, if any. -/
structure ReadFaults where
  openPack : Option String := none
  seekPack : Option String := none
  readPack : Option String := none

namespace PackReader

/-- `PackReader::open` -/
def openFiles (json : JsonText) (fault : Option String) (disk : Disk) (packPath indexPath : Path) :
    Except CoreError PackReader :=
  match readToString fault disk indexPath with
  | .error error => .error (.storageIo ("read index: " ++ error))
  | .ok indexJson =>
    match json.fromStr indexJson with
    | .error error => .error (.serialization ("parse index: " ++ error))
    | .ok entries =>
      .ok ⟨packPath, (entries.map IndexEntry.ofJson).foldl PackIndex.insert PackIndex.new⟩

def read (faults : ReadFaults) (reader : PackReader) (disk : Disk) (hash : Hash) :
    Except CoreError Bytes :=
  match reader.index.get hash with
  | none => .error (.objectNotFound hash)
  | some entry =>
    match faults.openPack, disk.lookup reader.packPath with
    | some error, _ => .error (.storageIo ("open pack: " ++ error))
    | none, none => .error (.storageIo "open pack: No such file or directory (os error 2)")
    | none, some node =>
      match faults.seekPack, faults.readPack with
      | some error, _ => .error (.storageIo ("seek pack: " ++ error))
      | none, some error => .error (.storageIo ("read pack: " ++ error))
      | none, none =>
        match readExactAt node entry.offset entry.length with
        | .error error => .error (.storageIo ("read pack: " ++ error))
        | .ok bytes => .ok bytes

/-- `PackReader::exists` -/
def objectExists (reader : PackReader) (hash : Hash) : Bool := (reader.index.get hash).isSome

end PackReader

/-! ## What a writer keeps -/

namespace PackWriter

/-- `append` of one object after the other. -/
def appendAll (writer : PackWriter) (appends : List (Hash × Bytes)) : PackWriter :=
  appends.foldl (fun writer object ↦ writer.append object.1 object.2) writer

/-- Where the index says that the data of a hash lies. -/
def location (index : PackIndex) (hash : Hash) : Option (ℕ × ℕ) :=
  (index.get hash).map fun entry ↦ (entry.offset, entry.length)

/-- The index locates the latest data of every hash, and the offset is the end of the pack. -/
structure Indexed (writer : PackWriter) : Prop where
  located : Locates (location writer.index) writer.objects
  offset : writer.offset = (packed writer.objects).length
  keyed : writer.index.Keyed

theorem indexed_new : new.Indexed where
  located := locates_nil
  offset := rfl
  keyed := PackIndex.keyed_new

theorem location_insert (index : PackIndex) (entry : IndexEntry) :
    location (index.insert entry) =
      Function.update (location index) entry.hash (some (entry.offset, entry.length)) := by
  funext hash
  rw [location, PackIndex.get_insert]
  by_cases hhash : hash = entry.hash
  · rw [hhash, Function.update_self, Function.update_self, Option.map_some]
  · rw [Function.update_of_ne hhash, Function.update_of_ne hhash, location]

/-- An append keeps the index right as long as the pack fits the 64-bit offset. -/
theorem Indexed.append {writer : PackWriter} (hindexed : writer.Indexed) (hash : Hash)
    (data : Bytes) (hsize : (packed writer.objects).length + data.length < 2 ^ 64) :
    (writer.append hash data).Indexed where
  located := by
    rw [PackWriter.append, location_insert, hindexed.offset]
    exact hindexed.located.append hash data
  offset := by
    have hoffset : (writer.append hash data).offset =
        ((packed writer.objects).length + data.length) % 2 ^ 64 := by
      rw [PackWriter.append, hindexed.offset]
    rw [hoffset, Nat.mod_eq_of_lt hsize, PackWriter.append, packed_append_singleton,
      List.length_append]
  keyed := hindexed.keyed.insert _

theorem appendAll_append_singleton (writer : PackWriter) (appends : List (Hash × Bytes))
    (hash : Hash) (data : Bytes) :
    writer.appendAll (appends ++ [(hash, data)]) = (writer.appendAll appends).append hash data := by
  rw [appendAll, List.foldl_append]
  rfl

theorem objects_appendAll_new (appends : List (Hash × Bytes)) :
    (new.appendAll appends).objects = appends := by
  induction appends using List.reverseRecOn with
  | nil => rfl
  | append_singleton earlier last ih =>
    rw [appendAll_append_singleton, append, ih]

theorem indexed_appendAll_new {appends : List (Hash × Bytes)}
    (hsize : (packed appends).length < 2 ^ 64) : (new.appendAll appends).Indexed := by
  induction appends using List.reverseRecOn with
  | nil => exact indexed_new
  | append_singleton earlier last ih =>
    rw [packed_append_singleton, List.length_append] at hsize
    have hearlier : (new.appendAll earlier).Indexed := ih (by omega)
    rw [appendAll_append_singleton]
    apply hearlier.append
    rwa [objects_appendAll_new]

end PackWriter

/-! ## What a flush leaves on the disk -/

theorem created_of_createFile {fault : Option String} {disk created : Disk} {path : Path}
    (hcreate : createFile fault disk path = .ok created) :
    created = disk.insert path (.file []) := by
  rw [createFile] at hcreate
  cases herror : fault.or (createError disk path) with
  | some error =>
    rw [herror] at hcreate
    cases hcreate
  | none =>
    rw [herror] at hcreate
    exact (Except.ok.inj hcreate).symm

theorem writeAll_of_ok {fault : Option (ℕ × String)} {disk written : Disk} {path : Path}
    {bytes : Bytes} (hwrite : writeAll fault disk path bytes = (.ok (), written)) :
    written = disk.insert path (.file bytes) := by
  cases fault with
  | some fault => cases hwrite
  | none => exact (Prod.mk.inj hwrite).2.symm

/-- A flush that returns leaves the packed data and the printed index in the two files. -/
theorem PackWriter.files_of_flush {json : JsonText} {faults : FlushFaults} {writer : PackWriter}
    {order : IterationOrder writer.index.entries} {disk written : Disk} {packPath indexPath : Path}
    (hpaths : packPath ≠ indexPath)
    (hflush : writer.flush json faults order disk packPath indexPath = (.ok (), written)) :
    ∃ indexJson,
      json.toStringPretty ((writer.index.iter order).map IndexEntry.toJson) = .ok indexJson ∧
        written.lookup packPath = some (.file (packed writer.objects)) ∧
        written.lookup indexPath = some (.file (utf8 indexJson)) := by
  rw [PackWriter.flush] at hflush
  split at hflush
  · cases hflush
  rename_i packCreated hcreatePack
  split at hflush
  · cases hflush
  rename_i packWritten hwritePack
  split at hflush
  · cases hflush
  split at hflush
  · cases hflush
  rename_i indexJson hprint
  split at hflush
  · cases hflush
  rename_i indexCreated hcreateIndex
  split at hflush
  · cases hflush
  rename_i indexWritten hwriteIndex
  have hpack := writeAll_of_ok hwritePack
  have hcreated := created_of_createFile hcreateIndex
  have hindex := writeAll_of_ok hwriteIndex
  rw [← (Prod.mk.inj hflush).2, hindex, Finmap.lookup_insert_of_ne _ hpaths, hcreated,
    Finmap.lookup_insert_of_ne _ hpaths, hpack, Finmap.lookup_insert, Finmap.lookup_insert]
  exact ⟨indexJson, hprint, rfl, rfl⟩

/-! ## What a reader answers -/

/-- The reader answers with the data that a map has under a hash. -/
def PackReader.AnswersWith (reader : PackReader) (disk : Disk) (data : Hash → Option Bytes) :
    Prop :=
  ∀ hash, reader.objectExists hash = (data hash).isSome ∧
    reader.read {} disk hash =
      match data hash with
      | some bytes => .ok bytes
      | none => .error (.objectNotFound hash)

/-- A reader whose index locates the data of the pack answers with it. -/
theorem PackReader.answersWith_of_located {reader : PackReader} {disk : Disk}
    {objects : List (Hash × Bytes)}
    (hpack : disk.lookup reader.packPath = some (.file (packed objects)))
    (hlocated : Locates (PackWriter.location reader.index) objects) :
    reader.AnswersWith disk (latest objects) := by
  intro hash
  cases hentry : reader.index.get hash with
  | none =>
    have hlatest : latest objects hash = none := by
      rw [hlocated.latest_eq, PackWriter.location, hentry]
      rfl
    rw [hlatest, objectExists, read, hentry]
    exact ⟨rfl, rfl⟩
  | some entry =>
    have hlocation : PackWriter.location reader.index hash = some (entry.offset, entry.length) := by
      rw [PackWriter.location, hentry, Option.map_some]
    obtain ⟨hinside, hlatest⟩ := hlocated.present hash entry.offset entry.length hlocation
    have hfits : entry.length ≤ ((packed objects).drop entry.offset).length := by
      rw [List.length_drop]
      omega
    rw [hlatest, objectExists, read, hentry]
    simp only [hpack, readExactAt, if_pos hfits, Option.isSome_some, true_and]

/-- Opening the files of a flush reads the index of the writer back. -/
theorem PackReader.openFiles_of_flush {json : JsonText} {writer : PackWriter}
    (hkeyed : writer.index.Keyed) (order : IterationOrder writer.index.entries)
    (hround : json.ReadsBack ((writer.index.iter order).map IndexEntry.toJson))
    {disk : Disk} {packPath indexPath : Path} {indexJson : String}
    (hprint : json.toStringPretty ((writer.index.iter order).map IndexEntry.toJson) =
      .ok indexJson)
    (hindex : disk.lookup indexPath = some (.file (utf8 indexJson))) :
    ∃ reader, openFiles json none disk packPath indexPath = .ok reader ∧
      reader.packPath = packPath ∧ reader.index.get = writer.index.get := by
  have hentries : ((writer.index.iter order).map IndexEntry.toJson).map IndexEntry.ofJson =
      writer.index.iter order := by
    rw [List.map_map]
    exact List.map_id _
  have htext : readToString none disk indexPath = .ok indexJson := by
    simp only [readToString, hindex, fromUtf8_utf8]
  refine ⟨⟨packPath, (writer.index.iter order).foldl PackIndex.insert PackIndex.new⟩, ?_, rfl, ?_⟩
  · simp only [openFiles, htext, hround indexJson hprint, hentries]
  · exact PackIndex.get_foldl_insert_iter hkeyed order

/-- What was appended can be read back after a flush: the latest data of every hash that was
appended, and no other hash, in whatever order the index is written. -/
theorem pack_roundTrip {json : JsonText} {faults : FlushFaults} {appends : List (Hash × Bytes)}
    (hsize : (packed appends).length < 2 ^ 64)
    (order : IterationOrder (PackWriter.new.appendAll appends).index.entries)
    (hround : json.ReadsBack
      (((PackWriter.new.appendAll appends).index.iter order).map IndexEntry.toJson))
    {disk written : Disk} {packPath indexPath : Path} (hpaths : packPath ≠ indexPath)
    (hflush : (PackWriter.new.appendAll appends).flush json faults order disk packPath indexPath =
      (.ok (), written)) :
    ∃ reader, PackReader.openFiles json none written packPath indexPath = .ok reader ∧
      reader.AnswersWith written (latest appends) := by
  have hindexed := PackWriter.indexed_appendAll_new hsize
  have hobjects := PackWriter.objects_appendAll_new appends
  obtain ⟨indexJson, hprint, hpack, hindex⟩ := PackWriter.files_of_flush hpaths hflush
  obtain ⟨reader, hopen, hpath, hget⟩ :=
    PackReader.openFiles_of_flush hindexed.keyed order hround hprint hindex
  have hlocation : PackWriter.location reader.index =
      PackWriter.location (PackWriter.new.appendAll appends).index := by
    funext hash
    rw [PackWriter.location, hget, PackWriter.location]
  refine ⟨reader, hopen, ?_⟩
  rw [← hobjects]
  apply PackReader.answersWith_of_located
  · rw [hpath, hpack]
  · rw [hlocation]
    exact hindexed.located

/-! ## A pack with dead bytes -/

/-- One hash twice, and one without data. -/
def rewrittenPack : List (Hash × Bytes) := [("aa", [1]), ("bb", []), ("aa", [2, 3])]

def rewrittenEntries : List (Hash × IndexEntry) := [("bb", ⟨1, 0, "bb"⟩), ("aa", ⟨1, 2, "aa"⟩)]

theorem entries_rewrittenPack :
    (PackWriter.new.appendAll rewrittenPack).index.entries = HashMap.ofEntries rewrittenEntries :=
  by decide

def rewrittenOrder :
    IterationOrder (PackWriter.new.appendAll rewrittenPack).index.entries where
  entries := rewrittenEntries
  nodup := by decide
  mem_iff := by
    rw [entries_rewrittenPack]
    exact (IterationOrder.ofEntries rewrittenEntries (by decide)).mem_iff

def rewrittenJson : String :=
  "[\n  \x7b\n    \"hash\": \"bb\",\n    \"length\": 0,\n    \"offset\": 1\n  \x7d,\n" ++
    "  \x7b\n    \"hash\": \"aa\",\n    \"length\": 2,\n    \"offset\": 1\n  \x7d\n]"

/-- `serde_json` as far as this index needs it. -/
def rewrittenText : JsonText where
  toStringPretty _ := .ok rewrittenJson
  fromStr text :=
    if text = rewrittenJson then
      .ok (((PackWriter.new.appendAll rewrittenPack).index.iter rewrittenOrder).map
        IndexEntry.toJson)
    else .error "expected value"

/-- The disk after the flush of the two files into the root directory. -/
def rewrittenFlush : Except CoreError Unit × Disk :=
  (PackWriter.new.appendAll rewrittenPack).flush rewrittenText {} rewrittenOrder
    (HashMap.ofEntries [([], .directory)]) ["objects.pack".toList] ["objects.idx".toList]

theorem pack_roundTrip_rewrittenPack :
    ∃ reader, PackReader.openFiles rewrittenText none rewrittenFlush.2 ["objects.pack".toList]
        ["objects.idx".toList] = .ok reader ∧
      reader.AnswersWith rewrittenFlush.2 (latest rewrittenPack) := by
  have hround : rewrittenText.ReadsBack
      (((PackWriter.new.appendAll rewrittenPack).index.iter rewrittenOrder).map
        IndexEntry.toJson) := by
    intro text htext
    exact if_pos (Except.ok.inj htext).symm
  have hflush : rewrittenFlush = (.ok (), rewrittenFlush.2) := Prod.ext rfl rfl
  exact pack_roundTrip (by decide) rewrittenOrder hround (by decide) hflush

end EdgeOrchestrator.Storage

import EdgeOrchestrator.Core.Error

/-!
# Content-addressed objects

The four object kinds of the store. An object carries the hash it was stored under; blobs are
hashed with a Git-style header of kind and length. SHA-256, the serializer and the compressor are
third-party code and enter as a parameter: the digest length is the only property every use
relies on, so it is a field.
-/

namespace EdgeOrchestrator.Storage

structure Blob where
  hash : Hash
  data : Bytes
  deriving DecidableEq, Repr

inductive ObjectMode
  | blob
  | tree
  | executable
  deriving DecidableEq, Repr

structure TreeEntry where
  name : String
  hash : Hash
  mode : ObjectMode
  deriving DecidableEq, Repr

structure Tree where
  hash : Hash
  entries : List TreeEntry
  deriving DecidableEq, Repr

structure Commit where
  hash : Hash
  treeHash : Hash
  parentHashes : List Hash
  author : String
  timestamp : DateTime
  message : String
  deriving DecidableEq, Repr

structure Tag where
  hash : Hash
  commitHash : Hash
  name : String
  message : Option String
  deriving DecidableEq, Repr

inductive Object
  | blob (content : Blob)
  | tree (content : Tree)
  | commit (content : Commit)
  | tag (content : Tag)
  deriving DecidableEq, Repr

def Object.hash : Object → Hash
  | .blob content => content.hash
  | .tree content => content.hash
  | .commit content => content.hash
  | .tag content => content.hash

/-- Components of a resolved absolute path, outermost first. -/
abbrev Path := List (List Char)

/-- What the store is used with: the SHA-256 digest, zlib compression, the JSON form of an object
and its derived `Debug` text, and the files of the host whose reading never ends, such as devices
and pipes. -/
structure Primitives where
  sha256 : Bytes → Bytes
  sha256_length : ∀ input, (sha256 input).length = 32
  compress : Bytes → Bytes
  decompress : Bytes → Except String Bytes
  serialize : Object → Bytes
  deserialize : Bytes → Except String Object
  debug : Object → String
  endless : Path → Bool := fun _ ↦ false

/-- SHA-256 of the data behind the header `blob <len>\0`, in hexadecimal. -/
def hashBlob (primitives : Primitives) (data : Bytes) : Hash :=
  hexEncode (primitives.sha256 (utf8 ("blob " ++ toString data.length ++ "\x00") ++ data))

/-- Content behind the header `<kind> <len>\0`. -/
def withHeader (kind : String) (content : Bytes) : Bytes :=
  utf8 (kind ++ " " ++ toString content.length ++ "\x00") ++ content

def ObjectMode.text : ObjectMode → String
  | .blob => "100644"
  | .executable => "100755"
  | .tree => "040000"

/-- The entries of a tree in the order of their names, one line each. -/
def treeContent (entries : List TreeEntry) : Bytes :=
  (entries.mergeSort fun left right ↦ !decide (right.name < left.name)).flatMap fun entry ↦
    utf8 (entry.mode.text ++ " " ++ entry.hash ++ " " ++ entry.name ++ "\n")

/-- SHA-256 of the sorted entries behind the header `tree <len>\0`, in hexadecimal. -/
def hashTree (primitives : Primitives) (entries : List TreeEntry) : Hash :=
  hexEncode (primitives.sha256 (withHeader "tree" (treeContent entries)))

/-- A UTC time in the format `%s %z`. -/
def DateTime.secondsAndOffset (timestamp : DateTime) : String :=
  toString (timestamp.nanos / 1000000000) ++ " +0000"

/-- The lines of a commit. -/
def commitContent (treeHash : Hash) (parentHashes : List Hash) (author : String)
    (timestamp : DateTime) (message : String) : Bytes :=
  let time := DateTime.secondsAndOffset timestamp
  utf8 ("tree " ++ treeHash ++ "\n") ++
    parentHashes.flatMap (fun parent ↦ utf8 ("parent " ++ parent ++ "\n")) ++
    utf8 ("author " ++ author ++ " " ++ time ++ "\n") ++
    utf8 ("committer " ++ author ++ " " ++ time ++ "\n") ++ utf8 ("\n" ++ message ++ "\n")

/-- SHA-256 of the lines of a commit behind the header `commit <len>\0`, in hexadecimal. -/
def hashCommit (primitives : Primitives) (treeHash : Hash) (parentHashes : List Hash)
    (author : String) (timestamp : DateTime) (message : String) : Hash :=
  hexEncode (primitives.sha256
    (withHeader "commit" (commitContent treeHash parentHashes author timestamp message)))

/-- A character inside a JSON string, as `serde_json` escapes it. -/
def jsonChar (char : Char) : List Char :=
  if char = '"' then ['\\', '"']
  else if char = '\\' then ['\\', '\\']
  else if char = '\x08' then ['\\', 'b']
  else if char = '\t' then ['\\', 't']
  else if char = '\n' then ['\\', 'n']
  else if char = '\x0c' then ['\\', 'f']
  else if char = '\r' then ['\\', 'r']
  else if char.toNat < 32 then '\\' :: 'u' :: '0' :: '0' :: hexNibbles char.toNat 2
  else [char]

def jsonString (text : String) : String :=
  String.ofList ('"' :: text.toList.flatMap jsonChar ++ ['"'])

/-- `serde_json::to_vec` of a tag. -/
def tagJson (tag : Tag) : Bytes :=
  utf8 ("\x7b\"hash\":" ++ jsonString tag.hash ++ ",\"commit_hash\":" ++
    jsonString tag.commitHash ++ ",\"name\":" ++ jsonString tag.name ++ ",\"message\":" ++
    (match tag.message with
      | none => "null"
      | some message => jsonString message) ++ "\x7d")

example : tagJson ⟨"", "c", "v\"1\n", none⟩ =
    utf8 "\x7b\"hash\":\"\",\"commit_hash\":\"c\",\"name\":\"v\\\"1\\n\",\"message\":null\x7d" := by
  decide

def emptyBlobDigest : Bytes :=
  [0x47, 0x3a, 0x0f, 0x4c, 0x3b, 0xe8, 0xa9, 0x36, 0x81, 0xa2, 0x67, 0xe3, 0xb1, 0xe9, 0xa7,
   0xdc, 0xda, 0x11, 0x85, 0x43, 0x6f, 0xe1, 0x41, 0xf7, 0x74, 0x91, 0x20, 0xa3, 0x03, 0x72,
   0x18, 0x13]

/-- The empty blob as the serializer writes it. -/
def emptyBlobJson : Bytes :=
  utf8 ("\x7b\"Blob\":\x7b\"hash\":\"" ++ hexEncode emptyBlobDigest ++ "\",\"data\":[]\x7d\x7d")

/-- The zlib stream of `emptyBlobJson`. -/
def emptyBlobZlib : Bytes :=
  [0x78, 0x9c, 0x05, 0xc1, 0x31, 0x0e, 0x84, 0x20, 0x10, 0x05, 0xd0, 0xbb, 0x4c, 0x6d, 0xc1,
   0x67, 0x66, 0x19, 0xa0, 0xf4, 0x1a, 0x66, 0x8b, 0x8f, 0x40, 0x2c, 0x4c, 0xb6, 0x58, 0x3b,
   0xe3, 0xdd, 0x7d, 0xef, 0x96, 0xf5, 0xfc, 0x35, 0xa9, 0xb7, 0x1c, 0xfc, 0x1f, 0x52, 0xc5,
   0x5c, 0x19, 0xa6, 0xed, 0xda, 0x46, 0x66, 0xd1, 0x94, 0xc1, 0x98, 0x7c, 0x68, 0xc3, 0x28,
   0xf4, 0xbe, 0x77, 0x02, 0xf9, 0x63, 0x9a, 0xe6, 0x80, 0x61, 0xba, 0x5b, 0x41, 0x0c, 0xd4,
   0xa0, 0x1e, 0x91, 0xa1, 0xb2, 0x48, 0xe7, 0x45, 0xa9, 0xdb, 0xf7, 0x79, 0x5e, 0xe4, 0x78,
   0x19, 0xd5]

/-- The third-party functions tabulated on the empty blob. Decompressing an empty file yields no
bytes, which the deserializer refuses. -/
def tabulated : Primitives where
  sha256 input := if input = utf8 "blob 0\x00" then emptyBlobDigest else List.replicate 32 0
  sha256_length := by
    intro input
    split_ifs
    · rfl
    · exact List.length_replicate
  compress input := if input = emptyBlobJson then emptyBlobZlib else input
  decompress input :=
    if input = emptyBlobZlib then .ok emptyBlobJson
    else if input = [] then .ok []
    else .error "corrupt deflate stream"
  serialize object :=
    if object = .blob ⟨hexEncode emptyBlobDigest, []⟩ then emptyBlobJson else []
  deserialize input :=
    if input = emptyBlobJson then .ok (.blob ⟨hexEncode emptyBlobDigest, []⟩)
    else .error "EOF while parsing a value at line 1 column 0"
  debug _ := "Object"

end EdgeOrchestrator.Storage

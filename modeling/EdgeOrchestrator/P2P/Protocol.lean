import EdgeOrchestrator.P2P.Swarm
import EdgeOrchestrator.Storage.Objects

/-!
# The wire format

Every message travels as JSON behind a big-endian length of four bytes. Each reader has a size cap
of its own; the writers have none and cut the length to 32 bits. What `serde_json` does with a
message is a parameter.
-/

namespace EdgeOrchestrator.P2P

inductive IoError
  | unexpectedEof
  | invalidData (message : String)
  deriving DecidableEq, Repr

/-- `u32::to_be_bytes` -/
def toBeBytes (value : ℕ) : Bytes :=
  [value / 2 ^ 24, value / 2 ^ 16, value / 2 ^ 8, value].map UInt8.ofNat

/-- `u32::from_be_bytes` -/
def fromBeBytes (bytes : Bytes) : ℕ := bytes.foldl (fun value byte ↦ value * 2 ^ 8 + byte.toNat) 0

theorem length_toBeBytes (value : ℕ) : (toBeBytes value).length = 4 := rfl

theorem fromBeBytes_toBeBytes {value : ℕ} (hvalue : value < 2 ^ 32) :
    fromBeBytes (toBeBytes value) = value := by
  simp only [fromBeBytes, toBeBytes, List.map_cons, List.map_nil, List.foldl_cons, List.foldl_nil,
    UInt8.toNat_ofNat']
  omega

/-- `read_exact`: the bytes read, and the rest of the stream. -/
def readExact (count : ℕ) (stream : Bytes) : Except IoError (Bytes × Bytes) :=
  if count ≤ stream.length then .ok (stream.take count, stream.drop count)
  else .error .unexpectedEof

theorem readExact_append {first : Bytes} {count : ℕ} (hcount : first.length = count)
    (second : Bytes) : readExact count (first ++ second) = .ok (first, second) := by
  rw [readExact, if_pos (by rw [List.length_append]; omega), List.take_left' hcount,
    List.drop_left' hcount]

def readLengthPrefixed (stream : Bytes) (maxSize : ℕ) : Except IoError (Bytes × Bytes) :=
  match readExact 4 stream with
  | .error error => .error error
  | .ok (lenBuf, stream) =>
    let len := fromBeBytes lenBuf
    if len > maxSize then
      .error (.invalidData ("payload size " ++ toString len ++ " exceeds max " ++ toString maxSize))
    else readExact len stream

/-- The bytes written; the length is cut to 32 bits. -/
def writeLengthPrefixed (data : Bytes) : Bytes := toBeBytes (data.length % 2 ^ 32) ++ data

/-- What is read back of written data: nothing when the cut length exceeds the cap, else as many
bytes as the cut length says. -/
theorem readLengthPrefixed_writeLengthPrefixed (data : Bytes) (maxSize : ℕ) :
    readLengthPrefixed (writeLengthPrefixed data) maxSize =
      if data.length % 2 ^ 32 > maxSize then
        .error (.invalidData ("payload size " ++ toString (data.length % 2 ^ 32) ++
          " exceeds max " ++ toString maxSize))
      else .ok (data.take (data.length % 2 ^ 32), data.drop (data.length % 2 ^ 32)) := by
  have hcut : data.length % 2 ^ 32 < 2 ^ 32 := Nat.mod_lt _ (by decide)
  rw [readLengthPrefixed, writeLengthPrefixed, readExact_append (length_toBeBytes _)]
  simp only [fromBeBytes_toBeBytes hcut]
  rw [readExact, if_pos (Nat.mod_le _ _)]

/-- What `serde_json` does with the messages of one type. -/
structure JsonForm (Message : Type) where
  toVec : Message → Except String Bytes
  fromSlice : Bytes → Except String Message

section Messages

variable {Message : Type} (json : JsonForm Message) (maxSize : ℕ)

/-- Read one message: the body of `read_request` and `read_response`. -/
def readMessage (stream : Bytes) : Except IoError (Message × Bytes) :=
  match readLengthPrefixed stream maxSize with
  | .error error => .error error
  | .ok (data, rest) =>
    match json.fromSlice data with
    | .error message => .error (.invalidData message)
    | .ok message => .ok (message, rest)

/-- Write one message: the body of `write_request` and `write_response`. -/
def writeMessage (message : Message) : Except IoError Bytes :=
  match json.toVec message with
  | .error message => .error (.invalidData message)
  | .ok data => .ok (writeLengthPrefixed data)

end Messages

def requestMaxSize : ℕ := 128

def responseMaxSize : ℕ := 8 * 1024

def raftRequestMaxSize : ℕ := 16 * 1024 * 1024

def raftResponseMaxSize : ℕ := 1024

def blobRequestMaxSize : ℕ := 4 * 1024

def blobResponseMaxSize : ℕ := 512 * 1024 * 1024

def projectRequestMaxSize : ℕ := 64 * 1024 * 1024

def projectResponseMaxSize : ℕ := 64 * 1024 * 1024

/-- The requests and responses of the four protocols. -/
inductive MessageKind
  | descriptorRequest
  | descriptorResponse
  | raftRequest
  | raftResponse
  | blobRequest
  | blobResponse
  | projectRequest
  | projectResponse
  deriving DecidableEq, Repr

abbrev MessageKind.Message : MessageKind → Type
  | .descriptorRequest => DescriptorRequest
  | .descriptorResponse => DescriptorResponse
  | .raftRequest => RaftMessageRequest
  | .raftResponse => RaftMessageResponse
  | .blobRequest => BlobRequest
  | .blobResponse => BlobResponse
  | .projectRequest => ProjectTask
  | .projectResponse => ProjectResult

/-- What `serde_json` does with every message. -/
abbrev SerdeJson := ∀ kind : MessageKind, JsonForm kind.Message

section Codecs

variable (serdeJson : SerdeJson)

def DescriptorCodec.readRequest : Bytes → Except IoError (DescriptorRequest × Bytes) :=
  readMessage (serdeJson .descriptorRequest) requestMaxSize

def DescriptorCodec.readResponse : Bytes → Except IoError (DescriptorResponse × Bytes) :=
  readMessage (serdeJson .descriptorResponse) responseMaxSize

def DescriptorCodec.writeRequest : DescriptorRequest → Except IoError Bytes :=
  writeMessage (serdeJson .descriptorRequest)

def DescriptorCodec.writeResponse : DescriptorResponse → Except IoError Bytes :=
  writeMessage (serdeJson .descriptorResponse)

def RaftMessageCodec.readRequest : Bytes → Except IoError (RaftMessageRequest × Bytes) :=
  readMessage (serdeJson .raftRequest) raftRequestMaxSize

def RaftMessageCodec.readResponse : Bytes → Except IoError (RaftMessageResponse × Bytes) :=
  readMessage (serdeJson .raftResponse) raftResponseMaxSize

def RaftMessageCodec.writeRequest : RaftMessageRequest → Except IoError Bytes :=
  writeMessage (serdeJson .raftRequest)

def RaftMessageCodec.writeResponse : RaftMessageResponse → Except IoError Bytes :=
  writeMessage (serdeJson .raftResponse)

def BlobCodec.readRequest : Bytes → Except IoError (BlobRequest × Bytes) :=
  readMessage (serdeJson .blobRequest) blobRequestMaxSize

def BlobCodec.readResponse : Bytes → Except IoError (BlobResponse × Bytes) :=
  readMessage (serdeJson .blobResponse) blobResponseMaxSize

def BlobCodec.writeRequest : BlobRequest → Except IoError Bytes :=
  writeMessage (serdeJson .blobRequest)

def BlobCodec.writeResponse : BlobResponse → Except IoError Bytes :=
  writeMessage (serdeJson .blobResponse)

def ProjectCodec.readRequest : Bytes → Except IoError (ProjectTask × Bytes) :=
  readMessage (serdeJson .projectRequest) projectRequestMaxSize

def ProjectCodec.readResponse : Bytes → Except IoError (ProjectResult × Bytes) :=
  readMessage (serdeJson .projectResponse) projectResponseMaxSize

def ProjectCodec.writeRequest : ProjectTask → Except IoError Bytes :=
  writeMessage (serdeJson .projectRequest)

def ProjectCodec.writeResponse : ProjectResult → Except IoError Bytes :=
  writeMessage (serdeJson .projectResponse)

end Codecs

namespace MessageKind

/-- The size cap of the reader of a message. -/
def maxSize : MessageKind → ℕ
  | .descriptorRequest => requestMaxSize
  | .descriptorResponse => responseMaxSize
  | .raftRequest => raftRequestMaxSize
  | .raftResponse => raftResponseMaxSize
  | .blobRequest => blobRequestMaxSize
  | .blobResponse => blobResponseMaxSize
  | .projectRequest => projectRequestMaxSize
  | .projectResponse => projectResponseMaxSize

def read (serdeJson : SerdeJson) :
    (kind : MessageKind) → Bytes → Except IoError (kind.Message × Bytes)
  | .descriptorRequest => DescriptorCodec.readRequest serdeJson
  | .descriptorResponse => DescriptorCodec.readResponse serdeJson
  | .raftRequest => RaftMessageCodec.readRequest serdeJson
  | .raftResponse => RaftMessageCodec.readResponse serdeJson
  | .blobRequest => BlobCodec.readRequest serdeJson
  | .blobResponse => BlobCodec.readResponse serdeJson
  | .projectRequest => ProjectCodec.readRequest serdeJson
  | .projectResponse => ProjectCodec.readResponse serdeJson

def write (serdeJson : SerdeJson) : (kind : MessageKind) → kind.Message → Except IoError Bytes
  | .descriptorRequest => DescriptorCodec.writeRequest serdeJson
  | .descriptorResponse => DescriptorCodec.writeResponse serdeJson
  | .raftRequest => RaftMessageCodec.writeRequest serdeJson
  | .raftResponse => RaftMessageCodec.writeResponse serdeJson
  | .blobRequest => BlobCodec.writeRequest serdeJson
  | .blobResponse => BlobCodec.writeResponse serdeJson
  | .projectRequest => ProjectCodec.writeRequest serdeJson
  | .projectResponse => ProjectCodec.writeResponse serdeJson

/-- The readers differ in their cap only. -/
theorem read_eq_readMessage (serdeJson : SerdeJson) (kind : MessageKind) :
    kind.read serdeJson = readMessage (serdeJson kind) kind.maxSize := by
  cases kind <;> rfl

theorem write_eq_writeMessage (serdeJson : SerdeJson) (kind : MessageKind) :
    kind.write serdeJson = writeMessage (serdeJson kind) := by
  cases kind <;> rfl

/-- Every cap fits the length of four bytes. -/
theorem maxSize_lt (kind : MessageKind) : kind.maxSize < 2 ^ 32 := by
  cases kind <;> decide

end MessageKind

/-- `serde_json` reads a message back from its serialized form, and not from a part of it. -/
structure RoundTrips {Message : Type} (json : JsonForm Message) (message : Message) : Prop where
  parses : ∀ data, json.toVec message = .ok data → json.fromSlice data = .ok message
  complete : ∀ data short, json.toVec message = .ok data → short <+: data → short ≠ data →
    json.fromSlice short ≠ .ok message

/-- A reader with a cap that fits the length gets a written message back exactly when the
serialized form keeps to the cap. -/
theorem readMessage_writeLengthPrefixed_iff {Message : Type} {json : JsonForm Message}
    {message : Message} {data : Bytes} (hround : RoundTrips json message)
    (hdata : json.toVec message = .ok data) {maxSize : ℕ} (hmax : maxSize < 2 ^ 32) :
    readMessage json maxSize (writeLengthPrefixed data) = .ok (message, []) ↔
      data.length ≤ maxSize := by
  rw [readMessage, readLengthPrefixed_writeLengthPrefixed]
  constructor
  · intro hread
    by_contra hlong
    by_cases hcut : data.length % 2 ^ 32 > maxSize
    · simp only [if_pos hcut, reduceCtorEq] at hread
    · have hshort : data.take (data.length % 2 ^ 32) ≠ data := by
        intro heq
        have hlength := congrArg List.length heq
        rw [List.length_take] at hlength
        omega
      have hfails := hround.complete data _ hdata (List.take_prefix _ data) hshort
      rw [if_neg hcut] at hread
      cases hparsed : json.fromSlice (data.take (data.length % 2 ^ 32)) with
      | error error => simp only [hparsed, reduceCtorEq] at hread
      | ok parsed =>
        simp only [hparsed, Except.ok.injEq, Prod.mk.injEq] at hread
        exact hfails (by rw [hparsed, hread.1])
  · intro hfits
    have hcut : data.length % 2 ^ 32 = data.length := Nat.mod_eq_of_lt (by omega)
    rw [hcut, if_neg (by omega), List.take_length, List.drop_length]
    simp only [hround.parses data hdata]

/-- What a codec writes of a message can be read by its peer exactly when the serialized form
keeps to the cap of the reader. -/
theorem read_of_write_iff (serdeJson : SerdeJson) (kind : MessageKind) (message : kind.Message)
    (hround : RoundTrips (serdeJson kind) message) :
    (∀ bytes, kind.write serdeJson message = .ok bytes →
      kind.read serdeJson bytes = .ok (message, [])) ↔
      ∀ data, (serdeJson kind).toVec message = .ok data → data.length ≤ kind.maxSize := by
  rw [kind.write_eq_writeMessage, kind.read_eq_readMessage]
  cases hdata : (serdeJson kind).toVec message with
  | error error => simp only [writeMessage, hdata, reduceCtorEq, false_implies, implies_true]
  | ok data =>
    simp only [writeMessage, hdata, Except.ok.injEq, forall_eq']
    exact readMessage_writeLengthPrefixed_iff hround hdata kind.maxSize_lt

def jsonByteArray (data : Bytes) : Bytes :=
  utf8 "[" ++ (utf8 ",").intercalate (data.map fun byte ↦ utf8 (toString byte.toNat)) ++ utf8 "]"

def blobResponseJson (response : BlobResponse) : Bytes :=
  utf8 ("\x7b\"hash\":" ++ Storage.jsonString response.hash ++ ",\"found\":" ++
    toString response.found ++ ",\"data\":") ++ jsonByteArray response.data ++ utf8 "\x7d"

example : blobResponseJson ⟨"ab", true, [0, 255]⟩ =
    utf8 "\x7b\"hash\":\"ab\",\"found\":true,\"data\":[0,255]\x7d" := by decide

/-- `serde_json` as far as one blob response needs it. -/
def serdeJsonOf (response : BlobResponse) : SerdeJson
  | .blobResponse =>
    { toVec := fun other ↦ .ok (blobResponseJson other)
      fromSlice := fun data ↦
        if data = blobResponseJson response then .ok response else .error "expected value" }
  | _ => ⟨fun _ ↦ .error "unsupported", fun _ ↦ .error "unsupported"⟩

theorem roundTrips_serdeJsonOf (response : BlobResponse) :
    RoundTrips (serdeJsonOf response .blobResponse) response where
  parses := by
    intro data hdata
    exact if_pos (Except.ok.inj hdata).symm
  complete := by
    intro data short hdata _ hshort hparsed
    rw [← Except.ok.inj hdata] at hshort
    have herror : (serdeJsonOf response .blobResponse).fromSlice short = .error "expected value" :=
      if_neg hshort
    rw [herror] at hparsed
    cases hparsed

theorem read_of_write_iff_small_blob :
    let response : BlobResponse := ⟨"ab", true, [0, 255]⟩
    RoundTrips (serdeJsonOf response .blobResponse) response ∧
      ((∀ bytes, MessageKind.blobResponse.write (serdeJsonOf response) response = .ok bytes →
        MessageKind.blobResponse.read (serdeJsonOf response) bytes = .ok (response, [])) ↔
        ∀ data, (serdeJsonOf response .blobResponse).toVec response = .ok data →
          data.length ≤ MessageKind.blobResponse.maxSize) := by
  intro response
  exact ⟨roundTrips_serdeJsonOf response,
    read_of_write_iff (serdeJsonOf response) .blobResponse response (roundTrips_serdeJsonOf response)⟩

/-- The answer for a file of zero bytes. -/
def zeroFile (size : ℕ) : BlobResponse where
  hash := "00"
  found := true
  data := List.replicate size 0

/-- Every zero byte takes two bytes of JSON, but the first. -/
theorem length_jsonByteArray_replicate_zero (size : ℕ) :
    (jsonByteArray (List.replicate (size + 1) 0)).length = 2 * size + 3 := by
  have hitems : ((utf8 ",").intercalate (List.replicate (size + 1) (utf8 "0"))).length =
      2 * size + 1 := by
    induction size with
    | zero => decide
    | succ size ih =>
      rw [List.replicate_succ, List.replicate_succ, List.intercalate_cons_cons,
        ← List.replicate_succ, List.length_append, List.length_append, ih]
      have hzero : (utf8 "0").length + (utf8 ",").length = 2 := by decide
      omega
  have hbrackets : (utf8 "[").length + (utf8 "]").length = 2 := by decide
  have hzero : utf8 (toString (0 : UInt8).toNat) = utf8 "0" := by decide
  rw [jsonByteArray, List.map_replicate, hzero, List.length_append, List.length_append, hitems]
  omega

/-- A file of 256 MiB of zero bytes, half of what the cap is meant to let through, is written in a
form that the reader rejects. -/
theorem not_read_of_write_zero_file :
    ¬ ∀ (serdeJson : SerdeJson) (kind : MessageKind) (message : kind.Message) (bytes : Bytes),
      RoundTrips (serdeJson kind) message → kind.write serdeJson message = .ok bytes →
        kind.read serdeJson bytes = .ok (message, []) := by
  intro hgeneral
  have hlong : ∀ size, size + 1 = 256 * 1024 * 1024 →
      ¬ (blobResponseJson (zeroFile (size + 1))).length ≤ blobResponseMaxSize := by
    intro size hsize hfits
    have harray : (jsonByteArray (zeroFile (size + 1)).data).length = 2 * size + 3 :=
      length_jsonByteArray_replicate_zero size
    rw [blobResponseJson, List.length_append, List.length_append, harray] at hfits
    simp only [blobResponseMaxSize] at hfits
    omega
  have hround := roundTrips_serdeJsonOf (zeroFile (256 * 1024 * 1024))
  have hread := hgeneral (serdeJsonOf (zeroFile (256 * 1024 * 1024))) .blobResponse
    (zeroFile (256 * 1024 * 1024)) _ hround rfl
  have hfits := (readMessage_writeLengthPrefixed_iff hround rfl
    MessageKind.blobResponse.maxSize_lt).mp hread
  exact hlong (256 * 1024 * 1024 - 1) rfl hfits

end EdgeOrchestrator.P2P

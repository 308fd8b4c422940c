import EdgeOrchestrator.P2P.Protocol
import EdgeOrchestrator.Wire.Documents

/-!
# The messages of the four protocols

Every request and response is a struct. A message that reads back reaches the peer exactly when its
JSON keeps to the cap of the reader. Bytes travel as a JSON array of numbers, each of which takes
two to four characters, so how large a blob may be depends on its bytes.
-/

namespace EdgeOrchestrator.Wire

open Codecs Node P2P Serde Storage

variable (text : SerdeReader) (forms : TextForms)

def descriptorRequest : Codec Json DescriptorRequest :=
  struct (.required "requester_id" string .nil) (by decide)
    { toFun := fun request ↦ (request.requesterId, ())
      invFun := fun (requesterId, ()) ↦ { requesterId }
      left_inv := fun _ ↦ rfl
      right_inv := fun _ ↦ rfl }

def descriptorResponse : Codec Json DescriptorResponse :=
  struct (.required "descriptor_json" string .nil) (by decide)
    { toFun := fun response ↦ (response.descriptorJson, ())
      invFun := fun (descriptorJson, ()) ↦ { descriptorJson }
      left_inv := fun _ ↦ rfl
      right_inv := fun _ ↦ rfl }

def raftMessageRequest : Codec Json RaftMessageRequest :=
  struct (.required "data" (vec byte) .nil) (by decide)
    { toFun := fun request ↦ (request.data, ())
      invFun := fun (data, ()) ↦ { data }
      left_inv := fun _ ↦ rfl
      right_inv := fun _ ↦ rfl }

def raftMessageResponse : Codec Json RaftMessageResponse :=
  struct (.required "accepted" bool .nil) (by decide)
    { toFun := fun response ↦ (response.accepted, ())
      invFun := fun (accepted, ()) ↦ { accepted }
      left_inv := fun _ ↦ rfl
      right_inv := fun _ ↦ rfl }

def blobRequest : Codec Json BlobRequest :=
  struct (.required "hash" string .nil) (by decide)
    { toFun := fun request ↦ (request.hash, ())
      invFun := fun (hash, ()) ↦ { hash }
      left_inv := fun _ ↦ rfl
      right_inv := fun _ ↦ rfl }

def blobResponse : Codec Json BlobResponse :=
  struct (.required "hash" string <| .required "found" bool <| .required "data" (vec byte) .nil)
    (by decide)
    { toFun := fun response ↦ (response.hash, response.found, response.data, ())
      invFun := fun (hash, found, data, ()) ↦ { hash, found, data }
      left_inv := fun _ ↦ rfl
      right_inv := fun _ ↦ rfl }

def message : (kind : MessageKind) → Codec Json kind.Message
  | .descriptorRequest => descriptorRequest
  | .descriptorResponse => descriptorResponse
  | .raftRequest => raftMessageRequest
  | .raftResponse => raftMessageResponse
  | .blobRequest => blobRequest
  | .blobResponse => blobResponse
  | .projectRequest => projectTask forms
  | .projectResponse => projectResult forms

/-- Writing a message never fails. -/
def jsonForm {Message : Type} (codec : Codec Json Message) : JsonForm Message where
  toVec message := .ok (toVec codec message)
  fromSlice := text.fromSlice codec

def serdeJson : SerdeJson := fun kind ↦ jsonForm text (message forms kind)

/-- What the peer gets of a message. -/
def transfer (kind : MessageKind) (message : kind.Message) : Except IoError kind.Message :=
  match kind.write (serdeJson text forms) message with
  | .error error => .error error
  | .ok bytes => (kind.read (serdeJson text forms) bytes).map Prod.fst

/-- A message that the peer can read back when it gets it whole. -/
structure Readable (kind : MessageKind) (content : kind.Message) : Prop where
  valid : (message forms kind).Valid content
  readsBack : text.ReadsBack ((message forms kind).encode content)

variable {text forms}

/-- No proper part of the written message is read as anything. -/
theorem Readable.fromSlice_of_part {kind : MessageKind} {content : kind.Message}
    (hreadable : Readable text forms kind content) {short : Bytes}
    (hshort : short <+: toVec (message forms kind) content)
    (hne : short ≠ toVec (message forms kind) content) :
    ∃ error, (serdeJson text forms kind).fromSlice short = .error error := by
  change ∃ error, text.fromSlice (message forms kind) short = .error error
  cases hother : text.parse short with
  | error error => exact ⟨error, by simp only [SerdeReader.fromSlice, hother]⟩
  | ok other => exact absurd hother (hreadable.readsBack.complete short hshort hne other)

theorem Readable.roundTrips {kind : MessageKind} {content : kind.Message}
    (hreadable : Readable text forms kind content) :
    RoundTrips (serdeJson text forms kind) content where
  parses := by
    intro data hdata
    rw [← Except.ok.inj hdata]
    exact SerdeReader.fromSlice_toVec hreadable.valid hreadable.readsBack
  complete := by
    intro data short hdata hshort hne hparsed
    rw [← Except.ok.inj hdata] at hshort hne
    obtain ⟨error, herror⟩ := hreadable.fromSlice_of_part hshort hne
    rw [herror] at hparsed
    cases hparsed

theorem transfer_eq (text : SerdeReader) (forms : TextForms) (kind : MessageKind)
    (content : kind.Message) :
    transfer text forms kind content =
      (readMessage (serdeJson text forms kind) kind.maxSize
        (writeLengthPrefixed (toVec (message forms kind) content))).map Prod.fst := by
  rw [transfer, kind.write_eq_writeMessage, kind.read_eq_readMessage]
  rfl

/-- The peer gets a message whose JSON keeps to the cap. -/
theorem transfer_of_fits {kind : MessageKind} {content : kind.Message}
    (hreadable : Readable text forms kind content)
    (hfits : (toVec (message forms kind) content).length ≤ kind.maxSize) :
    transfer text forms kind content = .ok content := by
  rw [transfer_eq, (readMessage_writeLengthPrefixed_iff hreadable.roundTrips rfl
    kind.maxSize_lt).mpr hfits]
  rfl

/-- The peer gets an error for a longer message, also where the cut length is below the cap. -/
theorem transfer_of_too_long {kind : MessageKind} {content : kind.Message}
    (hreadable : Readable text forms kind content)
    (hlong : kind.maxSize < (toVec (message forms kind) content).length) :
    ∃ error, transfer text forms kind content = .error error := by
  rw [transfer_eq, readMessage, readLengthPrefixed_writeLengthPrefixed]
  set data := toVec (message forms kind) content with hdata
  by_cases hcut : data.length % 2 ^ 32 > kind.maxSize
  · rw [if_pos hcut]
    exact ⟨_, rfl⟩
  · have hpart : data.take (data.length % 2 ^ 32) ≠ data := by
      intro heq
      have hlength := congrArg List.length heq
      rw [List.length_take] at hlength
      omega
    obtain ⟨error, herror⟩ := hreadable.fromSlice_of_part (List.take_prefix _ data) hpart
    rw [if_neg hcut]
    simp only [herror]
    exact ⟨_, rfl⟩

/-- What gets through is what was sent. -/
theorem Readable.eq_of_transfer {kind : MessageKind} {content other : kind.Message}
    (hreadable : Readable text forms kind content)
    (htransfer : transfer text forms kind content = .ok other) : other = content := by
  rcases le_or_gt (toVec (message forms kind) content).length kind.maxSize with hfits | hlong
  · rw [transfer_of_fits hreadable hfits] at htransfer
    exact (Except.ok.inj htransfer).symm
  · obtain ⟨error, hlost⟩ := transfer_of_too_long hreadable hlong
    rw [hlost] at htransfer
    cases htransfer

/-! ## How large a blob may be -/

/-- The decimal digits of a number. -/
theorem length_utf8_repr {number digits : ℕ} (hnumber : number < 10 ^ digits) (hpos : 0 < digits) :
    1 ≤ (utf8 (Nat.repr number)).length ∧ (utf8 (Nat.repr number)).length ≤ digits := by
  have hlist : (Nat.repr number).toList = Nat.toDigits 10 number := by
    rw [Nat.repr_eq_ofList_toDigits, String.toList_ofList]
  have hascii : ∀ char ∈ (Nat.repr number).toList, char.toNat < 128 := by
    intro char hmem
    rw [hlist] at hmem
    exact (ascii_of_mem_toDigits hmem).2
  rw [length_utf8_of_ascii hascii, hlist]
  exact ⟨Nat.length_toDigits_pos, (Nat.length_toDigits_le_iff (by decide) hpos).mpr hnumber⟩

theorem length_compact_byte (value : UInt8) :
    1 ≤ (utf8 (compact (byte.encode value))).length ∧
      (utf8 (compact (byte.encode value))).length ≤ 3 :=
  length_utf8_repr (lt_trans value.toNat_lt (by decide)) (by decide)

/-- The items of an array of bytes, with the commas between them. -/
theorem length_compactValues_bytes (value : UInt8) (rest : Bytes) :
    2 * rest.length + 1 ≤ (utf8 (compactValues ((value :: rest).map byte.encode))).length ∧
      (utf8 (compactValues ((value :: rest).map byte.encode))).length ≤ 4 * rest.length + 3 := by
  have hfirst := length_compact_byte value
  induction rest generalizing value with
  | nil => exact ⟨hfirst.1, hfirst.2⟩
  | cons next rest ih =>
    have hrest := ih next (length_compact_byte next)
    have hvalues : compactValues ((value :: next :: rest).map byte.encode) =
        compact (byte.encode value) ++ "," ++ compactValues ((next :: rest).map byte.encode) := rfl
    have hcomma : (utf8 ",").length = 1 := by decide
    rw [hvalues, utf8_append, utf8_append, List.length_append, List.length_append, hcomma,
      List.length_cons]
    omega

/-- The array of some bytes: two to four characters for each. -/
theorem length_compact_bytes (data : Bytes) :
    2 * data.length + 1 ≤ (utf8 (compact ((vec byte).encode data))).length ∧
      (utf8 (compact ((vec byte).encode data))).length ≤ 4 * data.length + 2 := by
  have harray : compact ((vec byte).encode data) =
      "[" ++ compactValues (data.map byte.encode) ++ "]" := rfl
  have hopen : (utf8 "[").length = 1 := by decide
  have hclose : (utf8 "]").length = 1 := by decide
  rw [harray, utf8_append, utf8_append, List.length_append, List.length_append, hopen, hclose]
  cases data with
  | nil => decide
  | cons value rest =>
    have hvalues := length_compactValues_bytes value rest
    rw [List.length_cons]
    omega

theorem length_jsonString_digest {hash : Hash} (hhash : IsDigest hash) :
    (utf8 (jsonString hash)).length = 66 := by
  have hplain : ∀ char ∈ hash.toList, IsPlain char := by
    intro char hchar
    obtain ⟨digit, hdigit, rfl⟩ := hhash.hexDigits char hchar
    exact isPlain_hexDigit hdigit
  rw [length_jsonString_of_plain hplain, hhash.length]

theorem length_toVec_blobResponse {hash : Hash} (hhash : IsDigest hash) (data : Bytes) :
    (toVec blobResponse ⟨hash, true, data⟩).length =
      96 + (utf8 (compact ((vec byte).encode data))).length := by
  have htext : toVec blobResponse ⟨hash, true, data⟩ =
      utf8 ("\x7b" ++ (jsonString "hash" ++ ":" ++ jsonString hash ++ "," ++
        (jsonString "found" ++ ":" ++ "true" ++ "," ++
          (jsonString "data" ++ ":" ++ compact ((vec byte).encode data)))) ++ "\x7d") := rfl
  have hopen : (utf8 "\x7b").length = 1 := by decide
  have hhashName : (utf8 (jsonString "hash")).length = 6 := by decide
  have hfoundName : (utf8 (jsonString "found")).length = 7 := by decide
  have hdataName : (utf8 (jsonString "data")).length = 6 := by decide
  have hcolon : (utf8 ":").length = 1 := by decide
  have hcomma : (utf8 ",").length = 1 := by decide
  have htrue : (utf8 "true").length = 4 := by decide
  have hclose : (utf8 "\x7d").length = 1 := by decide
  rw [htext]
  simp only [utf8_append, List.length_append, hopen, hhashName, hfoundName, hdataName, hcolon,
    hcomma, htrue, hclose, length_jsonString_digest hhash]
  omega

/-- A stored blob that is 32 bytes short of 128 MiB reaches the peer whatever its bytes are, and one
of 256 MiB never does. -/
theorem transfer_stored_blob (primitives : Primitives) {data : Bytes}
    (hreadable : Readable text forms .blobResponse ⟨hashBlob primitives data, true, data⟩) :
    (data.length + 32 ≤ 128 * 1024 * 1024 →
      transfer text forms .blobResponse ⟨hashBlob primitives data, true, data⟩ =
        .ok ⟨hashBlob primitives data, true, data⟩) ∧
    (256 * 1024 * 1024 ≤ data.length →
      ∃ error, transfer text forms .blobResponse ⟨hashBlob primitives data, true, data⟩ =
        .error error) := by
  have hhash : IsDigest (hashBlob primitives data) := isDigest_sha256 primitives _
  have hlength :
      (toVec (message forms .blobResponse) ⟨hashBlob primitives data, true, data⟩).length =
        96 + (utf8 (compact ((vec byte).encode data))).length :=
    length_toVec_blobResponse hhash data
  have hbytes := length_compact_bytes data
  have hcap : MessageKind.blobResponse.maxSize = 512 * 1024 * 1024 := rfl
  constructor
  · intro hsmall
    apply transfer_of_fits hreadable
    rw [hlength, hcap]
    omega
  · intro hlarge
    apply transfer_of_too_long hreadable
    rw [hlength, hcap]
    omega

end EdgeOrchestrator.Wire

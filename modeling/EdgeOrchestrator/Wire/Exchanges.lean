import EdgeOrchestrator.Node.LiveIncarnation
import EdgeOrchestrator.Wire.Messages

/-!
# Requests that the swarm loop answers on the spot

The asking node writes a request, the loop of the other node reads it and answers, and the asking
node reads the answer. When a message does not get through, the asking node sees a failure. The
descriptors that a node learns this way are those of the peers whose answer keeps to its cap, each
as the peer last sent it.
-/

namespace EdgeOrchestrator.Wire

open Codecs Node P2P Raft Serde Storage
open Node.AskedPeers Node.LiveIncarnation

variable (text : SerdeReader) (forms : TextForms)

/-- A protocol whose requests are answered while they are handled. -/
structure Protocol where
  request : MessageKind
  response : MessageKind
  event : RequestResponse request.Message response.Message → BehaviourEvent
  answer : SwarmResponse → Option response.Message

def descriptorProtocol : Protocol where
  request := .descriptorRequest
  response := .descriptorResponse
  event := .descriptorExchange
  answer
    | .descriptor response => some response
    | _ => none

def blobProtocol : Protocol where
  request := .blobRequest
  response := .blobResponse
  event := .blobExchange
  answer
    | .blob response => some response
    | _ => none

/-- The loop of a node with a descriptor, which reads and writes descriptors as JSON. -/
def swarmContext (selfPeerId : PeerId) (selfDescriptor : NodeDescriptor)
    (blobProvider : Option (Hash → Option Bytes)) : SwarmContext where
  selfPeerId := selfPeerId
  selfDescriptor := selfDescriptor
  blobProvider := blobProvider
  descriptorToJson descriptor := some (compact ((nodeDescriptor forms).encode descriptor))
  descriptorOfJson json := (text.fromSlice (nodeDescriptor forms) (utf8 json)).toOption

section Exchange

variable (protocol : Protocol) (asker answerer : SwarmContext)

/-- What the asking node sees of the request: the answer, or a failure. -/
def outcome (request : protocol.request.Message) :
    RequestResponse protocol.request.Message protocol.response.Message :=
  match transfer text forms protocol.request request with
  | .error _ => .outboundFailure answerer.selfPeerId "connection closed"
  | .ok request =>
    match (answerer.handleSwarmEvent
        (.behaviour (protocol.event (.request asker.selfPeerId request)))).2.bind
      protocol.answer with
    | none => .outboundFailure answerer.selfPeerId "connection closed"
    | some response =>
      match transfer text forms protocol.response response with
      | .error _ => .outboundFailure answerer.selfPeerId "io error"
      | .ok response => .response answerer.selfPeerId response

/-- The events that a request brings to the asking node. -/
def exchange (request : protocol.request.Message) : List Event :=
  (asker.handleSwarmEvent
    (.behaviour (protocol.event (outcome text forms protocol asker answerer request)))).1

end Exchange

/-- `SwarmCommand::RequestDescriptor` -/
def requestDescriptor (asker answerer : SwarmContext) : List Event :=
  exchange text forms descriptorProtocol asker answerer
    { requesterId := asker.selfDescriptor.nodeId.display }

/-- `SwarmCommand::RequestBlob` -/
def requestBlob (asker answerer : SwarmContext) (hash : Hash) : List Event :=
  exchange text forms blobProtocol asker answerer { hash := hash }

/-- `DescriptorResponse::from_descriptor` -/
def fromDescriptor (descriptor : NodeDescriptor) : DescriptorResponse where
  descriptorJson := compact ((nodeDescriptor forms).encode descriptor)

/-- The answer with the descriptor keeps to its cap. -/
def FitsAnswer (descriptor : NodeDescriptor) : Prop :=
  (toVec descriptorResponse (fromDescriptor forms descriptor)).length ≤ responseMaxSize

/-- The length is counted over the characters of the descriptor and of the answer around it. -/
theorem fitsAnswer_iff (descriptor : NodeDescriptor) :
    FitsAnswer forms descriptor ↔
      (('\x7b' :: '"' :: "descriptor_json".toList.flatMap jsonChar ++ ['"', ':', '"'] ++
        (compactChars ((nodeDescriptor forms).encode descriptor)).flatMap jsonChar ++
          ['"', '\x7d']).flatMap String.utf8EncodeChar).length ≤ responseMaxSize := by
  have hencode : descriptorResponse.encode (fromDescriptor forms descriptor) =
      .object [("descriptor_json",
        .string (compact ((nodeDescriptor forms).encode descriptor)))] := rfl
  rw [FitsAnswer, toVec, hencode, utf8_compact, compactChars, compactCharsOfMembers,
    compactChars, toList_compact]
  simp only [List.append_assoc, List.cons_append, List.nil_append]

instance : DecidablePred (FitsAnswer forms) :=
  fun descriptor ↦ decidable_of_iff _ (fitsAnswer_iff forms descriptor).symm

/-- What is written for a descriptor is read back, on its own and inside an answer. -/
structure DescriptorReadable (descriptor : NodeDescriptor) : Prop where
  valid : (nodeDescriptor forms).Valid descriptor
  readsBack : text.ReadsBack ((nodeDescriptor forms).encode descriptor)
  answerReadsBack : text.ReadsBack (descriptorResponse.encode (fromDescriptor forms descriptor))

/-- The monitor of a new node after it asked peers for their descriptors, one after the other. -/
def monitorAfterRequests (primitives : Primitives) (fault : Option WriteFault) (now : Instant)
    (store : LocalObjectStore) (asker : SwarmContext) (answerers : List SwarmContext) :
    EventMonitor :=
  (answerers.flatMap (requestDescriptor text forms asker)).foldl
    (fun monitor event ↦ (monitor.handleEvent primitives fault now event).1)
    { cas := { store := store } }

variable {text forms}

section Outcome

variable (protocol : Protocol) {asker answerer : SwarmContext}
  {request : protocol.request.Message} {response : protocol.response.Message}

/-- An answer that gets through is handled by the asking node. -/
theorem exchange_of_ok (hrequest : transfer text forms protocol.request request = .ok request)
    (hanswer : (answerer.handleSwarmEvent
      (.behaviour (protocol.event (.request asker.selfPeerId request)))).2.bind protocol.answer =
        some response)
    (hresponse : transfer text forms protocol.response response = .ok response) :
    exchange text forms protocol asker answerer request =
      (asker.handleSwarmEvent
        (.behaviour (protocol.event (.response answerer.selfPeerId response)))).1 := by
  simp only [exchange, outcome, hrequest, hanswer, hresponse]

/-- An answer that gets lost is a failure for the asking node. -/
theorem exchange_of_error {error : IoError}
    (hrequest : transfer text forms protocol.request request = .ok request)
    (hanswer : (answerer.handleSwarmEvent
      (.behaviour (protocol.event (.request asker.selfPeerId request)))).2.bind protocol.answer =
        some response)
    (hresponse : transfer text forms protocol.response response = .error error) :
    exchange text forms protocol asker answerer request =
      (asker.handleSwarmEvent
        (.behaviour (protocol.event (.outboundFailure answerer.selfPeerId "io error")))).1 := by
  simp only [exchange, outcome, hrequest, hanswer, hresponse]

end Outcome

/-- A UUID is written with digits and hyphens. -/
theorem isPlainText_display (uuid : Uuid) : IsPlainText uuid.display := by
  have hdigits : ∀ char ∈ hexNibbles uuid.toNat 32, IsPlain char := by
    intro char hmem
    obtain ⟨digit, hdigit, rfl⟩ := mem_hexNibbles hmem
    exact isPlain_hexDigit hdigit
  have hhyphen : IsPlain '-' := by decide
  intro char hchar
  simp only [Uuid.display, String.toList_ofList, List.mem_append, List.mem_cons] at hchar
  rcases hchar with (((hchar | rfl | hchar) | rfl | hchar) | rfl | hchar) | rfl | hchar
  · exact hdigits char (List.mem_of_mem_take hchar)
  · exact hhyphen
  · exact hdigits char (List.mem_of_mem_drop (List.mem_of_mem_take hchar))
  · exact hhyphen
  · exact hdigits char (List.mem_of_mem_drop (List.mem_of_mem_take hchar))
  · exact hhyphen
  · exact hdigits char (List.mem_of_mem_drop (List.mem_of_mem_take hchar))
  · exact hhyphen
  · exact hdigits char (List.mem_of_mem_drop hchar)

theorem length_jsonString_uuid (uuid : Uuid) : (utf8 (jsonString uuid.display)).length = 38 := by
  have hlength : uuid.display.toList.length = 36 := by
    simp [Uuid.display, length_hexNibbles]
  rw [length_jsonString_of_plain (isPlainText_display uuid), hlength]

/-- The request for a descriptor keeps to its cap. -/
theorem length_toVec_descriptorRequest (uuid : Uuid) :
    (toVec descriptorRequest ⟨uuid.display⟩).length = 55 := by
  have hname : IsPlainText "requester_id" := by decide
  refine (length_compact_of_one_member hname (.string uuid.display)).trans ?_
  rw [compact, length_jsonString_uuid]
  rfl

/-- What is read from the text of a descriptor. -/
theorem descriptorOfJson_compact {descriptor : NodeDescriptor}
    (hreadable : DescriptorReadable text forms descriptor) (selfPeerId : PeerId)
    (selfDescriptor : NodeDescriptor) (provider : Option (Hash → Option Bytes)) :
    (swarmContext text forms selfPeerId selfDescriptor provider).descriptorOfJson
      (compact ((nodeDescriptor forms).encode descriptor)) = some descriptor := by
  have hread := SerdeReader.fromSlice_toVec hreadable.valid hreadable.readsBack
  exact congrArg Except.toOption hread

/-- A peer that is asked for its descriptor becomes known, unless the answer exceeds its cap. -/
theorem requestDescriptor_eq {peerId selfPeerId : PeerId}
    {descriptor selfDescriptor : NodeDescriptor} {provider : Option (Hash → Option Bytes)}
    {selfProvider : Option (Hash → Option Bytes)}
    (hrequest : text.ReadsBack (descriptorRequest.encode ⟨selfDescriptor.nodeId.display⟩))
    (hreadable : DescriptorReadable text forms descriptor) :
    requestDescriptor text forms (swarmContext text forms selfPeerId selfDescriptor selfProvider)
        (swarmContext text forms peerId descriptor provider) =
      if FitsAnswer forms descriptor then [.descriptorReceived peerId descriptor] else [] := by
  have hasked : transfer text forms .descriptorRequest ⟨selfDescriptor.nodeId.display⟩ =
      .ok ⟨selfDescriptor.nodeId.display⟩ := by
    refine transfer_of_fits ⟨⟨trivial, trivial⟩, hrequest⟩ ?_
    have hlength := length_toVec_descriptorRequest selfDescriptor.nodeId
    exact hlength.trans_le (by decide)
  have hanswered : Readable text forms .descriptorResponse (fromDescriptor forms descriptor) :=
    ⟨⟨trivial, trivial⟩, hreadable.answerReadsBack⟩
  have hanswer : ((swarmContext text forms peerId descriptor provider).handleSwarmEvent
      (.behaviour (.descriptorExchange
        (.request selfPeerId ⟨selfDescriptor.nodeId.display⟩)))).2.bind descriptorProtocol.answer =
        some (fromDescriptor forms descriptor) := rfl
  split_ifs with hfits
  · have hgot := transfer_of_fits hanswered hfits
    refine (exchange_of_ok descriptorProtocol hasked hanswer hgot).trans ?_
    have hread := descriptorOfJson_compact hreadable selfPeerId selfDescriptor selfProvider
    change (((swarmContext text forms selfPeerId selfDescriptor selfProvider).descriptorOfJson
      (fromDescriptor forms descriptor).descriptorJson).map
        (Event.descriptorReceived peerId)).toList = _
    rw [fromDescriptor, hread]
    rfl
  · obtain ⟨error, hlost⟩ := transfer_of_too_long hanswered (Nat.lt_of_not_le hfits)
    exact (exchange_of_error descriptorProtocol hasked hanswer hlost).trans rfl

/-- The descriptors that get through, each with the peer it comes from. -/
def delivered (forms : TextForms) (peers : Received) : Received :=
  peers.filter fun entry ↦ FitsAnswer forms entry.2

section Requests

variable {selfPeerId : PeerId} {selfDescriptor : NodeDescriptor}
  {selfProvider : Option (Hash → Option Bytes)} {peers : Received}

/-- The loops of peers, each with its descriptor. -/
def swarmContexts (text : SerdeReader) (forms : TextForms)
    (provider : PeerId → Option (Hash → Option Bytes)) (peers : Received) : List SwarmContext :=
  peers.map fun entry ↦ swarmContext text forms entry.1 entry.2 (provider entry.1)

theorem flatMap_requestDescriptor (provider : PeerId → Option (Hash → Option Bytes))
    (hrequest : text.ReadsBack (descriptorRequest.encode ⟨selfDescriptor.nodeId.display⟩))
    (hreadable : ∀ entry ∈ peers, DescriptorReadable text forms entry.2) :
    (swarmContexts text forms provider peers).flatMap (requestDescriptor text forms
      (swarmContext text forms selfPeerId selfDescriptor selfProvider)) =
        (delivered forms peers).map fun entry ↦ .descriptorReceived entry.1 entry.2 := by
  induction peers with
  | nil => rfl
  | cons entry rest ih =>
    rw [List.forall_mem_cons] at hreadable
    rw [swarmContexts, List.map_cons, List.flatMap_cons, requestDescriptor_eq hrequest hreadable.1,
      ← swarmContexts, ih hreadable.2, delivered, delivered]
    by_cases hfits : FitsAnswer forms entry.2
    · rw [if_pos hfits, List.filter_cons_of_pos (by simpa using hfits)]
      rfl
    · rw [if_neg hfits, List.filter_cons_of_neg (by simpa using hfits)]
      rfl

/-- Whatever peers a node asks, and however often: it knows every peer by the last descriptor that
kept to the cap, and a raft id leads to the last peer that announced it in such a descriptor. -/
theorem tables_after_requests (primitives : Primitives) (fault : Option WriteFault)
    (now : Instant) (store : LocalObjectStore)
    (provider : PeerId → Option (Hash → Option Bytes))
    (hrequest : text.ReadsBack (descriptorRequest.encode ⟨selfDescriptor.nodeId.display⟩))
    (hreadable : ∀ entry ∈ peers, DescriptorReadable text forms entry.2) :
    let monitor := monitorAfterRequests text forms primitives fault now store
      (swarmContext text forms selfPeerId selfDescriptor selfProvider)
      (swarmContexts text forms provider peers)
    (∀ peerId,
        monitor.knownPeers.lookup peerId = lastDescriptor (delivered forms peers) peerId) ∧
      ∀ raftId,
        monitor.raftRegistry.lookup raftId = lastClaimant (delivered forms peers) raftId := by
  intro monitor
  have hmonitor : monitor = (delivered forms peers).foldl (fun (monitor : EventMonitor) entry ↦
      (monitor.handleEvent primitives fault now (.descriptorReceived entry.1 entry.2)).1)
      { cas := { store := store } } := by
    simp only [monitor, monitorAfterRequests]
    rw [flatMap_requestDescriptor provider hrequest hreadable, List.foldl_map]
  rw [hmonitor]
  exact ⟨lookup_knownPeersAfter fault now store (delivered forms peers),
    lookup_registryAfter fault now store (delivered forms peers)⟩

end Requests

/-- The documents that are read while a node asks one like it for its descriptor. -/
def plainDocuments : List Json :=
  [descriptorRequest.encode ⟨plainNode.nodeId.display⟩,
    (nodeDescriptor plainForms).encode plainNode,
    descriptorResponse.encode (fromDescriptor plainForms plainNode)]

theorem pairwise_apart_plainDocuments : plainDocuments.Pairwise Apart := by
  refine List.Pairwise.cons ?_ (List.Pairwise.cons ?_ (List.pairwise_singleton ..))
  · intro document hmem
    simp only [List.mem_cons, List.not_mem_nil, or_false] at hmem
    rcases hmem with rfl | rfl
    · exact apart_of_first_name (by decide) (by decide) (by decide)
    · exact apart_of_first_name (by decide) (by decide) (by decide)
  · intro document hmem
    rw [List.mem_singleton] at hmem
    rw [hmem]
    exact apart_of_first_name (by decide) (by decide) (by decide)

theorem descriptorReadable_plainNode :
    DescriptorReadable (textOf plainDocuments) plainForms plainNode where
  valid := valid_plainNode
  readsBack := readsBack_textOf pairwise_apart_plainDocuments (by simp [plainDocuments])
  answerReadsBack := readsBack_textOf pairwise_apart_plainDocuments (by simp [plainDocuments])

theorem tables_after_requests_plainNode :
    let peers : Received := [(⟨[1]⟩, plainNode), (⟨[2]⟩, plainNode), (⟨[1]⟩, plainNode)]
    let monitor := monitorAfterRequests (textOf plainDocuments) plainForms tabulated none 0 ⟨[], ∅⟩
      (swarmContext (textOf plainDocuments) plainForms ⟨[3]⟩ plainNode none)
      (swarmContexts (textOf plainDocuments) plainForms (fun _ ↦ none) peers)
    (∀ peerId,
      monitor.knownPeers.lookup peerId = lastDescriptor (delivered plainForms peers) peerId) ∧
      ∀ raftId,
        monitor.raftRegistry.lookup raftId = lastClaimant (delivered plainForms peers) raftId := by
  intro peers
  apply tables_after_requests
  · exact readsBack_textOf pairwise_apart_plainDocuments (by simp [plainDocuments])
  · intro entry hentry
    have hplain : entry.2 = plainNode := by
      simp only [peers, List.mem_cons, List.not_mem_nil, or_false] at hentry
      rcases hentry with rfl | rfl | rfl <;> rfl
    rw [hplain]
    exact descriptorReadable_plainNode

end EdgeOrchestrator.Wire

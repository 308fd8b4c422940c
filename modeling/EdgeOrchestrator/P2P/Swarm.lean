import EdgeOrchestrator.P2P.Events

/-!
# Swarm events

The swarm loop turns every event of libp2p into application events and answers the inbound requests
of the descriptor, raft and blob protocols on the spot. Inbound project requests start a job instead.
The JSON form of a descriptor and the lookup of a blob are inputs.
-/

namespace EdgeOrchestrator.P2P

/-- An event of a request-response protocol. -/
inductive RequestResponse (Request Response : Type)
  | request (peer : PeerId) (request : Request)
  | response (peer : PeerId) (response : Response)
  | outboundFailure (peer : PeerId) (error : String)
  | inboundFailure (peer : PeerId) (error : String)
  | responseSent (peer : PeerId)
  deriving DecidableEq, Repr

structure DescriptorRequest where
  requesterId : String
  deriving DecidableEq, Repr

structure DescriptorResponse where
  descriptorJson : String
  deriving DecidableEq, Repr

structure RaftMessageRequest where
  data : Bytes
  deriving DecidableEq, Repr

structure RaftMessageResponse where
  accepted : Bool
  deriving DecidableEq, Repr

structure BlobRequest where
  hash : Hash
  deriving DecidableEq, Repr

structure BlobResponse where
  hash : Hash
  found : Bool
  data : Bytes
  deriving DecidableEq, Repr

inductive BehaviourEvent
  | mdnsDiscovered (peers : List (PeerId × Multiaddr))
  | mdnsExpired (peers : List (PeerId × Multiaddr))
  | identifyReceived (peerId : PeerId) (agentVersion : String)
  | identifyOther
  | ping (peer : PeerId)
  | descriptorExchange (event : RequestResponse DescriptorRequest DescriptorResponse)
  | raftExchange (event : RequestResponse RaftMessageRequest RaftMessageResponse)
  | blobExchange (event : RequestResponse BlobRequest BlobResponse)
  | projectExchange (event : RequestResponse ProjectTask ProjectResult)
  deriving DecidableEq, Repr

inductive SwarmEvent
  | newListenAddr (address : Multiaddr)
  | connectionClosed (peerId : PeerId)
  | connectionEstablished (peerId : PeerId)
  | behaviour (event : BehaviourEvent)
  | other
  deriving DecidableEq, Repr

/-- A response sent while an event is handled. -/
inductive SwarmResponse
  | descriptor (response : DescriptorResponse)
  | raft (response : RaftMessageResponse)
  | blob (response : BlobResponse)
  deriving DecidableEq, Repr

/-- What the swarm loop is started with, and the JSON form of a descriptor both ways. -/
structure SwarmContext where
  selfPeerId : PeerId
  selfDescriptor : NodeDescriptor
  blobProvider : Option (Hash → Option Bytes) := none
  descriptorToJson : NodeDescriptor → Option String
  descriptorOfJson : String → Option NodeDescriptor

namespace SwarmContext

def handleDescriptorExchange (context : SwarmContext) :
    RequestResponse DescriptorRequest DescriptorResponse → Option Event × Option SwarmResponse
  | .request peer _ =>
    match context.descriptorToJson context.selfDescriptor with
    | some json => (some (.descriptorSent peer), some (.descriptor { descriptorJson := json }))
    | none => (none, none)
  | .response peer response =>
    ((context.descriptorOfJson response.descriptorJson).map (.descriptorReceived peer), none)
  | _ => (none, none)

def handleRaftExchange :
    RequestResponse RaftMessageRequest RaftMessageResponse → Option Event × Option SwarmResponse
  | .request peer request =>
    (some (.raftMessageReceived peer request.data), some (.raft { accepted := true }))
  | _ => (none, none)

def handleBlobExchange (context : SwarmContext) :
    RequestResponse BlobRequest BlobResponse → Option Event × Option SwarmResponse
  | .request peer request =>
    let response : BlobResponse :=
      match context.blobProvider.bind fun provider ↦ provider request.hash with
      | some bytes => { hash := request.hash, found := true, data := bytes }
      | none => { hash := request.hash, found := false, data := [] }
    (some (.blobRequestReceived peer request.hash), some (.blob response))
  | .response peer response =>
    (some (.blobResponseReceived peer response.hash response.found response.data), none)
  | _ => (none, none)

/-- The event of a project exchange. The job of an inbound request is not part of it. -/
def handleProjectExchange : RequestResponse ProjectTask ProjectResult → Option Event
  | .response peer response => some (.projectResultReceived peer response)
  | _ => none

/-- The peers of an mDNS batch other than the node itself. -/
def others (context : SwarmContext) (peers : List (PeerId × Multiaddr)) :
    List (PeerId × Multiaddr) :=
  peers.filter fun peer ↦ peer.1 ≠ context.selfPeerId

def handleBehaviourEvent (context : SwarmContext) :
    BehaviourEvent → List Event × Option SwarmResponse
  | .mdnsDiscovered peers =>
    ((context.others peers).map fun peer ↦ .peerDiscovered peer.1 peer.2, none)
  | .mdnsExpired peers => ((context.others peers).map fun peer ↦ .peerExpired peer.1, none)
  | .identifyReceived peerId agentVersion => ([.identified peerId agentVersion], none)
  | .identifyOther => ([], none)
  | .ping _ => ([], none)
  | .descriptorExchange event => (context.handleDescriptorExchange event).map Option.toList id
  | .raftExchange event => (handleRaftExchange event).map Option.toList id
  | .blobExchange event => (context.handleBlobExchange event).map Option.toList id
  | .projectExchange event => ((handleProjectExchange event).toList, none)

/-- The application events and the response that an event of libp2p gives rise to. -/
def handleSwarmEvent (context : SwarmContext) : SwarmEvent → List Event × Option SwarmResponse
  | .newListenAddr address => ([.newListenAddr address], none)
  | .connectionClosed peerId => ([.connectionClosed peerId], none)
  | .connectionEstablished peerId => ([.peerConnected peerId], none)
  | .behaviour event => context.handleBehaviourEvent event
  | .other => ([], none)

/-- A batch of discovered peers without the node itself becomes as many events. -/
theorem length_handleSwarmEvent_mdnsDiscovered {context : SwarmContext}
    {peers : List (PeerId × Multiaddr)} (hself : ∀ peer ∈ peers, peer.1 ≠ context.selfPeerId) :
    (context.handleSwarmEvent (.behaviour (.mdnsDiscovered peers))).1.length = peers.length := by
  have hall : context.others peers = peers := by
    apply List.filter_eq_self.mpr
    intro peer hpeer
    exact decide_eq_true (hself peer hpeer)
  simp only [handleSwarmEvent, handleBehaviourEvent, hall, List.length_map]

end SwarmContext

end EdgeOrchestrator.P2P

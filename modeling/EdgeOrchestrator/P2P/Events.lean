import EdgeOrchestrator.Core.Error

/-!
# Commands and events of the swarm

The swarm task is driven by commands and reports application-level events. Both travel over
bounded channels whose capacities are fixed when the node starts.
-/

namespace EdgeOrchestrator.P2P

inductive SwarmCommand
  | dial (addr : Multiaddr)
  | requestDescriptor (peerId : PeerId)
  | sendRaftMessage (peerId : PeerId) (data : Bytes)
  | requestBlob (peerId : PeerId) (hash : Hash)
  | sendProjectTask (peerId : PeerId) (task : ProjectTask)
  deriving DecidableEq, Repr

inductive Event
  | peerDiscovered (peerId : PeerId) (address : Multiaddr)
  | peerExpired (peerId : PeerId)
  | descriptorReceived (peerId : PeerId) (descriptor : NodeDescriptor)
  | descriptorSent (peerId : PeerId)
  | newListenAddr (address : Multiaddr)
  | identified (peerId : PeerId) (agentVersion : String)
  | connectionClosed (peerId : PeerId)
  | peerConnected (peerId : PeerId)
  | projectResultReceived (peerId : PeerId) (result : ProjectResult)
  | raftMessageReceived (peerId : PeerId) (data : Bytes)
  | blobRequestReceived (peerId : PeerId) (hash : Hash)
  | blobResponseReceived (peerId : PeerId) (hash : Hash) (found : Bool) (data : Bytes)
  deriving DecidableEq, Repr

/-- Capacity of the channel that carries commands to the swarm loop. -/
def commandCapacity : ℕ := 64

/-- Capacity of the channel that carries events to the node. -/
def eventCapacity : ℕ := 256

end EdgeOrchestrator.P2P

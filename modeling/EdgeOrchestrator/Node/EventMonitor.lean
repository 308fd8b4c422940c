import EdgeOrchestrator.Node.CasFetch
import EdgeOrchestrator.Node.ProjectClient
import EdgeOrchestrator.P2P.Events

/-!
# The event monitor of a node

The monitor keeps the peer tables of the node and answers every event and every dial tick with
commands for the swarm. It sends the commands one after the other and waits for room in the command
channel before it takes its next event. The event handlers are those of a Linux build.
-/

namespace EdgeOrchestrator.Node

open P2P Raft Storage

structure EventMonitor where
  bootstrapAddrs : List Multiaddr := []
  peerAddrs : HashMap PeerId Multiaddr := ∅
  knownPeers : HashMap PeerId NodeDescriptor := ∅
  raftRegistry : RaftIdRegistry := ∅
  projectClient : ProjectClient := {}
  cas : BlobFetcher

/-- What an event makes the monitor send: commands for the swarm, bytes for the raft node and a blob
for the fetches that wait for it. -/
structure MonitorOutput where
  commands : List SwarmCommand := []
  raftIncoming : List Bytes := []
  woken : List (Waiter × Bytes) := []

namespace EventMonitor

/-- Handle one event. The clock and a possible fault of the store are inputs. -/
def handleEvent (primitives : Primitives) (fault : Option WriteFault) (now : Instant)
    (monitor : EventMonitor) : Event → EventMonitor × MonitorOutput
  | .peerDiscovered peerId address =>
    ({ monitor with peerAddrs := monitor.peerAddrs.insert peerId address },
      { commands := [.dial address] })
  | .peerConnected peerId => (monitor, { commands := [.requestDescriptor peerId] })
  | .peerExpired _ => (monitor, {})
  | .descriptorReceived peerId descriptor =>
    ({ monitor with
        raftRegistry :=
          match descriptor.raftId with
          | some raftId => monitor.raftRegistry.insert raftId peerId
          | none => monitor.raftRegistry
        knownPeers := monitor.knownPeers.insert peerId descriptor }, {})
  | .blobRequestReceived _ _ => (monitor, {})
  | .blobResponseReceived _ hash found data =>
    let (_, cas, woken) := monitor.cas.onBlobReceived primitives fault hash found data
    ({ monitor with cas := cas }, { woken := woken.map fun waiter ↦ (waiter, data) })
  | .projectResultReceived _ result =>
    ({ monitor with
        projectClient := (monitor.projectClient.insertDone now result).insertResult result }, {})
  | .raftMessageReceived _ data => (monitor, { raftIncoming := [data] })
  | .descriptorSent _ => (monitor, {})
  | .newListenAddr _ => (monitor, {})
  | .identified _ _ => (monitor, {})
  | .connectionClosed peerId =>
    (monitor, { commands := (monitor.peerAddrs.lookup peerId).toList.map .dial })

/-- The addresses of all discovered peers, without the order in which the map yields them. -/
def discoveredAddrs (monitor : EventMonitor) : Multiset Multiaddr :=
  monitor.peerAddrs.entries.map Sigma.snd

/-- The commands of a dial tick, with the addresses of the discovered peers in the order in which the
map yields them. -/
def dialTick (monitor : EventMonitor) (addrs : List Multiaddr) : List SwarmCommand :=
  (monitor.bootstrapAddrs ++ addrs).map .dial

/-- An event makes the monitor send at most one command. -/
theorem length_handleEvent_commands (primitives : Primitives) (fault : Option WriteFault)
    (now : Instant) (monitor : EventMonitor) (event : Event) :
    (monitor.handleEvent primitives fault now event).2.commands.length ≤ 1 := by
  cases event with
  | connectionClosed peerId =>
    simp only [handleEvent, List.length_map]
    cases monitor.peerAddrs.lookup peerId <;> simp
  | _ => simp [handleEvent]

end EventMonitor

end EdgeOrchestrator.Node

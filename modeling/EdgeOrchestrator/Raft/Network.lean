import EdgeOrchestrator.P2P.Events
import Mathlib.Data.Finset.Sort

/-!
# Raft message transport

Raft messages are queued as swarm commands for the peer that the registry names. The registry maps
raft ids to peers and is filled from received descriptors. A message without a known peer, or one
that finds the command channel full, is refused and lost.
-/

namespace EdgeOrchestrator.Raft

open P2P

/-- Which peer speaks for a raft id. -/
abbrev RaftIdRegistry := HashMap ℕ PeerId

/-- All mappings, sorted by raft id. -/
def RaftIdRegistry.snapshot (registry : RaftIdRegistry) : List (ℕ × PeerId) :=
  (registry.keys.sort (· ≤ ·)).filterMap fun raftId ↦
    (registry.lookup raftId).map fun peerId ↦ (raftId, peerId)

theorem RaftIdRegistry.mem_snapshot {registry : RaftIdRegistry} {raftId : ℕ} {peerId : PeerId} :
    (raftId, peerId) ∈ RaftIdRegistry.snapshot registry ↔
      registry.lookup raftId = some peerId := by
  simp only [RaftIdRegistry.snapshot, List.mem_filterMap, Finset.mem_sort, Finmap.mem_keys,
    Option.map_eq_some_iff, Prod.mk.injEq]
  constructor
  · rintro ⟨other, -, found, hfound, rfl, rfl⟩
    exact hfound
  · intro hfound
    exact ⟨raftId, Finmap.mem_of_lookup_eq_some hfound, peerId, hfound, rfl, rfl⟩

theorem RaftIdRegistry.snapshot_singleton (raftId : ℕ) (peerId : PeerId) :
    RaftIdRegistry.snapshot (Finmap.insert raftId peerId ∅) = [(raftId, peerId)] := by
  have hkeys : (Finmap.insert raftId peerId (∅ : RaftIdRegistry)).keys = {raftId} := by
    ext other
    rw [Finmap.mem_keys, Finmap.mem_insert, Finset.mem_singleton]
    simp [Finmap.notMem_empty]
  rw [RaftIdRegistry.snapshot, hkeys, Finset.sort_singleton]
  simp

/-- A message of raft-rs: the recipient, and the protobuf bytes of the whole message. -/
structure RaftMessage where
  recipient : ℕ
  encoded : Bytes
  deriving DecidableEq, Repr

structure Libp2pRaftTransport where
  registry : RaftIdRegistry
  swarmCommands : List SwarmCommand

/-- Queue a message without waiting for room. -/
def Libp2pRaftTransport.send (transport : Libp2pRaftTransport) (message : RaftMessage) :
    Except CoreError Unit × Libp2pRaftTransport :=
  match transport.registry.lookup message.recipient with
  | none =>
    (.error (.network ("no libp2p PeerId for raft id " ++ toString message.recipient ++
      " (descriptor not received yet)")), transport)
  | some peerId =>
    if transport.swarmCommands.length < commandCapacity then
      (.ok (), { transport with
        swarmCommands := transport.swarmCommands ++ [.sendRaftMessage peerId message.encoded] })
    else
      (.error (.network ("failed to queue raft message for " ++ toString message.recipient ++
        ": no available capacity")), transport)

end EdgeOrchestrator.Raft

import EdgeOrchestrator.Raft.Network
import EdgeOrchestrator.Raft.StateMachine
import EdgeOrchestrator.Raft.Storage

/-!
# The Raft event loop

After every tick, message or proposal the node processes what raft-rs has ready. raft-rs is third
party code: its answers are the `Ready` of one cycle and the `LightReady` that `advance` returns
for it, and the model takes them as input. The storage writes of a cycle may each meet a fault. Every
effect of a cycle is recorded as an action, in the order in which the code performs it.
-/

namespace EdgeOrchestrator.Raft

open Storage

/-- What raft-rs hands out for one cycle. -/
structure Ready where
  messages : List RaftMessage := []
  hs : Option HardState := none
  entries : List Entry := []
  persistedMessages : List RaftMessage := []
  committedEntries : List Entry := []
  deriving DecidableEq, Repr

/-- What raft-rs returns when a cycle is advanced. -/
structure LightReady where
  committedEntries : List Entry := []
  messages : List RaftMessage := []
  deriving DecidableEq, Repr

/-- The answers of raft-rs during one call of `process_ready` that finds something ready. -/
structure ReadyCycle where
  ready : Ready := {}
  lightReady : LightReady := {}
  deriving DecidableEq, Repr

structure RaftNode where
  id : ℕ
  storage : CasRaftStorage
  transport : Libp2pRaftTransport
  state : ClusterState

/-- An observable effect of processing a cycle. -/
inductive NodeAction
  | transportSend (persisted : Bool) (message : RaftMessage) (outcome : Except CoreError Unit)
  | hardStateWrite (outcome : Outcome CoreError Unit)
  | entryWrite (index : ℕ) (outcome : Outcome CoreError Unit)

namespace RaftNode

variable (primitives : Primitives) (decode : Bytes → Except String Proposal)

/-- A node started on an object store. Its log, hard state and replica are empty. -/
def new (id : ℕ) (voters : List ℕ) (objectStore : LocalObjectStore)
    (transport : Libp2pRaftTransport) : RaftNode where
  id := id
  storage := CasRaftStorage.newEmpty objectStore voters
  transport := transport
  state := {}

/-- Hand messages to the transport; a refused one is only logged. -/
def sendMessages (persisted : Bool) : RaftNode → List RaftMessage → RaftNode × List NodeAction
  | node, [] => (node, [])
  | node, message :: rest =>
    let (outcome, transport) := node.transport.send message
    let (after, actions) := sendMessages persisted { node with transport := transport } rest
    (after, .transportSend persisted message outcome :: actions)

/-- Persist the hard state of a cycle, if it carries one; a failure is only logged. -/
def persistHardState (fault : Option WriteFault) (node : RaftNode) :
    Option HardState → RaftNode × List NodeAction
  | none => (node, [])
  | some state =>
    let (outcome, storage) := node.storage.setHardState primitives fault state
    ({ node with storage := storage }, [.hardStateWrite outcome])

/-- Persist the entries of a cycle one after the other; a failure is only logged. -/
def persistEntries (faults : ℕ → Option WriteFault) : RaftNode → List Entry →
    RaftNode × List NodeAction
  | node, [] => (node, [])
  | node, entry :: rest =>
    let (outcome, storage) := node.storage.appendEntry primitives (faults 0) entry
    let (after, actions) :=
      persistEntries (fun write ↦ faults (write + 1)) { node with storage := storage } rest
    (after, .entryWrite entry.index outcome :: actions)

/-- Apply one committed entry: empty and undecodable payloads are passed over. -/
def applyEntry (state : ClusterState) (entry : Entry) : ClusterState :=
  if entry.data = [] then state
  else
    match decode entry.data with
    | .ok proposal => { (state.apply proposal).1 with lastAppliedIndex := entry.index }
    | .error _ => state

/-- Apply committed entries, first one first. -/
def applyCommitted (state : ClusterState) (entries : List Entry) : ClusterState :=
  entries.foldl (applyEntry decode) state

/-- `process_ready`: send, persist, send what waited for the writes, apply, advance. The first
fault strikes the write of the hard state, the later ones the writes of the entries. -/
def processReady (faults : ℕ → Option WriteFault) (node : RaftNode) (cycle : Option ReadyCycle) :
    RaftNode × List NodeAction :=
  match cycle with
  | none => (node, [])
  | some cycle =>
    let (sent, messages) := node.sendMessages false cycle.ready.messages
    let (voted, hardStateWrites) := sent.persistHardState primitives (faults 0) cycle.ready.hs
    let (logged, entryWrites) :=
      voted.persistEntries primitives (fun write ↦ faults (write + 1)) cycle.ready.entries
    let (acknowledged, acknowledgements) :=
      logged.sendMessages true cycle.ready.persistedMessages
    -- `advance` returns `cycle.lightReady`, which the code binds and never reads.
    ({ acknowledged with
        state := applyCommitted decode acknowledged.state cycle.ready.committedEntries },
      messages ++ hardStateWrites ++ entryWrites ++ acknowledgements)

@[simp]
theorem sendMessages_state (persisted : Bool) (node : RaftNode) (messages : List RaftMessage) :
    (node.sendMessages persisted messages).1.state = node.state := by
  induction messages generalizing node with
  | nil => rfl
  | cons message rest ih => exact ih _

@[simp]
theorem sendMessages_storage (persisted : Bool) (node : RaftNode) (messages : List RaftMessage) :
    (node.sendMessages persisted messages).1.storage = node.storage := by
  induction messages generalizing node with
  | nil => rfl
  | cons message rest ih => exact ih _

@[simp]
theorem persistHardState_state (fault : Option WriteFault) (node : RaftNode)
    (hs : Option HardState) :
    (node.persistHardState primitives fault hs).1.state = node.state := by
  cases hs <;> rfl

@[simp]
theorem persistEntries_state (faults : ℕ → Option WriteFault) (node : RaftNode)
    (entries : List Entry) :
    (node.persistEntries primitives faults entries).1.state = node.state := by
  induction entries generalizing node faults with
  | nil => rfl
  | cons entry rest ih => exact ih _ _

/-- A cycle changes the replica by the committed entries of its `Ready` and by nothing else. -/
theorem processReady_state (faults : ℕ → Option WriteFault) (node : RaftNode)
    (cycle : ReadyCycle) :
    (node.processReady primitives decode faults (some cycle)).1.state =
      applyCommitted decode node.state cycle.ready.committedEntries := by
  simp only [processReady, sendMessages_state, persistEntries_state, persistHardState_state]

theorem persistEntries_hardState (faults : ℕ → Option WriteFault) (node : RaftNode)
    (entries : List Entry) :
    (node.persistEntries primitives faults entries).1.storage.hardState =
      node.storage.hardState := by
  induction entries generalizing node faults with
  | nil => rfl
  | cons entry rest ih =>
    rw [← CasRaftStorage.appendEntry_hardState primitives (faults 0) node.storage entry]
    exact ih _ _

/-- Without faults, a cycle leaves the hard state of its `Ready` in the storage. -/
theorem processReady_hardState (node : RaftNode) (cycle : ReadyCycle) :
    (node.processReady primitives decode (fun _ ↦ none) (some cycle)).1.storage.hardState =
      cycle.ready.hs.or node.storage.hardState := by
  simp only [processReady, sendMessages_storage, persistEntries_hardState]
  cases cycle.ready.hs with
  | none => exact congrArg CasRaftStorage.hardState (sendMessages_storage false node _)
  | some state =>
    simp only [persistHardState]
    rw [CasRaftStorage.setHardState_of_not_fails (LocalObjectStore.not_writeFails_none _ _ _)]
    rfl

/-- What wakes the loop up. Messages, proposals and ticks only reach raft-rs. -/
inductive LoopEvent
  | tick
  | message
  | proposal
  | transportClosed
  | proposalsClosed
  deriving DecidableEq, Repr

/-- The loop ends when one of its channels is closed. -/
def LoopEvent.Ends (event : LoopEvent) : Prop := event = .transportClosed ∨ event = .proposalsClosed

instance (event : LoopEvent) : Decidable event.Ends := inferInstanceAs (Decidable (_ ∨ _))

/-- One turn of the loop, with the answer of raft-rs and the faults of its writes. -/
structure Iteration where
  event : LoopEvent
  cycle : Option ReadyCycle
  faults : ℕ → Option WriteFault := fun _ ↦ none

/-- The event loop over any number of turns. -/
def run : RaftNode → List Iteration → RaftNode
  | node, [] => node
  | node, iteration :: rest =>
    if iteration.event.Ends then node
    else run (node.processReady primitives decode iteration.faults iteration.cycle).1 rest

end RaftNode

end EdgeOrchestrator.Raft

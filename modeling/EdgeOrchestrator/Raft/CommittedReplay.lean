import EdgeOrchestrator.Raft.Node
import Mathlib.Data.List.Sort

/-!
# The replica as a replay of the committed log

raft-rs hands out committed entries through two channels, the `Ready` of a cycle and the
`LightReady` that `advance` returns for it. A replica should be the fold of all of them. The event
loop applies the first channel only, so the replica is the fold of the whole log in the runs whose
`LightReady`s carry no proposal.
-/

namespace EdgeOrchestrator.Raft.CommittedReplay

open ClusterState RaftNode Storage

variable (primitives : Primitives) (decode : Bytes → Except String Proposal)

/-- The proposal an entry stands for, if its payload is neither empty nor undecodable. -/
def proposalOf (entry : Entry) : Option Proposal :=
  if entry.data = [] then none else (decode entry.data).toOption

def proposalsOf (entries : List Entry) : List Proposal :=
  entries.filterMap (proposalOf decode)

/-- The cycles the loop processes, up to the event that ends it. -/
def processedCycles (iterations : List Iteration) : List ReadyCycle :=
  (iterations.takeWhile fun iteration ↦ ¬ iteration.event.Ends).filterMap Iteration.cycle

/-- Everything raft-rs hands out in a cycle, in the order in which it does. -/
def committedOf (cycle : ReadyCycle) : List Entry :=
  cycle.ready.committedEntries ++ cycle.lightReady.committedEntries

/-- Everything raft-rs hands out in a run. -/
def handedOut (iterations : List Iteration) : List Entry :=
  (processedCycles iterations).flatMap committedOf

/-- raft-rs hands out every committed entry once, in index order. -/
def HandsOutInOrder (iterations : List Iteration) : Prop :=
  (handedOut iterations).Pairwise fun earlier later ↦ earlier.index < later.index

/-- The committed log of a run, in index order. -/
def committedLog (iterations : List Iteration) : List Entry :=
  (handedOut iterations).mergeSort fun earlier later ↦ earlier.index ≤ later.index

/-- The replica a run should end with: every proposal of the committed log, applied once. -/
def expectedReplica (iterations : List Iteration) : ClusterState :=
  ClusterState.applyAll {} (proposalsOf decode (committedLog iterations))

/-- A cycle whose `LightReady` carries no proposal. -/
def LightReadyWithoutProposals (cycle : ReadyCycle) : Prop :=
  proposalsOf decode cycle.lightReady.committedEntries = []

theorem proposalsOf_append (first second : List Entry) :
    proposalsOf decode (first ++ second) = proposalsOf decode first ++ proposalsOf decode second :=
  List.filterMap_append

/-- Applying an entry is applying its proposal, if it has one. -/
theorem applyEntry_sameReplica {state reference : ClusterState}
    (hsame : SameReplica state reference) (entry : Entry) :
    SameReplica (applyEntry decode state entry)
      (reference.applyAll (proposalOf decode entry).toList) := by
  unfold applyEntry proposalOf
  by_cases hempty : entry.data = []
  · rw [if_pos hempty, if_pos hempty]
    exact hsame
  · rw [if_neg hempty, if_neg hempty]
    cases decode entry.data with
    | error message => exact hsame
    | ok proposal =>
      have happly := apply_sameReplica hsame proposal
      exact ⟨happly.1, happly.2⟩

/-- Applying committed entries is folding their proposals. -/
theorem applyCommitted_sameReplica {state reference : ClusterState}
    (hsame : SameReplica state reference) (entries : List Entry) :
    SameReplica (applyCommitted decode state entries)
      (reference.applyAll (proposalsOf decode entries)) := by
  induction entries generalizing state reference with
  | nil => exact hsame
  | cons entry rest ih =>
    have hsplit : proposalsOf decode (entry :: rest) =
        (proposalOf decode entry).toList ++ proposalsOf decode rest := by
      simp only [proposalsOf, List.filterMap_eq_flatMap_toList, List.flatMap_cons]
    rw [hsplit, applyAll_append]
    exact ih (applyEntry_sameReplica decode hsame entry)

theorem processedCycles_cons_of_ends {iteration : Iteration} {rest : List Iteration}
    (hends : iteration.event.Ends) : processedCycles (iteration :: rest) = [] := by
  simp [processedCycles, hends]

theorem processedCycles_cons_of_not_ends {iteration : Iteration} {rest : List Iteration}
    (hends : ¬ iteration.event.Ends) :
    processedCycles (iteration :: rest) = iteration.cycle.toList ++ processedCycles rest := by
  unfold processedCycles
  rw [List.takeWhile_cons_of_pos (by simpa using hends)]
  simp only [List.filterMap_eq_flatMap_toList, List.flatMap_cons]

/-- What the event loop computes: the fold of the entries that came in a `Ready`. -/
theorem run_sameReplica {node : RaftNode} {reference : ClusterState}
    (hsame : SameReplica node.state reference) (iterations : List Iteration) :
    SameReplica (node.run primitives decode iterations).state
      (reference.applyAll (proposalsOf decode
        ((processedCycles iterations).flatMap fun cycle ↦ cycle.ready.committedEntries))) := by
  induction iterations generalizing node reference with
  | nil => exact hsame
  | cons iteration rest ih =>
    rw [RaftNode.run]
    by_cases hends : iteration.event.Ends
    · rw [if_pos hends, processedCycles_cons_of_ends hends]
      exact hsame
    · rw [if_neg hends, processedCycles_cons_of_not_ends hends]
      cases hcycle : iteration.cycle with
      | none => exact ih hsame
      | some cycle =>
        have hstep : SameReplica
            (node.processReady primitives decode iteration.faults (some cycle)).1.state
            (reference.applyAll (proposalsOf decode cycle.ready.committedEntries)) := by
          rw [processReady_state]
          exact applyCommitted_sameReplica decode hsame cycle.ready.committedEntries
        have hrest := ih hstep
        rw [← applyAll_append, ← proposalsOf_append] at hrest
        simpa only [Option.toList_some, List.singleton_append, List.flatMap_cons] using hrest

theorem committedLog_eq_handedOut {iterations : List Iteration}
    (horder : HandsOutInOrder iterations) : committedLog iterations = handedOut iterations := by
  apply List.mergeSort_of_pairwise
  apply horder.imp
  intro earlier later hindex
  exact decide_eq_true hindex.le

theorem proposalsOf_flatMap_committedOf {cycles : List ReadyCycle}
    (hlight : ∀ cycle ∈ cycles, LightReadyWithoutProposals decode cycle) :
    proposalsOf decode (cycles.flatMap committedOf) =
      proposalsOf decode (cycles.flatMap fun cycle ↦ cycle.ready.committedEntries) := by
  induction cycles with
  | nil => rfl
  | cons cycle rest ih =>
    have hcycle : proposalsOf decode cycle.lightReady.committedEntries = [] :=
      hlight cycle List.mem_cons_self
    have hrest := ih fun other hother ↦ hlight other (List.mem_cons_of_mem cycle hother)
    simp only [List.flatMap_cons, committedOf, proposalsOf_append, hcycle, List.append_nil]
    rw [← hrest]

/-- In every run whose `LightReady`s carry no proposal, the replica is the fold of the whole
committed log. -/
theorem replica_eq_expected (id : ℕ) (voters : List ℕ) (objectStore : LocalObjectStore)
    (transport : Libp2pRaftTransport) (iterations : List Iteration)
    (horder : HandsOutInOrder iterations)
    (hlight : ∀ cycle ∈ processedCycles iterations, LightReadyWithoutProposals decode cycle) :
    SameReplica
      ((RaftNode.new id voters objectStore transport).run primitives decode iterations).state
      (expectedReplica decode iterations) := by
  have hstart : SameReplica (RaftNode.new id voters objectStore transport).state {} :=
    SameReplica.refl {}
  have hproposals : proposalsOf decode (committedLog iterations) = proposalsOf decode
      ((processedCycles iterations).flatMap fun cycle ↦ cycle.ready.committedEntries) := by
    calc proposalsOf decode (committedLog iterations)
      _ = proposalsOf decode ((processedCycles iterations).flatMap committedOf) := by
        rw [committedLog_eq_handedOut horder, handedOut]
      _ = proposalsOf decode
          ((processedCycles iterations).flatMap fun cycle ↦ cycle.ready.committedEntries) :=
        proposalsOf_flatMap_committedOf decode hlight
  rw [expectedReplica, hproposals]
  exact run_sameReplica primitives decode hstart iterations

/-! ## One proposal through either channel -/

/-- A light node that is not a raft participant. -/
def lightNode : NodeDescriptor where
  nodeId := 1
  nodeType := .light
  os := .linux
  capabilities := {}
  advertisedAddresses := []
  currentAssignedRoles := []
  startedAt := ⟨0⟩
  raftId := none

/-- The JSON text of the proposal that registers `lightNode`. -/
def registration : Bytes :=
  0x7b :: utf8 ("\"RegisterNode\":\x7b\"node_id\":\"00000000-0000-0000-0000-000000000001\"," ++
    "\"node_type\":\"Light\",\"os\":\"Linux\",\"capabilities\":\x7b\"storage\":true," ++
    "\"gpu_acceleration\":false,\"runtimes\":[\"qlean\"],\"max_memory_mb\":1024," ++
    "\"cpu_cores\":2,\"project_sandbox\":false\x7d,\"advertised_addresses\":[]," ++
    "\"current_assigned_roles\":[],\"started_at\":\"1970-01-01T00:00:00Z\"," ++
    "\"raft_id\":null\x7d\x7d")

/-- The JSON decoder on that text. -/
def decodeRegistration (payload : Bytes) : Except String Proposal :=
  if payload = registration then .ok (.registerNode lightNode)
  else .error "EOF while parsing a value at line 1 column 0"

/-- The entry that registers the node. -/
def registrationEntry : Entry := { term := 1, index := 2, data := registration }

theorem proposalOf_registrationEntry :
    proposalOf decodeRegistration registrationEntry = some (.registerNode lightNode) := by
  have hpayload : registrationEntry.data ≠ [] := List.cons_ne_nil _ _
  have hdecode : decodeRegistration registrationEntry.data = .ok (.registerNode lightNode) :=
    if_pos rfl
  rw [proposalOf, if_neg hpayload, hdecode]
  rfl

/-- A leader's turn: the entry of its election comes in the `Ready`, the proposal that commits
while the cycle is advanced comes in the `LightReady`. -/
def leaderTurn : Iteration where
  event := .proposal
  cycle := some
    { ready := { committedEntries := [{ term := 1, index := 1 }] }
      lightReady := { committedEntries := [registrationEntry] } }

theorem lightReady_proposal_is_lost :
    ¬ ∀ (primitives : Primitives) (decode : Bytes → Except String Proposal) (id : ℕ)
      (voters : List ℕ) (objectStore : LocalObjectStore) (transport : Libp2pRaftTransport)
      (iterations : List Iteration), HandsOutInOrder iterations →
      SameReplica
        ((RaftNode.new id voters objectStore transport).run primitives decode iterations).state
        (expectedReplica decode iterations) := by
  intro hgeneral
  have horder : HandsOutInOrder [leaderTurn] := List.pairwise_pair.mpr (by decide)
  have hnodes := (hgeneral tabulated decodeRegistration 1 [1] ⟨[], ∅⟩ ⟨∅, []⟩ [leaderTurn] horder).1
  have hproposals : proposalsOf decodeRegistration (handedOut [leaderTurn]) =
      [.registerNode lightNode] := by
    change [{ term := 1, index := 1 }, registrationEntry].filterMap _ = _
    rw [List.filterMap_cons_none rfl, List.filterMap_cons_some proposalOf_registrationEntry]
    rfl
  rw [expectedReplica, committedLog_eq_handedOut horder, hproposals] at hnodes
  have hkept : (∅ : HashMap NodeId NodeDescriptor) =
      Finmap.insert lightNode.nodeId lightNode ∅ := hnodes
  have hregistered := congrArg (Finmap.lookup lightNode.nodeId) hkept
  rw [Finmap.lookup_insert, Finmap.lookup_empty] at hregistered
  cases hregistered

/-- A follower's turn: both entries come in the `Ready`. -/
def followerTurn : Iteration where
  event := .message
  cycle := some
    { ready := { committedEntries := [{ term := 1, index := 1 }, registrationEntry] } }

theorem replica_eq_expected_followerTurn :
    SameReplica
      ((RaftNode.new 1 [1] ⟨[], ∅⟩ ⟨∅, []⟩).run tabulated decodeRegistration [followerTurn]).state
      (expectedReplica decodeRegistration [followerTurn]) := by
  have horder : HandsOutInOrder [followerTurn] := List.pairwise_pair.mpr (by decide)
  apply replica_eq_expected tabulated decodeRegistration 1 [1] ⟨[], ∅⟩ ⟨∅, []⟩ _ horder
  intro cycle hcycle
  have honly : cycle = ⟨⟨[], none, [], [], [{ term := 1, index := 1 }, registrationEntry]⟩, {}⟩ :=
    List.mem_singleton.mp hcycle
  rw [honly]
  rfl

end EdgeOrchestrator.Raft.CommittedReplay

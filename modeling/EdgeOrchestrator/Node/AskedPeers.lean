import EdgeOrchestrator.Foundation.Execution
import EdgeOrchestrator.Node.EventMonitor

/-!
# Whom a fetch asks

A fetch that misses the local store should ask every peer whose descriptor was received, since any
of them may be the one that submitted the project. It asks the peers of the raft registry, which
holds one peer for each raft id and none for a light client. So every peer is asked exactly when each
is the last one to have announced some raft id.
-/

namespace EdgeOrchestrator.Node.AskedPeers

open Execution P2P Raft Storage

variable (primitives : Primitives)

/-- A descriptor together with the peer that sent it. -/
abbrev Received := List (PeerId × NodeDescriptor)

def registryAfter (fault : Option WriteFault) (now : Instant) (store : LocalObjectStore)
    (received : Received) : RaftIdRegistry :=
  let monitor := received.foldl (fun (monitor : EventMonitor) entry ↦
    (monitor.handleEvent primitives fault now (.descriptorReceived entry.1 entry.2)).1)
    { cas := { store := store } }
  monitor.raftRegistry

def lastClaimant (received : Received) (raftId : ℕ) : Option PeerId :=
  (received.reverse.find? fun entry ↦ entry.2.raftId = some raftId).map Prod.fst

/-- Each peer is the last one to have announced some raft id. -/
def EveryPeerHoldsRaftId (received : Received) : Prop :=
  ∀ entry ∈ received, ∃ raftId, lastClaimant received raftId = some entry.1

/-- The commands that ask the peers of a registry for a blob. -/
def requestsFor (registry : RaftIdRegistry) (hash : Hash) : List SwarmCommand :=
  (RaftIdRegistry.snapshot registry).map fun entry ↦ .requestBlob entry.2 hash

/-- The steps of a call up to the last peer it asks. -/
def askingSteps (id : ℕ) (hash : Hash) (timeout : Duration) (peers : ℕ) : List FetchAction :=
  [.call id hash timeout, .advanceCall id .lookup, .advanceCall id .register,
    .advanceCall id .snapshot] ++ List.replicate peers (.advanceCall id .request)

/-- A call of `ensure_blob` queues a request to every peer whose descriptor was received. -/
def AsksEveryPeer (fault : Option WriteFault) (now : Instant) (store : LocalObjectStore)
    (received : Received) (hash : Hash) (timeout : Duration) : Prop :=
  let registry := registryAfter primitives fault now store received
  ∃ final, run (FetchWorld.step primitives)
      { now := now, fetcher := { store := store }, registry := registry }
      (askingSteps 0 hash timeout (RaftIdRegistry.snapshot registry).length) = some final ∧
    ∀ entry ∈ received, .requestBlob entry.1 hash ∈ final.commands

variable {primitives}

theorem registryAfter_append_singleton (fault : Option WriteFault) (now : Instant)
    (store : LocalObjectStore) (received : Received) (peerId : PeerId)
    (descriptor : NodeDescriptor) :
    registryAfter primitives fault now store (received ++ [(peerId, descriptor)]) =
      match descriptor.raftId with
      | some raftId => (registryAfter primitives fault now store received).insert raftId peerId
      | none => registryAfter primitives fault now store received := by
  simp only [registryAfter, List.foldl_append, List.foldl_cons, List.foldl_nil]
  rfl

/-- The registry holds the last claimant of every raft id. -/
theorem lookup_registryAfter (fault : Option WriteFault) (now : Instant)
    (store : LocalObjectStore) (received : Received) (raftId : ℕ) :
    (registryAfter primitives fault now store received).lookup raftId =
      lastClaimant received raftId := by
  induction received using List.reverseRecOn with
  | nil => rfl
  | append_singleton earlier last ih =>
    rcases last with ⟨peerId, descriptor⟩
    rw [registryAfter_append_singleton, lastClaimant, List.reverse_append]
    simp only [List.reverse_cons, List.reverse_nil, List.nil_append, List.singleton_append,
      List.find?_cons]
    cases hraftId : descriptor.raftId with
    | none => simpa [lastClaimant] using ih
    | some claimed =>
      by_cases hsame : claimed = raftId
      · simp [hsame]
      · rw [Finmap.lookup_insert_of_ne _ (Ne.symm hsame), ih]
        simp [hsame, lastClaimant]

theorem mem_requestsFor {registry : RaftIdRegistry} {hash : Hash} {peerId : PeerId} :
    SwarmCommand.requestBlob peerId hash ∈ requestsFor registry hash ↔
      ∃ raftId, registry.lookup raftId = some peerId := by
  simp only [requestsFor, List.mem_map, Prod.exists, SwarmCommand.requestBlob.injEq, and_true]
  constructor
  · rintro ⟨raftId, found, hmem, rfl⟩
    exact ⟨raftId, RaftIdRegistry.mem_snapshot.mp hmem⟩
  · rintro ⟨raftId, hlookup⟩
    exact ⟨raftId, peerId, RaftIdRegistry.mem_snapshot.mpr hlookup, rfl⟩

/-- The request steps of a call queue one command for each of its peers. -/
theorem run_requests {world : FetchWorld} {id : ℕ} {call : Call}
    {remaining : List (ℕ × PeerId)} {peers : ℕ} (hcall : world.calls id = some call)
    (hphase : call.phase = .requesting remaining peers) :
    ∃ final, run (FetchWorld.step primitives) world
        (List.replicate remaining.length (.advanceCall id .request)) = some final ∧
      final.commands = world.commands ++ remaining.map fun entry ↦ .requestBlob entry.2 call.hash := by
  induction remaining generalizing world call with
  | nil => exact ⟨world, rfl, (List.append_nil _).symm⟩
  | cons first rest ih =>
    rcases first with ⟨raftId, peerId⟩
    let next : FetchWorld := { world.setPhase id call (.requesting rest peers) with
      commands := world.commands ++ [.requestBlob peerId call.hash] }
    have hstep : FetchWorld.step primitives world (.advanceCall id .request) = some next := by
      simp only [FetchWorld.step, hcall, FetchWorld.stepCall, hphase]
      rfl
    have hnext : next.calls id = some { call with phase := .requesting rest peers } :=
      Function.update_self ..
    rcases ih hnext rfl with ⟨final, hrun, hcommands⟩
    refine ⟨final, ?_, ?_⟩
    · rw [List.length_cons, List.replicate_succ, run_cons, hstep]
      exact hrun
    · rw [hcommands, List.map_cons, List.append_assoc, List.singleton_append]

/-- A call that misses the store asks exactly the peers of the registry. -/
theorem run_askingSteps {world : FetchWorld} {id : ℕ} {hash : Hash} {error : CoreError}
    (timeout : Duration) (hnew : world.calls id = none)
    (hmiss : world.fetcher.store.getBlob primitives hash = .err error) :
    ∃ final, run (FetchWorld.step primitives) world
        (askingSteps id hash timeout (RaftIdRegistry.snapshot world.registry).length) =
          some final ∧
      final.commands = world.commands ++ requestsFor world.registry hash := by
  let call : Call := ⟨hash, timeout, world.phaseAfterSnapshot hash, .empty, false⟩
  let asking : FetchWorld :=
    { world.setCall id call with fetcher := world.fetcher.pushWaiter hash id }
  have hasking : run (FetchWorld.step primitives) world
      [.call id hash timeout, .advanceCall id .lookup, .advanceCall id .register,
        .advanceCall id .snapshot] = some asking := by
    simp [run_cons, FetchWorld.step, FetchWorld.stepCall, FetchWorld.setPhase, FetchWorld.setCall,
      hnew, FetchWorld.phaseAfterLookup, hmiss, asking, call, FetchWorld.phaseAfterSnapshot]
  have hcall : asking.calls id = some call := Function.update_self ..
  rw [askingSteps, run_append, hasking, Option.bind_some]
  by_cases hnone : RaftIdRegistry.snapshot world.registry = []
  · rw [requestsFor, hnone]
    exact ⟨asking, rfl, (List.append_nil _).symm⟩
  · have hphase : call.phase = .requesting (RaftIdRegistry.snapshot world.registry)
        (RaftIdRegistry.snapshot world.registry).length := if_neg hnone
    exact run_requests hcall hphase

/-- The peers that a call asks after a sequence of received descriptors. -/
theorem mem_commands_iff {fault : Option WriteFault} {now : Instant} {store : LocalObjectStore}
    {received : Received} {hash : Hash} {timeout : Duration} {error : CoreError}
    (hmiss : store.getBlob primitives hash = .err error) :
    ∃ final, run (FetchWorld.step primitives)
        { now := now, fetcher := { store := store },
          registry := registryAfter primitives fault now store received }
        (askingSteps 0 hash timeout (RaftIdRegistry.snapshot
          (registryAfter primitives fault now store received)).length) = some final ∧
      ∀ peerId, .requestBlob peerId hash ∈ final.commands ↔
        ∃ raftId, lastClaimant received raftId = some peerId := by
  let world : FetchWorld := ⟨now, { store := store },
    registryAfter primitives fault now store received, [], fun _ ↦ none⟩
  have hnew : world.calls 0 = none := rfl
  rcases run_askingSteps timeout hnew hmiss with ⟨final, hrun, hcommands⟩
  refine ⟨final, hrun, fun peerId ↦ ?_⟩
  rw [hcommands, List.nil_append, mem_requestsFor]
  simp only [world, lookup_registryAfter]

/-- Every peer whose descriptor was received is asked exactly when each of them is the last one to
have announced some raft id. -/
theorem asksEveryPeer_iff (fault : Option WriteFault) (now : Instant) (store : LocalObjectStore)
    (received : Received) (hash : Hash) (timeout : Duration)
    (hmiss : ∃ error, store.getBlob primitives hash = .err error) :
    AsksEveryPeer primitives fault now store received hash timeout ↔
      EveryPeerHoldsRaftId received := by
  rcases hmiss with ⟨error, hmiss⟩
  rcases mem_commands_iff hmiss with ⟨final, hrun, hasked⟩
  constructor
  · rintro ⟨other, hother, hall⟩ entry hentry
    rw [← hasked, Option.some.inj (hrun.symm.trans hother)]
    exact hall entry hentry
  · intro hholds
    exact ⟨final, hrun, fun entry hentry ↦ (hasked entry.1).mpr (hholds entry hentry)⟩

/-- The descriptor of a node that submits projects. -/
def submitter (raftId : Option ℕ) : NodeDescriptor where
  nodeId := 1
  nodeType := .light
  os := .macOS
  capabilities := {}
  advertisedAddresses := []
  currentAssignedRoles := []
  startedAt := ⟨0⟩
  raftId := raftId

theorem getBlob_empty_store :
    LocalObjectStore.getBlob tabulated ⟨[], ∅⟩ (hexEncode emptyBlobDigest) =
      .err (.objectNotFound (hexEncode emptyBlobDigest)) := rfl

/-- Three peers. The second one takes over the raft id of the first, which then announces another. -/
def threePeers : Received :=
  [(⟨[1]⟩, submitter (some 1)), (⟨[2]⟩, submitter (some 1)), (⟨[3]⟩, submitter (some 3)),
    (⟨[1]⟩, submitter (some 4))]

theorem asksEveryPeer_threePeers :
    AsksEveryPeer tabulated none 0 ⟨[], ∅⟩ threePeers (hexEncode emptyBlobDigest)
      (Duration.fromSecs 300) := by
  apply (asksEveryPeer_iff none 0 ⟨[], ∅⟩ _ _ _ ⟨_, getBlob_empty_store⟩).mpr
  intro entry hentry
  simp only [threePeers, List.mem_cons, List.not_mem_nil, or_false] at hentry
  rcases hentry with rfl | rfl | rfl | rfl
  · exact ⟨4, rfl⟩
  · exact ⟨1, rfl⟩
  · exact ⟨3, rfl⟩
  · exact ⟨4, rfl⟩

theorem light_client_is_not_asked :
    ¬ ∀ (primitives : Primitives) (fault : Option WriteFault) (now : Instant)
      (store : LocalObjectStore) (received : Received) (hash : Hash) (timeout : Duration),
      (∃ error, store.getBlob primitives hash = .err error) →
        AsksEveryPeer primitives fault now store received hash timeout := by
  intro hgeneral
  rcases hgeneral tabulated none 0 ⟨[], ∅⟩ [(⟨[1]⟩, submitter none)] (hexEncode emptyBlobDigest)
    (Duration.fromSecs 300) ⟨_, getBlob_empty_store⟩ with ⟨other, hother, hall⟩
  rcases mem_commands_iff getBlob_empty_store with ⟨final, hrun, hasked⟩
  rw [← Option.some.inj (hrun.symm.trans hother)] at hall
  rcases (hasked ⟨[1]⟩).mp (hall _ List.mem_cons_self) with ⟨raftId, hclaimed⟩
  cases hclaimed

end EdgeOrchestrator.Node.AskedPeers

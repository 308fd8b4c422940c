import EdgeOrchestrator.Raft.ReplicatedState

/-!
# The registration loop

A node proposes its own descriptor again and again until it finds itself in the replicated state.
The proposals that entered the log too often are harmless. The test that ends the loop asks for a
descriptor with the Raft id of the node, while the registry is kept by node id. A registration
left by an earlier incarnation with another node id or other capabilities ends the loop as well.
-/

namespace EdgeOrchestrator.Orchestration

open KeyedFold Raft

/-- One turn of `spawn_register_loop`: the proposal it sends, if it sends one. -/
def registerTurn (selfRaftId : ℕ) (selfDesc : NodeDescriptor) (state : ClusterState) :
    Option Proposal :=
  let registered := state.nodes.any fun _ descriptor ↦ descriptor.raftId == some selfRaftId
  if registered then none else some (.registerNode selfDesc)

/-- The loop is quiet exactly when some registered descriptor carries the Raft id. -/
theorem registerTurn_eq_none_iff (selfRaftId : ℕ) (selfDesc : NodeDescriptor)
    (state : ClusterState) :
    registerTurn selfRaftId selfDesc state = none ↔
      ∃ nodeId descriptor, state.nodes.lookup nodeId = some descriptor ∧
        descriptor.raftId = some selfRaftId := by
  have hregistered := any_eq_true_iff state.nodes fun _ descriptor ↦
    descriptor.raftId == some selfRaftId
  simp only [beq_iff_eq] at hregistered
  rw [← hregistered, registerTurn]
  split_ifs with hfound
  · exact iff_of_true rfl hfound
  · exact iff_of_false (by simp) hfound

/-- The proposal registers or deregisters the node. -/
def SetsEntry (nodeId : NodeId) : Proposal → Prop
  | .registerNode descriptor => descriptor.nodeId = nodeId
  | .deregisterNode target => target = nodeId
  | _ => False

instance (nodeId : NodeId) : DecidablePred (SetsEntry nodeId)
  | .registerNode descriptor => inferInstanceAs (Decidable (descriptor.nodeId = nodeId))
  | .deregisterNode target => inferInstanceAs (Decidable (target = nodeId))
  | .assignRole _ _ => inferInstanceAs (Decidable False)
  | .revokeRole _ _ => inferInstanceAs (Decidable False)

/-- A proposal that sets another entry, or a role, keeps the entry of a node. -/
theorem lookup_apply_of_not_setsEntry (state : ClusterState) {proposal : Proposal}
    {nodeId : NodeId} (hproposal : ¬ SetsEntry nodeId proposal) :
    (state.apply proposal).1.nodes.lookup nodeId = state.nodes.lookup nodeId := by
  by_cases htarget : proposal.nodeId = nodeId
  · have hrecord := congrArg NodeRecord.descriptor (state.record_apply_own proposal)
    rw [htarget] at hrecord
    apply hrecord.trans
    cases proposal with
    | registerNode descriptor => exact absurd htarget hproposal
    | deregisterNode target => exact absurd htarget hproposal
    | assignRole target role => exact NodeRecord.descriptor_assignRole _ target role
    | revokeRole target role => exact NodeRecord.descriptor_revokeRole _ target role
  · exact congrArg NodeRecord.descriptor (state.record_apply_other proposal nodeId htarget)

theorem lookup_apply_registerNode (state : ClusterState) (descriptor : NodeDescriptor) :
    (state.apply (.registerNode descriptor)).1.nodes.lookup descriptor.nodeId = some descriptor :=
  Finmap.lookup_insert _

/-- Registering a descriptor that is registered already changes nothing. -/
theorem apply_registerNode_of_registered {state : ClusterState} {descriptor : NodeDescriptor}
    (hregistered : state.nodes.lookup descriptor.nodeId = some descriptor) :
    (state.apply (.registerNode descriptor)).1 = state := by
  have hnodes : state.nodes.insert descriptor.nodeId descriptor = state.nodes := by
    apply Finmap.ext_lookup
    intro nodeId
    by_cases hnode : nodeId = descriptor.nodeId
    · rw [hnode, Finmap.lookup_insert, hregistered]
    · exact Finmap.lookup_insert_of_ne _ hnode
  simp only [ClusterState.apply, hnodes]

/-- Copies of a registration put in before the next registration or deregistration of its node
change nothing. -/
theorem applyAll_with_copies_of_registration (state : ClusterState) (descriptor : NodeDescriptor)
    (before between retried after : List Proposal)
    (hbetween : ∀ proposal ∈ between, ¬ SetsEntry descriptor.nodeId proposal)
    (hretried : WithCopies (.registerNode descriptor) between retried) :
    let once := state.applyAll (before ++ .registerNode descriptor :: between ++ after)
    let repeated := state.applyAll (before ++ .registerNode descriptor :: retried ++ after)
    repeated.nodes = once.nodes ∧ repeated.roleAssignments = once.roleAssignments := by
  intro once repeated
  let registered := ((state.applyAll before).apply (.registerNode descriptor)).1
  have hsplit : ∀ later : List Proposal,
      state.applyAll (before ++ .registerNode descriptor :: later ++ after) =
        (registered.applyAll later).applyAll after := by
    intro later
    rw [ClusterState.applyAll_append, ClusterState.applyAll_append]
    rfl
  have hretries : registered.applyAll retried = registered.applyAll between := by
    apply hretried.foldl_eq fun state ↦
      state.nodes.lookup descriptor.nodeId = some descriptor
    · intro other hregistered
      exact apply_registerNode_of_registered hregistered
    · intro other proposal hmem hregistered
      rw [lookup_apply_of_not_setsEntry other (hbetween proposal hmem), hregistered]
    · exact lookup_apply_registerNode _ descriptor
  have hsame : repeated = once := by
    calc
      repeated = (registered.applyAll retried).applyAll after := hsplit retried
      _ = (registered.applyAll between).applyAll after := by rw [hretries]
      _ = once := (hsplit between).symm
  rw [hsame]
  exact ⟨rfl, rfl⟩

/-- A node that registers and is assigned a role before its two retries arrive. -/
theorem applyAll_with_copies_of_registration_of_freshDescriptor :
    let descriptor := ClusterState.freshDescriptor 1 []
    let once := ClusterState.applyAll {}
      [.registerNode descriptor, .assignRole 1 .storage, .revokeRole 2 .storage]
    let repeated := ClusterState.applyAll {} [.registerNode descriptor, .registerNode descriptor,
      .assignRole 1 .storage, .registerNode descriptor, .revokeRole 2 .storage]
    repeated.nodes = once.nodes ∧ repeated.roleAssignments = once.roleAssignments :=
  applyAll_with_copies_of_registration {} (ClusterState.freshDescriptor 1 []) []
    [.assignRole 1 .storage, .revokeRole 2 .storage] _ [] (by decide)
    (.insert (.keep _ (.insert (.keep _ .nil))))

/-- The registration is in the log, and no later one registers or deregisters its node. -/
def InForce (log : List Proposal) (descriptor : NodeDescriptor) : Prop :=
  ∃ before after, log = before ++ .registerNode descriptor :: after ∧
    ∀ proposal ∈ after, ¬ SetsEntry descriptor.nodeId proposal

/-- A registration is still in force behind one more proposal when that sets no entry of its node,
or when it is that proposal. -/
theorem inForce_append_singleton_iff (log : List Proposal) (proposal : Proposal)
    (descriptor : NodeDescriptor) :
    InForce (log ++ [proposal]) descriptor ↔
      proposal = .registerNode descriptor ∨
        InForce log descriptor ∧ ¬ SetsEntry descriptor.nodeId proposal := by
  constructor
  · rintro ⟨before, after, hlog, hafter⟩
    rcases after.eq_nil_or_concat with hnil | ⟨earlier, last, hconcat⟩
    · rw [hnil] at hlog
      exact Or.inl (List.singleton_inj.mp (List.append_inj' hlog rfl).2)
    · rw [hconcat, List.concat_eq_append] at hlog hafter
      have hparts : log ++ [proposal] = (before ++ .registerNode descriptor :: earlier) ++ [last] := by
        rw [hlog]
        simp
      obtain ⟨hlog, hlast⟩ := List.append_inj' hparts rfl
      have hkept := hafter last (List.mem_append_right _ (List.mem_singleton_self last))
      rw [← List.singleton_inj.mp hlast] at hkept
      exact Or.inr ⟨⟨before, earlier, hlog, fun other hother ↦
        hafter other (List.mem_append_left _ hother)⟩, hkept⟩
  · rintro (hlast | ⟨⟨before, after, hlog, hafter⟩, hkept⟩)
    · rw [hlast]
      exact ⟨log, [], rfl, by simp⟩
    · refine ⟨before, after ++ [proposal], by rw [hlog]; simp, ?_⟩
      intro other hother
      rcases List.mem_append.mp hother with hearlier | hlast
      · exact hafter other hearlier
      · rw [List.mem_singleton.mp hlast]
        exact hkept

/-- The registry holds exactly the registrations that are in force. -/
theorem lookup_nodes_applyAll_iff (log : List Proposal) (nodeId : NodeId)
    (descriptor : NodeDescriptor) :
    (ClusterState.applyAll {} log).nodes.lookup nodeId = some descriptor ↔
      InForce log descriptor ∧ descriptor.nodeId = nodeId := by
  induction log using List.reverseRecOn with
  | nil =>
    apply iff_of_false
    · exact Option.some_ne_none descriptor ∘ Eq.symm
    · rintro ⟨⟨before, after, hlog, -⟩, -⟩
      simp at hlog
  | append_singleton log proposal ih =>
    have hstep : ClusterState.applyAll {} (log ++ [proposal]) =
        ((ClusterState.applyAll {} log).apply proposal).1 := ClusterState.applyAll_append _ _ _
    rw [hstep, inForce_append_singleton_iff]
    by_cases hsets : SetsEntry nodeId proposal
    · have hnot : ¬ ((InForce log descriptor ∧ ¬ SetsEntry descriptor.nodeId proposal) ∧
          descriptor.nodeId = nodeId) := by
        rintro ⟨⟨-, hkept⟩, hnode⟩
        rw [hnode] at hkept
        exact hkept hsets
      rw [or_and_right, or_iff_left hnot]
      cases proposal with
      | registerNode registered =>
        obtain rfl : registered.nodeId = nodeId := hsets
        rw [lookup_apply_registerNode, Option.some.injEq, Proposal.registerNode.injEq]
        exact (and_iff_left_of_imp fun heq ↦ by rw [heq]).symm
      | deregisterNode target =>
        obtain rfl : target = nodeId := hsets
        simp [ClusterState.apply]
      | assignRole target role => exact absurd hsets id
      | revokeRole target role => exact absurd hsets id
    · rw [lookup_apply_of_not_setsEntry _ hsets, ih]
      constructor
      · rintro ⟨hforce, hnode⟩
        rw [← hnode] at hsets
        exact ⟨Or.inr ⟨hforce, hsets⟩, hnode⟩
      · rintro ⟨hlast | ⟨hforce, -⟩, hnode⟩
        · rw [hlast] at hsets
          exact absurd hnode hsets
        · exact ⟨hforce, hnode⟩

/-- When a Raft id was never registered with another descriptor, the loop that is quiet about it
has its descriptor in the registry. -/
theorem registered_of_registerTurn_eq_none {selfRaftId : ℕ} {selfDesc : NodeDescriptor}
    {log : List Proposal}
    (hown : ∀ descriptor, .registerNode descriptor ∈ log →
      descriptor.raftId = some selfRaftId → descriptor = selfDesc)
    (hquiet : registerTurn selfRaftId selfDesc (ClusterState.applyAll {} log) = none) :
    (ClusterState.applyAll {} log).nodes.lookup selfDesc.nodeId = some selfDesc := by
  obtain ⟨nodeId, descriptor, hlookup, hraft⟩ :=
    (registerTurn_eq_none_iff selfRaftId selfDesc _).mp hquiet
  obtain ⟨hforce, hnode⟩ := (lookup_nodes_applyAll_iff log nodeId descriptor).mp hlookup
  have hmem : .registerNode descriptor ∈ log := by
    obtain ⟨before, after, hlog, -⟩ := hforce
    rw [hlog]
    simp
  rw [← hown descriptor hmem hraft, hnode, hlookup]

/-- A quiet loop means that the node is registered with its descriptor exactly when that is in
force or no other registration in force carries the Raft id of the node. -/
theorem registered_when_quiet_iff (selfRaftId : ℕ) (selfDesc : NodeDescriptor)
    (log : List Proposal) :
    (registerTurn selfRaftId selfDesc (ClusterState.applyAll {} log) = none →
      (ClusterState.applyAll {} log).nodes.lookup selfDesc.nodeId = some selfDesc) ↔
      ∀ descriptor, InForce log descriptor → descriptor.raftId = some selfRaftId →
        descriptor ≠ selfDesc → InForce log selfDesc := by
  rw [registerTurn_eq_none_iff, lookup_nodes_applyAll_iff]
  constructor
  · intro hregistered descriptor hforce hraft _
    have hlookup := (lookup_nodes_applyAll_iff log descriptor.nodeId descriptor).mpr ⟨hforce, rfl⟩
    exact (hregistered ⟨descriptor.nodeId, descriptor, hlookup, hraft⟩).1
  · rintro hother ⟨nodeId, descriptor, hlookup, hraft⟩
    have hforce := ((lookup_nodes_applyAll_iff log nodeId descriptor).mp hlookup).1
    by_cases hself : descriptor = selfDesc
    · rw [hself] at hforce
      exact ⟨hforce, rfl⟩
    · exact ⟨hother descriptor hforce hraft hself, rfl⟩

def descriptorWithRaftId (nodeId : NodeId) (raftId : ℕ) : NodeDescriptor where
  __ := ClusterState.freshDescriptor nodeId []
  raftId := some raftId

/-- A node that restarts with a new node id stays quiet about the registration of the old one. -/
theorem not_registered_when_quiet_after_restart :
    ¬ ∀ (selfRaftId : ℕ) (selfDesc : NodeDescriptor) (log : List Proposal),
      registerTurn selfRaftId selfDesc (ClusterState.applyAll {} log) = none →
        (ClusterState.applyAll {} log).nodes.lookup selfDesc.nodeId = some selfDesc := by
  intro hgeneral
  have hregistered := hgeneral 1 (descriptorWithRaftId 2 1)
    [.registerNode (descriptorWithRaftId 1 1)] (by decide)
  exact absurd hregistered (by decide)

end EdgeOrchestrator.Orchestration

import EdgeOrchestrator.Orchestration.RoleEngine

/-!
# Failover

The alternative for a lost role is the first node that can fulfill it, whether or not it holds the
role already. When it does, the proposal changes nothing, and the role has one holder less even if
a later node was free to take it.
-/

namespace EdgeOrchestrator.Orchestration

open Raft

/-- Nodes of the engine to which the cluster state assigns the role. -/
def holders (nodes : HashMap NodeId NodeDescriptor) (state : ClusterState) (role : Role) :
    Finset NodeId :=
  nodes.keys.filter fun nodeId ↦ role ∈ (state.roleAssignments.lookup nodeId).getD []

def AssignsRole (proposal : Proposal) : Prop :=
  ∃ nodeId role, proposal = .assignRole nodeId role

/-- Assigning roles registers nobody. -/
theorem AssignsRole.nodes_apply (state : ClusterState) {proposal : Proposal}
    (hassigns : AssignsRole proposal) : (state.apply proposal).1.nodes = state.nodes := by
  obtain ⟨target, assigned, rfl⟩ := hassigns
  simp only [ClusterState.apply]
  split_ifs <;> rfl

/-- An assignment to a registered node adds the role it assigns, and no other one. -/
theorem AssignsRole.mem_roles_apply (state : ClusterState) {proposal : Proposal}
    (hassigns : AssignsRole proposal) (nodeId : NodeId) (role : Role) :
    role ∈ ((state.apply proposal).1.roleAssignments.lookup nodeId).getD [] ↔
      role ∈ (state.roleAssignments.lookup nodeId).getD [] ∨
        nodeId ∈ state.nodes ∧ .assignRole nodeId role = proposal := by
  obtain ⟨target, assigned, rfl⟩ := hassigns
  rw [← ClusterState.record_roles, ← ClusterState.record_roles]
  by_cases hnode : target = nodeId
  · have hown := state.record_apply_own (.assignRole target assigned)
    rw [Proposal.nodeId] at hown
    rw [← hnode, hown]
    by_cases hregistered : (state.record target).descriptor.isSome
    · rw [NodeRecord.mem_roles_assignRole hregistered,
        and_iff_right ((ClusterState.isSome_descriptor_iff state target).mp hregistered)]
      simp
    · have hmissing : target ∉ state.nodes := fun hmem ↦
        hregistered ((ClusterState.isSome_descriptor_iff state target).mpr hmem)
      rw [NodeRecord.assignRole_of_unregistered hregistered,
        or_iff_left fun hassigned ↦ hmissing hassigned.1]
  · have hother := state.record_apply_other (.assignRole target assigned) nodeId hnode
    have hne : Proposal.assignRole nodeId role ≠ .assignRole target assigned := by
      intro hsame
      exact hnode (Proposal.assignRole.inj hsame).1.symm
    rw [hother, or_iff_left fun hassigned ↦ hne hassigned.2]

/-- Assignments add the roles they assign to registered nodes, and no others. -/
theorem mem_roles_applyAll {state : ClusterState} {proposals : List Proposal}
    (hassigns : ∀ proposal ∈ proposals, AssignsRole proposal) (nodeId : NodeId) (role : Role) :
    role ∈ ((state.applyAll proposals).roleAssignments.lookup nodeId).getD [] ↔
      role ∈ (state.roleAssignments.lookup nodeId).getD [] ∨
        nodeId ∈ state.nodes ∧ .assignRole nodeId role ∈ proposals := by
  induction proposals generalizing state with
  | nil => simp [ClusterState.applyAll]
  | cons proposal rest ih =>
    have hproposal := hassigns proposal List.mem_cons_self
    have hrest : ∀ other ∈ rest, AssignsRole other :=
      fun other hother ↦ hassigns other (List.mem_cons_of_mem proposal hother)
    rw [ClusterState.applyAll, List.foldl_cons, ← ClusterState.applyAll, ih hrest,
      hproposal.mem_roles_apply, hproposal.nodes_apply, List.mem_cons, or_assoc, ← and_or_left]

/-! ## The alternative -/

section Alternative

variable {nodes : HashMap NodeId NodeDescriptor} (order : IterationOrder nodes)
  (lostCaps : Capabilities)

/-- The first node, with its descriptor, that can fulfill the role. -/
def firstEligible (role : Role) : Option (NodeId × NodeDescriptor) :=
  order.entries.find? fun entry ↦ canFulfill role lostCaps entry.2

theorem findAlternative_eq_map (role : Role) :
    findAlternative order role lostCaps = (firstEligible order lostCaps role).map Prod.fst := rfl

theorem lookup_of_firstEligible {role : Role} {entry : NodeId × NodeDescriptor}
    (hfirst : firstEligible order lostCaps role = some entry) :
    nodes.lookup entry.1 = some entry.2 :=
  (order.mem_iff entry.1 entry.2).mp (List.mem_of_find?_eq_some hfirst)

theorem mem_failoverProposals {lostRoles : List Role} {nodeId : NodeId} {role : Role} :
    .assignRole nodeId role ∈ failoverProposals order lostCaps lostRoles ↔
      role ∈ lostRoles ∧ findAlternative order role lostCaps = some nodeId := by
  rw [failoverProposals, List.mem_filterMap]
  constructor
  · intro hmem
    obtain ⟨lost, hlost, hproposal⟩ := hmem
    obtain ⟨alternative, halternative, hassign⟩ := Option.map_eq_some_iff.mp hproposal
    obtain ⟨hnode, hrole⟩ := Proposal.assignRole.inj hassign
    rw [← hnode, ← hrole]
    exact ⟨hlost, halternative⟩
  · intro hlost
    exact ⟨role, hlost.1, by rw [hlost.2, Option.map_some]⟩

theorem assignsRole_of_mem_failoverProposals {lostRoles : List Role} {proposal : Proposal}
    (hmem : proposal ∈ failoverProposals order lostCaps lostRoles) : AssignsRole proposal := by
  obtain ⟨role, -, hproposal⟩ := List.mem_filterMap.mp hmem
  obtain ⟨alternative, -, hassign⟩ := Option.map_eq_some_iff.mp hproposal
  exact ⟨alternative, role, hassign.symm⟩

/-- Lost roles that are proposed before the first proposal of a role. -/
def movedBefore (nodes : HashMap NodeId NodeDescriptor) (lostCaps : Capabilities)
    (lostRoles : List Role) (role : Role) : ℕ :=
  (lostRoles.takeWhile fun lost ↦ lost ≠ role).countP fun lost ↦ nodes.any fun _ survivor ↦
    canFulfill lost lostCaps survivor

/-- The proposal of a lost role gets through exactly when the channel accepts it and the ones
before it. -/
theorem mem_passing_failoverProposals {lostRoles : List Role} {role : Role} {nodeId : NodeId}
    (hlost : role ∈ lostRoles) (halternative : findAlternative order role lostCaps = some nodeId)
    (proposalTx : ClosingChannel Proposal) :
    .assignRole nodeId role ∈ proposalTx.passing (failoverProposals order lostCaps lostRoles) ↔
      proposalTx.Accepts (movedBefore nodes lostCaps lostRoles role + 1) := by
  obtain ⟨before, after, hsplit, hnot⟩ := List.eq_append_cons_of_mem hlost
  have hwhile : lostRoles.takeWhile (fun lost ↦ lost ≠ role) = before := by
    have hother : ∀ lost ∈ before, decide (lost ≠ role) = true := by
      intro lost hmem
      rw [decide_eq_true_iff]
      intro hsame
      exact hnot (hsame ▸ hmem)
    rw [hsplit, List.takeWhile_append_of_pos hother, List.takeWhile_cons_of_neg (by simp),
      List.append_nil]
  have hproposals : failoverProposals order lostCaps lostRoles =
      failoverProposals order lostCaps before ++
        .assignRole nodeId role :: failoverProposals order lostCaps after := by
    rw [failoverProposals, hsplit, List.filterMap_append,
      List.filterMap_cons_some (by rw [halternative, Option.map_some])]
    rfl
  have hbefore : .assignRole nodeId role ∉ failoverProposals order lostCaps before := by
    rw [mem_failoverProposals]
    exact fun hmem ↦ hnot hmem.1
  rw [movedBefore, hwhile, ← length_failoverProposals order, hproposals,
    ClosingChannel.mem_passing_iff _ _ hbefore]

/-- Which proposals of a lost role get through. -/
theorem mem_passing_failoverProposals_iff {lostRoles : List Role} {role : Role} {nodeId : NodeId}
    (hlost : role ∈ lostRoles) (halternative : findAlternative order role lostCaps = some nodeId)
    (proposalTx : ClosingChannel Proposal) (other : NodeId) :
    .assignRole other role ∈ proposalTx.passing (failoverProposals order lostCaps lostRoles) ↔
      other = nodeId ∧ proposalTx.Accepts (movedBefore nodes lostCaps lostRoles role + 1) := by
  rw [← mem_passing_failoverProposals order lostCaps hlost halternative]
  constructor
  · intro hmem
    have hsame := ((mem_failoverProposals order lostCaps).mp
      (ClosingChannel.mem_of_mem_passing hmem)).2
    rw [halternative, Option.some_inj] at hsame
    rw [hsame]
    exact ⟨rfl, hmem⟩
  · intro hmem
    rw [hmem.1]
    exact hmem.2

end Alternative

/-! ## The holders -/

/-- Some node can fulfill the role and does not hold it. -/
def HasFreeAlternative (nodes : HashMap NodeId NodeDescriptor) (lostCaps : Capabilities)
    (role : Role) : Prop :=
  ∃ nodeId descriptor, nodes.lookup nodeId = some descriptor ∧
    canFulfill role lostCaps descriptor = true ∧ role ∉ descriptor.currentAssignedRoles

/-- The first node that can fulfill the role is registered in the cluster state, which does not
assign it the role. -/
def BeginsWithTaker {nodes : HashMap NodeId NodeDescriptor} (order : IterationOrder nodes)
    (state : ClusterState) (lostCaps : Capabilities) (role : Role) : Prop :=
  ∃ entry, firstEligible order lostCaps role = some entry ∧ entry.1 ∈ state.nodes ∧
    role ∉ (state.roleAssignments.lookup entry.1).getD []

section Holders

variable {nodes : HashMap NodeId NodeDescriptor} {state : ClusterState} {role : Role}

theorem mem_holders_iff {nodeId : NodeId} :
    nodeId ∈ holders nodes state role ↔
      nodeId ∈ nodes ∧ role ∈ (state.roleAssignments.lookup nodeId).getD [] := by
  rw [holders, Finset.mem_filter, Finmap.mem_keys]

/-- What the proposals that get through do to the holders of a lost role. -/
theorem holders_applyAll (order : IterationOrder nodes) {lostCaps : Capabilities}
    {lostRoles : List Role} (hlost : role ∈ lostRoles) {entry : NodeId × NodeDescriptor}
    (hfirst : firstEligible order lostCaps role = some entry) (proposalTx : ClosingChannel Proposal)
    [Decidable (proposalTx.Accepts (movedBefore nodes lostCaps lostRoles role + 1))] :
    holders nodes (state.applyAll
        (proposalTx.passing (failoverProposals order lostCaps lostRoles))) role =
      if entry.1 ∈ state.nodes ∧
          proposalTx.Accepts (movedBefore nodes lostCaps lostRoles role + 1) then
        insert entry.1 (holders nodes state role)
      else holders nodes state role := by
  have halternative : findAlternative order role lostCaps = some entry.1 := by
    rw [findAlternative_eq_map, hfirst, Option.map_some]
  have hassigns : ∀ proposal ∈ proposalTx.passing (failoverProposals order lostCaps lostRoles),
      AssignsRole proposal := by
    intro proposal hmem
    exact assignsRole_of_mem_failoverProposals order lostCaps
      (ClosingChannel.mem_of_mem_passing hmem)
  have hentry : entry.1 ∈ nodes := by
    rw [← Finmap.lookup_isSome, lookup_of_firstEligible order lostCaps hfirst]
    rfl
  ext nodeId
  rw [mem_holders_iff, mem_roles_applyAll hassigns,
    mem_passing_failoverProposals_iff order lostCaps hlost halternative]
  split_ifs with htaken
  · rw [Finset.mem_insert, mem_holders_iff]
    constructor
    · rintro ⟨hnode, hheld | ⟨-, hnew, -⟩⟩
      · exact Or.inr ⟨hnode, hheld⟩
      · exact Or.inl hnew
    · rintro (hnew | ⟨hnode, hheld⟩)
      · rw [hnew]
        exact ⟨hentry, Or.inr ⟨htaken.1, rfl, htaken.2⟩⟩
      · exact ⟨hnode, Or.inl hheld⟩
  · rw [mem_holders_iff, or_iff_left]
    rintro ⟨hregistered, hnew, haccepts⟩
    exact htaken ⟨hnew ▸ hregistered, haccepts⟩

end Holders

namespace RoleOrchestrationEngine

variable (engine : RoleOrchestrationEngine)

/-- Proposals that the channel accepts while the failure of a node is handled. -/
def sentDuring (nodeId : NodeId) (order : IterationOrder (engine.nodes.erase nodeId)) :
    List Proposal :=
  (engine.handleNodeFailure nodeId order).2.proposalTx.accepted.drop
    engine.proposalTx.accepted.length

theorem sentDuring_of_known {nodeId : NodeId} (order : IterationOrder (engine.nodes.erase nodeId))
    {failed : NodeDescriptor} (hknown : engine.nodes.lookup nodeId = some failed) :
    engine.sentDuring nodeId order = engine.proposalTx.passing
      (failoverProposals order failed.capabilities failed.currentAssignedRoles) := by
  rw [sentDuring, engine.handleNodeFailure_of_known order hknown, failureProposals, hknown,
    ClosingChannel.accepted_sendEach, List.drop_left]

/-- While a free node can fulfill the role, its loss is made up for by a new holder. -/
def RestoresHolders (state : ClusterState) (nodeId : NodeId)
    (order : IterationOrder (engine.nodes.erase nodeId)) (lostCaps : Capabilities) (role : Role) :
    Prop :=
  HasFreeAlternative (engine.nodes.erase nodeId) lostCaps role →
    (holders (engine.nodes.erase nodeId) (state.applyAll (engine.sentDuring nodeId order))
        role).card =
      (holders (engine.nodes.erase nodeId) state role).card + 1

/-- Where there is a free node, the lost role gets a new holder exactly when the first node that can
fulfill it can take it and the channel accepts the proposal for it. -/
theorem card_holders_iff (state : ClusterState) {nodeId : NodeId} {failed : NodeDescriptor}
    {role : Role} (hknown : engine.nodes.lookup nodeId = some failed)
    (hrole : role ∈ failed.currentAssignedRoles)
    (order : IterationOrder (engine.nodes.erase nodeId))
    (hfree : HasFreeAlternative (engine.nodes.erase nodeId) failed.capabilities role) :
    (holders (engine.nodes.erase nodeId) (state.applyAll (engine.sentDuring nodeId order))
          role).card =
        (holders (engine.nodes.erase nodeId) state role).card + 1 ↔
      BeginsWithTaker order state failed.capabilities role ∧
        engine.proposalTx.Accepts (movedBefore (engine.nodes.erase nodeId) failed.capabilities
          failed.currentAssignedRoles role + 1) := by
  classical
  obtain ⟨entry, hfirst⟩ : ∃ entry, firstEligible order failed.capabilities role = some entry := by
    rw [← Option.isSome_iff_exists, firstEligible, List.find?_isSome]
    obtain ⟨other, survivor, hlookup, hcan, -⟩ := hfree
    exact ⟨(other, survivor), (order.mem_iff other survivor).mpr hlookup, hcan⟩
  have hentry : entry.1 ∈ engine.nodes.erase nodeId := by
    rw [← Finmap.lookup_isSome, lookup_of_firstEligible order failed.capabilities hfirst]
    rfl
  have hbegins : BeginsWithTaker order state failed.capabilities role ↔
      entry.1 ∈ state.nodes ∧ entry.1 ∉ holders (engine.nodes.erase nodeId) state role := by
    rw [mem_holders_iff, and_iff_right hentry]
    simp [BeginsWithTaker, hfirst]
  rw [hbegins, engine.sentDuring_of_known order hknown,
    holders_applyAll order hrole hfirst engine.proposalTx]
  split_ifs with htaken
  · rw [and_iff_right htaken.1, and_iff_left htaken.2]
    by_cases hholds : entry.1 ∈ holders (engine.nodes.erase nodeId) state role
    · rw [Finset.insert_eq_of_mem hholds]
      exact iff_of_false (by omega) (not_not_intro hholds)
    · rw [Finset.card_insert_of_notMem hholds]
      exact iff_of_true rfl hholds
  · exact iff_of_false (by omega) fun hboth ↦ htaken ⟨hboth.1.1, hboth.2⟩

/-- The failure of a node is made up for exactly when the first node that can fulfill the role can
take it and the channel accepts the proposal for it, or when there is no free one. -/
theorem restoresHolders_iff {engine : RoleOrchestrationEngine} (state : ClusterState)
    {nodeId : NodeId} {failed : NodeDescriptor} {role : Role}
    (hknown : engine.nodes.lookup nodeId = some failed)
    (hrole : role ∈ failed.currentAssignedRoles)
    (order : IterationOrder (engine.nodes.erase nodeId)) :
    engine.RestoresHolders state nodeId order failed.capabilities role ↔
      (HasFreeAlternative (engine.nodes.erase nodeId) failed.capabilities role →
        BeginsWithTaker order state failed.capabilities role ∧
          engine.proposalTx.Accepts (movedBefore (engine.nodes.erase nodeId) failed.capabilities
            failed.currentAssignedRoles role + 1)) :=
  imp_congr_right (engine.card_holders_iff state hknown hrole order)

/-! ## Two executors and a free node -/

/-- Two executors and a free node. -/
def threeNodes : RoleOrchestrationEngine :=
  (((new {}).registerNode (worker 1 [.execution])).registerNode
    (worker 2 [.execution])).registerNode (worker 3 [])

/-- The cluster state behind them. -/
def threeNodesState : ClusterState :=
  ClusterState.applyAll {} [.registerNode (worker 1 [.execution]),
    .registerNode (worker 2 [.execution]), .registerNode (worker 3 []),
    .assignRole 1 .execution, .assignRole 2 .execution]

theorem restoresHolders_iff_threeNodes :
    ∃ order : IterationOrder (threeNodes.nodes.erase 1),
      threeNodes.RestoresHolders threeNodesState 1 order {} .execution := by
  have hlookup : (threeNodes.nodes.erase 1).lookup 3 = some (worker 3 []) := by decide
  obtain ⟨order, rest, hentries⟩ := IterationOrder.exists_beginning_with hlookup
  have hbegins : BeginsWithTaker order threeNodesState {} .execution :=
    ⟨(3, worker 3 []), by rw [firstEligible, hentries]; rfl, by decide, by decide⟩
  have hknown : threeNodes.nodes.lookup 1 = some (worker 1 [.execution]) := by decide
  have hrole : Role.execution ∈ (worker 1 [.execution]).currentAssignedRoles := by decide
  have hiff := restoresHolders_iff threeNodesState hknown hrole order
  exact ⟨order, hiff.mpr fun _ ↦ ⟨hbegins, by intro room hroom; cases hroom⟩⟩

/-- The other executor is read first, and the free node gets nothing. -/
theorem holder_is_chosen_again :
    ¬ ∀ (engine : RoleOrchestrationEngine) (state : ClusterState) (nodeId : NodeId)
      (failed : NodeDescriptor) (role : Role),
      engine.nodes.lookup nodeId = some failed → role ∈ failed.currentAssignedRoles →
        ∀ order, engine.RestoresHolders state nodeId order failed.capabilities role := by
  intro hgeneral
  have hlookup : (threeNodes.nodes.erase 1).lookup 2 = some (worker 2 [.execution]) := by decide
  have hknown : threeNodes.nodes.lookup 1 = some (worker 1 [.execution]) := by decide
  have hfree : HasFreeAlternative (threeNodes.nodes.erase 1) {} .execution :=
    ⟨3, worker 3 [], by decide, by decide, by decide⟩
  obtain ⟨order, rest, hentries⟩ := IterationOrder.exists_beginning_with hlookup
  have hrestores := hgeneral threeNodes threeNodesState 1 _ .execution hknown (by decide) order
  obtain ⟨⟨entry, hfirst, -, hnot⟩, -⟩ := (threeNodes.card_holders_iff threeNodesState hknown
    (by decide) order hfree).mp (hrestores hfree)
  have hentry : entry = (2, worker 2 [.execution]) := by
    rw [firstEligible, hentries] at hfirst
    exact (Option.some.inj hfirst).symm
  rw [hentry] at hnot
  exact hnot (by decide)

end RoleOrchestrationEngine

end EdgeOrchestrator.Orchestration

import EdgeOrchestrator.Foundation.Execution
import EdgeOrchestrator.Raft.NodeRecord

/-!
# Invariants of the replicated state

Whatever is proposed, the registry and the role lists fit together, a repeated proposal changes
nothing, and only the order of the proposals about one node matters. The roles of a node are kept
twice, in its descriptor and in its role list. The proposals that change one copy never change the
other, so the copies agree along a run exactly when no proposal changes the role list of a
registered node and every registration repeats it.
-/

namespace EdgeOrchestrator.Raft.ClusterState

open Execution KeyedFold

/-- The registry and the role lists fit together. -/
structure Consistent (state : ClusterState) : Prop where
  registered : ∀ nodeId ∈ state.roleAssignments, nodeId ∈ state.nodes
  nodup : ∀ nodeId roles, state.roleAssignments.lookup nodeId = some roles → roles.Nodup
  own : ∀ nodeId descriptor, state.nodes.lookup nodeId = some descriptor →
    descriptor.nodeId = nodeId

/-- The state is consistent exactly when the record of every node is well formed. -/
theorem consistent_iff_record (state : ClusterState) :
    state.Consistent ↔ ∀ nodeId, (state.record nodeId).WellFormed nodeId := by
  constructor
  · intro hstate nodeId
    have hnodup : (state.record nodeId).roles.Nodup := by
      rw [record_roles]
      cases hroles : state.roleAssignments.lookup nodeId with
      | none => exact List.nodup_nil
      | some roles => exact hstate.nodup nodeId roles hroles
    exact ⟨fun hlist ↦ (isSome_descriptor_iff state nodeId).mpr
      (hstate.registered nodeId ((isSome_roleList_iff state nodeId).mp hlist)), hnodup,
      hstate.own nodeId⟩
  · intro hrecord
    have hnodup : ∀ nodeId roles, state.roleAssignments.lookup nodeId = some roles →
        roles.Nodup := by
      intro nodeId roles hroles
      have hwell := (hrecord nodeId).nodup
      rwa [record_roles, hroles] at hwell
    exact ⟨fun nodeId hmem ↦ (isSome_descriptor_iff state nodeId).mp
      ((hrecord nodeId).registered ((isSome_roleList_iff state nodeId).mpr hmem)), hnodup,
      fun nodeId ↦ (hrecord nodeId).own⟩

theorem consistent_empty : ({} : ClusterState).Consistent := by
  rw [consistent_iff_record]
  intro nodeId
  exact NodeRecord.wellFormed_empty nodeId

/-- Every list of proposals keeps the state consistent. -/
theorem Consistent.applyAll {state : ClusterState} (hstate : state.Consistent)
    (proposals : List Proposal) : (state.applyAll proposals).Consistent := by
  rw [consistent_iff_record] at hstate ⊢
  exact apply_local.invariant_foldl NodeRecord.WellFormed
    (fun proposal record hrecord ↦ hrecord.apply) hstate proposals

theorem Consistent.apply {state : ClusterState} (hstate : state.Consistent)
    (proposal : Proposal) : (state.apply proposal).1.Consistent :=
  hstate.applyAll [proposal]

/-- In a consistent state a proposal applied twice leaves the same maps as applied once. -/
theorem Consistent.apply_apply {state : ClusterState} (hstate : state.Consistent)
    (proposal : Proposal) :
    SameReplica ((state.apply proposal).1.apply proposal).1 (state.apply proposal).1 := by
  rw [sameReplica_iff_record]
  intro nodeId
  by_cases htarget : proposal.nodeId = nodeId
  · have hrecord := (consistent_iff_record state).mp hstate proposal.nodeId
    rw [← htarget, record_apply_own, record_apply_own]
    exact hrecord.apply_apply
  · rw [record_apply_other _ proposal nodeId htarget]

/-- Every reachable state is consistent, and repeating a proposal in it changes nothing. -/
theorem reachable_consistent_and_idempotent (proposals : List Proposal) :
    (ClusterState.applyAll {} proposals).Consistent ∧
      ∀ proposal, SameReplica
        (((ClusterState.applyAll {} proposals).apply proposal).1.apply proposal).1
        ((ClusterState.applyAll {} proposals).apply proposal).1 := by
  have hconsistent := consistent_empty.applyAll proposals
  exact ⟨hconsistent, hconsistent.apply_apply⟩

/-- Proposals in which every node finds the same ones in the same order leave the same maps. -/
theorem applyAll_eq_of_same_order_per_node (state : ClusterState) (first second : List Proposal)
    (hsame : ∀ nodeId : NodeId,
      (first.filter fun proposal ↦ proposal.nodeId = nodeId) =
        second.filter fun proposal ↦ proposal.nodeId = nodeId) :
    (state.applyAll first).nodes = (state.applyAll second).nodes ∧
      (state.applyAll first).roleAssignments = (state.applyAll second).roleAssignments := by
  apply (sameReplica_iff_record _ _).mpr
  intro nodeId
  exact apply_local.view_foldl_congr hsame state nodeId

/-- Two neighbours about different nodes are in the same order for every node when swapped. -/
theorem filter_swap {first second : Proposal} (hdistinct : first.nodeId ≠ second.nodeId)
    (rest : List Proposal) (nodeId : NodeId) :
    ((first :: second :: rest).filter fun proposal ↦ proposal.nodeId = nodeId) =
      (second :: first :: rest).filter fun proposal ↦ proposal.nodeId = nodeId := by
  by_cases hfirst : first.nodeId = nodeId
  · have hsecond : ¬ second.nodeId = nodeId := by
      intro heq
      exact hdistinct (hfirst.trans heq.symm)
    simp [hfirst, hsecond]
  · simp [hfirst, List.filter_cons]

/-- The descriptor of a node just started, without addresses. -/
def freshDescriptor (nodeId : NodeId) (roles : List Role) : NodeDescriptor where
  nodeId := nodeId
  nodeType := .heavy
  os := .linux
  capabilities := {}
  advertisedAddresses := []
  currentAssignedRoles := roles
  startedAt := ⟨0⟩
  raftId := none

theorem applyAll_eq_of_swapped_neighbours :
    let registrations :=
      [Proposal.registerNode (freshDescriptor 1 []), .registerNode (freshDescriptor 2 [])]
    let assign := Proposal.assignRole 1 .storage
    let revoke := Proposal.revokeRole 2 .storage
    let start := ClusterState.applyAll {} registrations
    (start.applyAll [assign, revoke]).nodes = (start.applyAll [revoke, assign]).nodes ∧
      (start.applyAll [assign, revoke]).roleAssignments =
        (start.applyAll [revoke, assign]).roleAssignments :=
  applyAll_eq_of_same_order_per_node _ _ _ (filter_swap (by decide) [])

/-- Applying a proposal as a step of a run; every proposal is enabled. -/
def applyStep (state : ClusterState) (proposal : Proposal) : Option ClusterState :=
  some (state.apply proposal).1

theorem run_applyStep (state : ClusterState) (proposals : List Proposal) :
    run applyStep state proposals = some (state.applyAll proposals) := by
  induction proposals generalizing state with
  | nil => rfl
  | cons proposal rest ih =>
    rw [run_cons, applyStep, Option.bind_some, ih]
    rfl

/-- The descriptor of every registered node carries the roles assigned to it. -/
def RolesAgree (state : ClusterState) : Prop :=
  ∀ nodeId descriptor, state.nodes.lookup nodeId = some descriptor →
    ∀ role, role ∈ descriptor.currentAssignedRoles ↔
      role ∈ (state.roleAssignments.lookup nodeId).getD []

/-- A registration repeats the assigned roles; the role list of a registered node is not changed. -/
def RepeatsRoles (state : ClusterState) : Proposal → Prop
  | .registerNode descriptor => ∀ role, role ∈ descriptor.currentAssignedRoles ↔
      role ∈ (state.roleAssignments.lookup descriptor.nodeId).getD []
  | .deregisterNode _ => True
  | .assignRole nodeId role => nodeId ∈ state.nodes →
      role ∈ (state.roleAssignments.lookup nodeId).getD []
  | .revokeRole nodeId role => role ∉ (state.roleAssignments.lookup nodeId).getD []

/-- The descriptor in a record, if there is one, carries the roles of the record. -/
def AgreesIn (record : NodeRecord) : Prop :=
  ∀ descriptor, record.descriptor = some descriptor →
    ∀ role, role ∈ descriptor.currentAssignedRoles ↔ role ∈ record.roles

theorem agreesIn_registerNode (record : NodeRecord) (descriptor : NodeDescriptor) :
    AgreesIn (record.apply (.registerNode descriptor)) ↔
      ∀ role, role ∈ descriptor.currentAssignedRoles ↔ role ∈ record.roles := by
  constructor
  · intro hagrees
    exact hagrees descriptor rfl
  · intro hroles other hother
    rw [← Option.some.inj hother]
    exact hroles

theorem agreesIn_assignRole {record : NodeRecord} (hagrees : AgreesIn record) (nodeId : NodeId)
    (role : Role) :
    AgreesIn (record.apply (.assignRole nodeId role)) ↔
      (record.descriptor.isSome → role ∈ record.roles) := by
  by_cases hregistered : record.descriptor.isSome
  · have hsome := Option.eq_some_of_isSome hregistered
    have hbefore := hagrees _ hsome
    constructor
    · intro hafter _
      have hroles := hafter _ ((record.descriptor_assignRole nodeId role).trans hsome) role
      rw [← hbefore, hroles, NodeRecord.mem_roles_assignRole hregistered]
      exact Or.inr rfl
    · intro hrole descriptor hdescriptor other
      rw [NodeRecord.descriptor_assignRole] at hdescriptor
      rw [hagrees descriptor hdescriptor, NodeRecord.roles_assignRole hregistered,
        if_pos (hrole hregistered)]
  · rw [NodeRecord.assignRole_of_unregistered hregistered]
    exact iff_of_true hagrees fun hsome ↦ absurd hsome hregistered

theorem agreesIn_revokeRole {record : NodeRecord} {nodeId : NodeId}
    (hrecord : record.WellFormed nodeId) (hagrees : AgreesIn record) (role : Role) :
    AgreesIn (record.apply (.revokeRole nodeId role)) ↔ role ∉ record.roles := by
  constructor
  · intro hafter hrole
    have hlist : record.roleList.isSome := by
      by_contra hnone
      rw [Option.not_isSome_iff_eq_none] at hnone
      rw [NodeRecord.roles, hnone] at hrole
      exact List.not_mem_nil hrole
    have hsome := Option.eq_some_of_isSome (hrecord.registered hlist)
    have hrevoked := (hafter _ hsome role).mp ((hagrees _ hsome role).mpr hrole)
    exact ((NodeRecord.mem_roles_revokeRole hrecord.nodup nodeId role role).mp hrevoked).2 rfl
  · intro hrole descriptor hdescriptor other
    rw [NodeRecord.roles_revokeRole, List.erase_of_not_mem hrole]
    exact hagrees descriptor hdescriptor other

/-- The record of the addressed node agrees after a proposal exactly when it repeats the roles. -/
theorem agreesIn_apply_own_iff {state : ClusterState} (hstate : state.Consistent)
    (hagree : state.RolesAgree) (proposal : Proposal) :
    AgreesIn ((state.apply proposal).1.record proposal.nodeId) ↔ state.RepeatsRoles proposal := by
  have hagrees : AgreesIn (state.record proposal.nodeId) := hagree proposal.nodeId
  rw [record_apply_own]
  cases proposal with
  | registerNode descriptor => exact agreesIn_registerNode _ descriptor
  | deregisterNode nodeId => exact iff_of_true (by simp [AgreesIn, NodeRecord.apply]) trivial
  | assignRole nodeId role =>
    rw [agreesIn_assignRole hagrees, isSome_descriptor_iff]
    rfl
  | revokeRole nodeId role =>
    exact agreesIn_revokeRole ((consistent_iff_record state).mp hstate nodeId) hagrees role

theorem rolesAgree_apply_iff {state : ClusterState} (hstate : state.Consistent)
    (hagree : state.RolesAgree) (proposal : Proposal) :
    (state.apply proposal).1.RolesAgree ↔ state.RepeatsRoles proposal := by
  rw [← agreesIn_apply_own_iff hstate hagree]
  constructor
  · intro hafter
    exact hafter proposal.nodeId
  · intro hown nodeId
    by_cases htarget : proposal.nodeId = nodeId
    · rw [← htarget]
      exact hown
    · have hrecord := record_apply_other state proposal nodeId htarget
      have hkept : AgreesIn ((state.apply proposal).1.record nodeId) := by
        rw [hrecord]
        exact hagree nodeId
      exact hkept

/-- The copies of the roles agree in every state of a run exactly when every proposal of the run
repeats the roles assigned before it. -/
theorem rolesAgree_throughout_iff (proposals : List Proposal) :
    Throughout applyStep RolesAgree {} proposals ↔
      Guarded applyStep RepeatsRoles {} proposals := by
  apply throughout_iff_guarded fun state ↦ state.Consistent ∧ state.RolesAgree
  · intro state hstate
    exact hstate.2
  · intro state proposal next hstate hguard hstep
    rw [← Option.some.inj hstep]
    exact ⟨hstate.1.apply proposal, (rolesAgree_apply_iff hstate.1 hstate.2 proposal).mpr hguard⟩
  · intro state proposal next hstate hstep hnext
    rw [← Option.some.inj hstep] at hnext
    exact (rolesAgree_apply_iff hstate.1 hstate.2 proposal).mp hnext
  · exact ⟨consistent_empty, by simp [RolesAgree]⟩

/-- A node registered without roles and assigned one afterwards shows none to the scheduler. -/
theorem not_rolesAgree_after_assignRole :
    ¬ ∀ proposals, (ClusterState.applyAll {} proposals).RolesAgree := by
  intro hgeneral
  have hagree := hgeneral
    [.registerNode (freshDescriptor 1 []), .assignRole 1 .execution]
  have hroles := hagree 1 (freshDescriptor 1 []) (by decide) .execution
  exact absurd (hroles.mpr (by decide)) (by decide)

end EdgeOrchestrator.Raft.ClusterState

import EdgeOrchestrator.Foundation.KeyedFold
import EdgeOrchestrator.Raft.StateMachine

/-!
# The replicated state as one record for each node

A proposal is addressed to one node. What the two maps hold about a node is its record, and
applying a proposal is a step on the record of the node it is addressed to. The invariants of the
replicated state are invariants of these records.
-/

namespace EdgeOrchestrator.Raft

open KeyedFold

def Proposal.nodeId : Proposal → NodeId
  | .registerNode descriptor => descriptor.nodeId
  | .deregisterNode nodeId => nodeId
  | .assignRole nodeId _ => nodeId
  | .revokeRole nodeId _ => nodeId

/-- What the replicated state holds about one node. -/
@[ext]
structure NodeRecord where
  descriptor : Option NodeDescriptor := none
  roleList : Option (List Role) := none

namespace NodeRecord

/-- The roles assigned to the node; an absent list is an empty one. -/
def roles (record : NodeRecord) : List Role := record.roleList.getD []

/-- What a proposal does to the record of the node it is addressed to. -/
def apply (record : NodeRecord) : Proposal → NodeRecord
  | .registerNode descriptor => { record with descriptor := some descriptor }
  | .deregisterNode _ => {}
  | .assignRole _ role =>
    if record.descriptor.isSome then
      { record with
        roleList := some (if role ∈ record.roles then record.roles else record.roles ++ [role]) }
    else record
  | .revokeRole _ role => { record with roleList := record.roleList.map fun roles ↦ roles.erase role }

/-- Only registered nodes have a role list, it has no duplicates, and the descriptor is the one of
this node. -/
structure WellFormed (nodeId : NodeId) (record : NodeRecord) : Prop where
  registered : record.roleList.isSome → record.descriptor.isSome
  nodup : record.roles.Nodup
  own : ∀ descriptor, record.descriptor = some descriptor → descriptor.nodeId = nodeId

theorem wellFormed_empty (nodeId : NodeId) : WellFormed nodeId {} where
  registered := by simp
  nodup := List.nodup_nil
  own := by simp

@[simp]
theorem roles_registerNode (record : NodeRecord) (descriptor : NodeDescriptor) :
    (record.apply (.registerNode descriptor)).roles = record.roles := rfl

theorem roleList_assignRole {record : NodeRecord} (hregistered : record.descriptor.isSome)
    (nodeId : NodeId) (role : Role) :
    (record.apply (.assignRole nodeId role)).roleList =
      some (if role ∈ record.roles then record.roles else record.roles ++ [role]) := by
  simp only [apply, if_pos hregistered]

theorem roles_assignRole {record : NodeRecord} (hregistered : record.descriptor.isSome)
    (nodeId : NodeId) (role : Role) :
    (record.apply (.assignRole nodeId role)).roles =
      if role ∈ record.roles then record.roles else record.roles ++ [role] := by
  rw [roles, roleList_assignRole hregistered, Option.getD_some]

theorem assignRole_of_unregistered {record : NodeRecord} (hregistered : ¬ record.descriptor.isSome)
    (nodeId : NodeId) (role : Role) : record.apply (.assignRole nodeId role) = record := by
  simp only [apply, if_neg hregistered]

@[simp]
theorem descriptor_assignRole (record : NodeRecord) (nodeId : NodeId) (role : Role) :
    (record.apply (.assignRole nodeId role)).descriptor = record.descriptor := by
  simp only [apply]
  split_ifs <;> rfl

@[simp]
theorem roles_revokeRole (record : NodeRecord) (nodeId : NodeId) (role : Role) :
    (record.apply (.revokeRole nodeId role)).roles = record.roles.erase role := by
  simp only [apply, roles]
  cases record.roleList <;> rfl

@[simp]
theorem descriptor_revokeRole (record : NodeRecord) (nodeId : NodeId) (role : Role) :
    (record.apply (.revokeRole nodeId role)).descriptor = record.descriptor := rfl

theorem mem_roles_assignRole {record : NodeRecord} (hregistered : record.descriptor.isSome)
    (nodeId : NodeId) (role other : Role) :
    other ∈ (record.apply (.assignRole nodeId role)).roles ↔ other ∈ record.roles ∨ other = role := by
  rw [roles_assignRole hregistered]
  split_ifs with hmem
  · have hother : other = role → other ∈ record.roles := by
      intro heq
      rw [heq]
      exact hmem
    exact (or_iff_left_of_imp hother).symm
  · rw [List.mem_append, List.mem_singleton]

theorem mem_roles_revokeRole {record : NodeRecord} (hnodup : record.roles.Nodup)
    (nodeId : NodeId) (role other : Role) :
    other ∈ (record.apply (.revokeRole nodeId role)).roles ↔ other ∈ record.roles ∧ other ≠ role := by
  rw [roles_revokeRole, hnodup.mem_erase_iff, and_comm]

/-- Every proposal keeps the record of its node well formed. -/
theorem WellFormed.apply {proposal : Proposal} {record : NodeRecord}
    (hrecord : WellFormed proposal.nodeId record) :
    WellFormed proposal.nodeId (record.apply proposal) := by
  cases proposal with
  | registerNode descriptor =>
    exact ⟨fun _ ↦ rfl, hrecord.nodup, fun other hother ↦ by
      rw [← Option.some.inj hother]
      rfl⟩
  | deregisterNode nodeId => exact wellFormed_empty nodeId
  | assignRole nodeId role =>
    by_cases hregistered : record.descriptor.isSome
    · have hnodup : (record.apply (.assignRole nodeId role)).roles.Nodup := by
        rw [roles_assignRole hregistered]
        split_ifs with hmem
        · exact hrecord.nodup
        · rw [← List.concat_eq_append]
          exact hrecord.nodup.concat hmem
      exact ⟨fun _ ↦ by rwa [descriptor_assignRole], hnodup, fun descriptor hdescriptor ↦
        hrecord.own descriptor (by rwa [descriptor_assignRole] at hdescriptor)⟩
    · rw [assignRole_of_unregistered hregistered]
      exact hrecord
  | revokeRole nodeId role =>
    have hnodup : (record.apply (.revokeRole nodeId role)).roles.Nodup := by
      rw [roles_revokeRole]
      exact hrecord.nodup.erase role
    exact ⟨fun hlist ↦ hrecord.registered (by simpa [NodeRecord.apply] using hlist), hnodup,
      hrecord.own⟩

/-- Applying a proposal to a well-formed record a second time changes nothing. -/
theorem WellFormed.apply_apply {proposal : Proposal} {record : NodeRecord}
    (hrecord : WellFormed proposal.nodeId record) :
    (record.apply proposal).apply proposal = record.apply proposal := by
  cases proposal with
  | registerNode descriptor => rfl
  | deregisterNode nodeId => rfl
  | assignRole nodeId role =>
    by_cases hregistered : record.descriptor.isSome
    · have hagain : (record.apply (.assignRole nodeId role)).descriptor.isSome := by
        rwa [descriptor_assignRole]
      have hmem : role ∈ (record.apply (.assignRole nodeId role)).roles :=
        (mem_roles_assignRole hregistered nodeId role role).mpr (Or.inr rfl)
      apply NodeRecord.ext
      · exact descriptor_assignRole _ nodeId role
      · rw [roleList_assignRole hagain, if_pos hmem, roles_assignRole hregistered,
          roleList_assignRole hregistered]
    · rw [assignRole_of_unregistered hregistered, assignRole_of_unregistered hregistered]
  | revokeRole nodeId role =>
    have hnot : role ∉ (record.apply (.revokeRole nodeId role)).roles := fun hmem ↦
      ((mem_roles_revokeRole hrecord.nodup nodeId role role).mp hmem).2 rfl
    rw [roles_revokeRole] at hnot
    apply NodeRecord.ext
    · rfl
    · simp only [NodeRecord.apply, Option.map_map]
      cases hlist : record.roleList with
      | none => rfl
      | some roles =>
        rw [NodeRecord.roles, hlist, Option.getD_some] at hnot
        simp only [Option.map_some, Function.comp_apply, List.erase_of_not_mem hnot]

end NodeRecord

namespace ClusterState

def record (state : ClusterState) (nodeId : NodeId) : NodeRecord where
  descriptor := state.nodes.lookup nodeId
  roleList := state.roleAssignments.lookup nodeId

theorem record_roles (state : ClusterState) (nodeId : NodeId) :
    (state.record nodeId).roles = (state.roleAssignments.lookup nodeId).getD [] := rfl

theorem isSome_descriptor_iff (state : ClusterState) (nodeId : NodeId) :
    (state.record nodeId).descriptor.isSome ↔ nodeId ∈ state.nodes := Finmap.lookup_isSome

theorem isSome_roleList_iff (state : ClusterState) (nodeId : NodeId) :
    (state.record nodeId).roleList.isSome ↔ nodeId ∈ state.roleAssignments := Finmap.lookup_isSome

/-- Replicas are the same exactly when they hold the same about every node. -/
theorem sameReplica_iff_record (left right : ClusterState) :
    SameReplica left right ↔ ∀ nodeId, left.record nodeId = right.record nodeId := by
  constructor
  · intro hsame nodeId
    simp only [record, hsame.1, hsame.2]
  · intro hrecord
    constructor
    · apply Finmap.ext_lookup
      intro nodeId
      exact congrArg NodeRecord.descriptor (hrecord nodeId)
    · apply Finmap.ext_lookup
      intro nodeId
      exact congrArg NodeRecord.roleList (hrecord nodeId)

theorem record_apply_own (state : ClusterState) (proposal : Proposal) :
    (state.apply proposal).1.record proposal.nodeId =
      (state.record proposal.nodeId).apply proposal := by
  cases proposal with
  | registerNode descriptor =>
    simp only [apply, record, NodeRecord.apply, Proposal.nodeId, Finmap.lookup_insert]
  | deregisterNode nodeId =>
    simp only [apply, record, NodeRecord.apply, Proposal.nodeId, Finmap.lookup_erase]
  | assignRole nodeId role =>
    by_cases hmem : nodeId ∈ state.nodes
    · have hregistered := (isSome_descriptor_iff state nodeId).mpr hmem
      apply NodeRecord.ext
      · rw [Proposal.nodeId, NodeRecord.descriptor_assignRole]
        simp only [apply, if_pos hmem]
        split_ifs <;> rfl
      · rw [Proposal.nodeId, NodeRecord.roleList_assignRole hregistered, record_roles]
        simp only [apply, if_pos hmem]
        split_ifs <;> exact Finmap.lookup_insert _
    · have hregistered := (isSome_descriptor_iff state nodeId).not.mpr hmem
      rw [Proposal.nodeId, NodeRecord.assignRole_of_unregistered hregistered]
      simp only [apply, if_neg hmem]
  | revokeRole nodeId role =>
    simp only [apply, NodeRecord.apply, Proposal.nodeId]
    split
    · rename_i hnone
      simp only [record, hnone, Option.map_none]
    · rename_i roles hsome
      split_ifs with hrole
      · simp only [record, hsome, Finmap.lookup_insert, Option.map_some]
      · simp only [record, hsome, Option.map_some, List.erase_of_not_mem hrole]

theorem record_apply_other (state : ClusterState) (proposal : Proposal) (nodeId : NodeId)
    (hother : proposal.nodeId ≠ nodeId) :
    (state.apply proposal).1.record nodeId = state.record nodeId := by
  have hne := hother.symm
  cases proposal with
  | registerNode descriptor =>
    simp only [apply, record, Proposal.nodeId] at hne ⊢
    rw [Finmap.lookup_insert_of_ne _ hne]
  | deregisterNode target =>
    simp only [apply, record, Proposal.nodeId] at hne ⊢
    rw [Finmap.lookup_erase_ne hne, Finmap.lookup_erase_ne hne]
  | assignRole target role =>
    simp only [apply, Proposal.nodeId] at hne ⊢
    split_ifs
    · simp only [record, Finmap.lookup_insert_of_ne _ hne]
    · simp only [record, Finmap.lookup_insert_of_ne _ hne]
    · rfl
  | revokeRole target role =>
    simp only [apply, Proposal.nodeId] at hne ⊢
    split
    · rfl
    · split_ifs
      · simp only [record, Finmap.lookup_insert_of_ne _ hne]
      · rfl

/-- Applying proposals works node by node. -/
theorem apply_local :
    Local Proposal.nodeId record (fun state proposal ↦ (state.apply proposal).1)
      NodeRecord.apply where
  own := record_apply_own
  other := record_apply_other

/-- The record of a node after a list of proposals is the fold of those addressed to it. -/
theorem record_applyAll (state : ClusterState) (proposals : List Proposal) (nodeId : NodeId) :
    (state.applyAll proposals).record nodeId =
      (actionsOf Proposal.nodeId nodeId proposals).foldl NodeRecord.apply (state.record nodeId) :=
  apply_local.view_foldl nodeId state proposals

end ClusterState

end EdgeOrchestrator.Raft

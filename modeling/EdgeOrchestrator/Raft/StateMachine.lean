import EdgeOrchestrator.Core.Error

/-!
# The replicated cluster state

Committed proposals register and deregister nodes and assign and revoke roles. The state machine
keeps the registry and the role lists in two maps and returns what each proposal did.
-/

namespace EdgeOrchestrator.Raft

inductive Proposal
  | registerNode (descriptor : NodeDescriptor)
  | deregisterNode (nodeId : NodeId)
  | assignRole (nodeId : NodeId) (role : Role)
  | revokeRole (nodeId : NodeId) (role : Role)
  deriving DecidableEq, Repr

inductive ApplyResult
  | ok
  | nodeRegistered (nodeId : NodeId)
  | nodeDeregistered (nodeId : NodeId)
  | roleAssigned (nodeId : NodeId) (role : Role)
  | roleRevoked (nodeId : NodeId) (role : Role)
  | rejected (reason : String)
  deriving DecidableEq, Repr

/-- The proposal was refused. -/
def ApplyResult.IsRejected (result : ApplyResult) : Prop := ∃ reason, result = .rejected reason

structure ClusterState where
  nodes : HashMap NodeId NodeDescriptor := ∅
  roleAssignments : HashMap NodeId (List Role) := ∅
  lastAppliedIndex : ℕ := 0
  deriving DecidableEq

/-- A point-in-time copy of the cluster state. -/
structure ClusterSnapshot where
  nodes : HashMap NodeId NodeDescriptor
  roleAssignments : HashMap NodeId (List Role)
  lastAppliedIndex : ℕ
  deriving DecidableEq

namespace ClusterState

/-- Apply one proposal. The last applied index is advanced by the caller. -/
def apply (state : ClusterState) : Proposal → ClusterState × ApplyResult
  | .registerNode descriptor =>
    ({ state with nodes := state.nodes.insert descriptor.nodeId descriptor },
      if descriptor.nodeId ∈ state.nodes then .ok else .nodeRegistered descriptor.nodeId)
  | .deregisterNode nodeId =>
    ({ state with
        nodes := state.nodes.erase nodeId
        roleAssignments := state.roleAssignments.erase nodeId },
      .nodeDeregistered nodeId)
  | .assignRole nodeId role =>
    if nodeId ∈ state.nodes then
      let roles := (state.roleAssignments.lookup nodeId).getD []
      if role ∈ roles then
        ({ state with roleAssignments := state.roleAssignments.insert nodeId roles }, .ok)
      else
        ({ state with roleAssignments := state.roleAssignments.insert nodeId (roles ++ [role]) },
          .roleAssigned nodeId role)
    else
      (state, .rejected ("Cannot assign role to unknown node: " ++ Uuid.display nodeId))
  | .revokeRole nodeId role =>
    match state.roleAssignments.lookup nodeId with
    | none => (state, .ok)
    | some roles =>
      if role ∈ roles then
        ({ state with roleAssignments := state.roleAssignments.insert nodeId (roles.erase role) },
          .roleRevoked nodeId role)
      else (state, .ok)

/-- `ClusterState::snapshot`. -/
def snapshot (state : ClusterState) : ClusterSnapshot where
  nodes := state.nodes
  roleAssignments := state.roleAssignments
  lastAppliedIndex := state.lastAppliedIndex

/-- `ClusterState::restore`. -/
def restore (snapshot : ClusterSnapshot) : ClusterState where
  nodes := snapshot.nodes
  roleAssignments := snapshot.roleAssignments
  lastAppliedIndex := snapshot.lastAppliedIndex

@[simp]
theorem restore_snapshot (state : ClusterState) : restore state.snapshot = state := rfl

/-- The two replicated maps agree; the bookkeeping index is not compared. -/
def SameReplica (left right : ClusterState) : Prop :=
  left.nodes = right.nodes ∧ left.roleAssignments = right.roleAssignments

theorem SameReplica.refl (state : ClusterState) : SameReplica state state := ⟨rfl, rfl⟩

/-- No proposal reads or writes the bookkeeping index. -/
theorem apply_sameReplica {left right : ClusterState} (hsame : SameReplica left right)
    (proposal : Proposal) : SameReplica (left.apply proposal).1 (right.apply proposal).1 := by
  rcases left with ⟨nodes, roleAssignments, leftIndex⟩
  rcases right with ⟨rightNodes, rightRoles, rightIndex⟩
  rcases hsame with ⟨hnodes, hroles⟩
  dsimp only at hnodes hroles
  subst hnodes hroles
  cases proposal with
  | registerNode descriptor => exact ⟨rfl, rfl⟩
  | deregisterNode nodeId => exact ⟨rfl, rfl⟩
  | assignRole nodeId role =>
    simp only [apply]
    split_ifs <;> exact ⟨rfl, rfl⟩
  | revokeRole nodeId role =>
    simp only [apply]
    split
    · exact ⟨rfl, rfl⟩
    · split_ifs <;> exact ⟨rfl, rfl⟩

/-- Fold a list of proposals, first one first. -/
def applyAll (state : ClusterState) (proposals : List Proposal) : ClusterState :=
  proposals.foldl (fun state proposal ↦ (state.apply proposal).1) state

theorem applyAll_append (state : ClusterState) (first second : List Proposal) :
    state.applyAll (first ++ second) = (state.applyAll first).applyAll second :=
  List.foldl_append

/-- What each proposal of a list returns when they are applied one after the other. -/
def applyResults : ClusterState → List Proposal → List ApplyResult
  | _, [] => []
  | state, proposal :: rest =>
    (state.apply proposal).2 :: applyResults (state.apply proposal).1 rest

end ClusterState

end EdgeOrchestrator.Raft

import EdgeOrchestrator.Raft.ReplicatedState

/-!
# Topology specifications

A topology specification names the roles every node should have. Its difference to the assigned
roles is a list of proposals, produced while two hash maps are read in any order: the missing
roles are assigned first, then the superfluous ones are revoked. Applying the proposals to a
consistent state leaves exactly the desired roles, and nothing to propose in a second round.
-/

namespace EdgeOrchestrator.Orchestration

open KeyedFold Raft

/-- The part of a node selector that the difference reads. -/
structure NodeSelector where
  nodeId : Option NodeId := none
  deriving DecidableEq, Repr

structure NodeAssignment where
  nodeSelector : NodeSelector
  roles : List Role
  deriving DecidableEq, Repr

structure ClusterTopologySpec where
  assignments : List NodeAssignment := []
  deriving DecidableEq, Repr

/-- Push the roles a list does not contain yet. -/
def pushMissing (entry roles : List Role) : List Role :=
  roles.foldl (fun entry role ↦ if role ∈ entry then entry else entry ++ [role]) entry

/-- Enter one assignment; a selector without a node id selects nothing. -/
def enterAssignment (desired : HashMap NodeId (List Role)) (assignment : NodeAssignment) :
    HashMap NodeId (List Role) :=
  match assignment.nodeSelector.nodeId with
  | some nodeId =>
    desired.insert nodeId (pushMissing ((desired.lookup nodeId).getD []) assignment.roles)
  | none => desired

def desiredRoles (spec : ClusterTopologySpec) : HashMap NodeId (List Role) :=
  spec.assignments.foldl enterAssignment ∅

/-- The roles of a list that a node does not have in a map. -/
def rolesMissingFrom (map : HashMap NodeId (List Role)) (nodeId : NodeId) (roles : List Role) :
    List Role :=
  roles.filter fun role ↦ role ∉ (map.lookup nodeId).getD []

/-- Assignments of the roles that are desired but missing. -/
def assignmentsFor (current : HashMap NodeId (List Role)) (entry : NodeId × List Role) :
    List Proposal :=
  (rolesMissingFrom current entry.1 entry.2).map (Proposal.assignRole entry.1)

/-- Revocations of the roles that exist but are not desired. -/
def revocationsFor (desired : HashMap NodeId (List Role)) (entry : NodeId × List Role) :
    List Proposal :=
  (rolesMissingFrom desired entry.1 entry.2).map (Proposal.revokeRole entry.1)

/-- `diff_topology`, with the orders in which the two maps are read. -/
def diffTopology (current : HashMap NodeId (List Role)) (spec : ClusterTopologySpec)
    (desiredOrder : IterationOrder (desiredRoles spec)) (currentOrder : IterationOrder current) :
    List Proposal :=
  desiredOrder.entries.flatMap (assignmentsFor current) ++
    currentOrder.entries.flatMap (revocationsFor (desiredRoles spec))

/-- An assignment of the specification gives the role to the node. -/
def ClusterTopologySpec.Wants (spec : ClusterTopologySpec) (nodeId : NodeId) (role : Role) :
    Prop :=
  ∃ assignment ∈ spec.assignments,
    assignment.nodeSelector.nodeId = some nodeId ∧ role ∈ assignment.roles

theorem mem_pushMissing (entry roles : List Role) (role : Role) :
    role ∈ pushMissing entry roles ↔ role ∈ entry ∨ role ∈ roles := by
  induction roles generalizing entry with
  | nil => simp [pushMissing]
  | cons head rest ih =>
    rw [pushMissing, List.foldl_cons, ← pushMissing, ih]
    split_ifs with hmem
    · have hhead : role = head → role ∈ entry := by
        intro heq
        rw [heq]
        exact hmem
      rw [List.mem_cons]
      tauto
    · rw [List.mem_append, List.mem_singleton, List.mem_cons, or_assoc]

theorem mem_enterAssignment (desired : HashMap NodeId (List Role)) (assignment : NodeAssignment)
    (nodeId : NodeId) (role : Role) :
    role ∈ ((enterAssignment desired assignment).lookup nodeId).getD [] ↔
      role ∈ (desired.lookup nodeId).getD [] ∨
        (assignment.nodeSelector.nodeId = some nodeId ∧ role ∈ assignment.roles) := by
  unfold enterAssignment
  cases hselector : assignment.nodeSelector.nodeId with
  | none => simp
  | some selected =>
    by_cases hnode : nodeId = selected
    · rw [hnode, Finmap.lookup_insert, Option.getD_some, mem_pushMissing]
      simp
    · rw [Finmap.lookup_insert_of_ne _ hnode]
      simp [Ne.symm hnode]

theorem mem_foldl_enterAssignment (assignments : List NodeAssignment)
    (desired : HashMap NodeId (List Role)) (nodeId : NodeId) (role : Role) :
    role ∈ ((assignments.foldl enterAssignment desired).lookup nodeId).getD [] ↔
      role ∈ (desired.lookup nodeId).getD [] ∨ ∃ assignment ∈ assignments,
        assignment.nodeSelector.nodeId = some nodeId ∧ role ∈ assignment.roles := by
  induction assignments generalizing desired with
  | nil => simp
  | cons assignment rest ih =>
    rw [List.foldl_cons, ih, mem_enterAssignment, or_assoc, List.exists_mem_cons_iff]

/-- The desired roles of a node are those of the assignments naming it. -/
theorem mem_desiredRoles (spec : ClusterTopologySpec) (nodeId : NodeId) (role : Role) :
    role ∈ ((desiredRoles spec).lookup nodeId).getD [] ↔ spec.Wants nodeId role := by
  rw [desiredRoles, mem_foldl_enterAssignment]
  simp [ClusterTopologySpec.Wants]

theorem mem_rolesMissingFrom (map : HashMap NodeId (List Role)) (nodeId : NodeId)
    (roles : List Role) (role : Role) :
    role ∈ rolesMissingFrom map nodeId roles ↔
      role ∈ roles ∧ role ∉ (map.lookup nodeId).getD [] := by
  rw [rolesMissingFrom, List.mem_filter, decide_eq_true_iff]

/-- Reading a map entry by entry, a node gets the proposals of the roles it has in the map. -/
theorem actionsOf_proposals {map : HashMap NodeId (List Role)} (order : IterationOrder map)
    {propose : NodeId × List Role → List Proposal}
    (htarget : ∀ entry, ∀ proposal ∈ propose entry, proposal.nodeId = entry.1)
    (hnone : ∀ nodeId, propose (nodeId, []) = []) (nodeId : NodeId) :
    actionsOf Proposal.nodeId nodeId (order.entries.flatMap propose) =
      propose (nodeId, (map.lookup nodeId).getD []) := by
  cases hlookup : map.lookup nodeId with
  | none =>
    rw [Option.getD_none, hnone]
    apply actionsOf_flatMap_of_not_mem fun entry _ ↦ htarget entry
    intro roles hmem
    rw [order.mem_iff, hlookup] at hmem
    exact Option.some_ne_none roles hmem.symm
  | some roles =>
    exact actionsOf_flatMap_of_mem (fun entry _ ↦ htarget entry) order.nodup
      ((order.mem_iff nodeId roles).mpr hlookup)

theorem nodeId_of_mem_assignmentsFor (current : HashMap NodeId (List Role))
    (entry : NodeId × List Role) :
    ∀ proposal ∈ assignmentsFor current entry, proposal.nodeId = entry.1 :=
  List.forall_mem_map.mpr fun _ _ ↦ rfl

theorem nodeId_of_mem_revocationsFor (desired : HashMap NodeId (List Role))
    (entry : NodeId × List Role) :
    ∀ proposal ∈ revocationsFor desired entry, proposal.nodeId = entry.1 :=
  List.forall_mem_map.mpr fun _ _ ↦ rfl

/-- Assigning roles to one node adds them, if it is registered or there are none to assign. -/
theorem mem_roles_assignRoles {record : NodeRecord} {roles : List Role}
    (hregistered : roles ≠ [] → record.descriptor.isSome) (nodeId : NodeId) (role : Role) :
    role ∈ ((roles.map (Proposal.assignRole nodeId)).foldl NodeRecord.apply record).roles ↔
      role ∈ record.roles ∨ role ∈ roles := by
  induction roles generalizing record with
  | nil => simp
  | cons head rest ih =>
    have hhead := hregistered (List.cons_ne_nil head rest)
    have hrest : rest ≠ [] → (record.apply (.assignRole nodeId head)).descriptor.isSome := by
      intro _
      rwa [NodeRecord.descriptor_assignRole]
    rw [List.map_cons, List.foldl_cons, ih hrest, NodeRecord.mem_roles_assignRole hhead,
      or_assoc, List.mem_cons]

/-- Revoking roles from one node removes them. -/
theorem mem_roles_revokeRoles {record : NodeRecord} (hnodup : record.roles.Nodup)
    (roles : List Role) (nodeId : NodeId) (role : Role) :
    role ∈ ((roles.map (Proposal.revokeRole nodeId)).foldl NodeRecord.apply record).roles ↔
      role ∈ record.roles ∧ role ∉ roles := by
  induction roles generalizing record with
  | nil => simp
  | cons head rest ih =>
    have hrest : (record.apply (.revokeRole nodeId head)).roles.Nodup := by
      rw [NodeRecord.roles_revokeRole]
      exact hnodup.erase head
    rw [List.map_cons, List.foldl_cons, ih hrest, NodeRecord.mem_roles_revokeRole hnodup,
      and_assoc, List.mem_cons, not_or]

/-- A proposal that assigns a role to a registered node, or revokes one. -/
def ChangesRoles (nodes : HashMap NodeId NodeDescriptor) : Proposal → Prop
  | .assignRole nodeId _ => nodeId ∈ nodes
  | .revokeRole _ _ => True
  | _ => False

theorem apply_of_changesRoles {state : ClusterState} {proposal : Proposal}
    (hchanges : ChangesRoles state.nodes proposal) :
    (state.apply proposal).1.nodes = state.nodes ∧
      ¬ (state.apply proposal).2.IsRejected := by
  cases proposal with
  | registerNode descriptor => exact hchanges.elim
  | deregisterNode nodeId => exact hchanges.elim
  | assignRole nodeId role =>
    have hmem : nodeId ∈ state.nodes := hchanges
    simp only [ClusterState.apply, if_pos hmem]
    split_ifs <;> simp [ApplyResult.IsRejected]
  | revokeRole nodeId role =>
    simp only [ClusterState.apply]
    split
    · simp [ApplyResult.IsRejected]
    · split_ifs <;> simp [ApplyResult.IsRejected]

/-- Changes of roles leave the registry alone, and none of them is rejected. -/
theorem applyAll_of_changesRoles {state : ClusterState} {proposals : List Proposal}
    (hchanges : ∀ proposal ∈ proposals, ChangesRoles state.nodes proposal) :
    (state.applyAll proposals).nodes = state.nodes ∧
      ∀ result ∈ state.applyResults proposals, ¬ result.IsRejected := by
  induction proposals generalizing state with
  | nil => simp [ClusterState.applyAll, ClusterState.applyResults]
  | cons proposal rest ih =>
    have hhead := apply_of_changesRoles (hchanges proposal List.mem_cons_self)
    have hrest := @ih (state.apply proposal).1 fun other hother ↦ by
      rw [hhead.1]
      exact hchanges other (List.mem_cons_of_mem proposal hother)
    constructor
    · exact hrest.1.trans hhead.1
    · exact List.forall_mem_cons.mpr ⟨hhead.2, hrest.2⟩

section Convergence

variable {state : ClusterState} {spec : ClusterTopologySpec}
  (desiredOrder : IterationOrder (desiredRoles spec))
  (currentOrder : IterationOrder state.roleAssignments)

/-- Every proposal of the difference changes the roles of a registered node. -/
theorem changesRoles_of_mem_diffTopology
    (hnamed : ∀ nodeId role, spec.Wants nodeId role → nodeId ∈ state.nodes) :
    ∀ proposal ∈ diffTopology state.roleAssignments spec desiredOrder currentOrder,
      ChangesRoles state.nodes proposal := by
  intro proposal hmem
  rcases List.mem_append.mp hmem with hassign | hrevoke
  · obtain ⟨entry, hentry, hproposal⟩ := List.mem_flatMap.mp hassign
    obtain ⟨role, hrole, rfl⟩ := List.mem_map.mp hproposal
    apply hnamed entry.1 role
    rw [← mem_desiredRoles, (desiredOrder.mem_iff entry.1 entry.2).mp hentry]
    exact ((mem_rolesMissingFrom _ _ _ _).mp hrole).1
  · obtain ⟨entry, hentry, hproposal⟩ := List.mem_flatMap.mp hrevoke
    obtain ⟨role, hrole, rfl⟩ := List.mem_map.mp hproposal
    trivial

/-- After the proposals of the difference a node has the desired roles. -/
theorem mem_roles_applyAll_diffTopology (hstate : state.Consistent)
    (hnamed : ∀ nodeId role, spec.Wants nodeId role → nodeId ∈ state.nodes)
    (nodeId : NodeId) (role : Role) :
    role ∈ ((state.applyAll (diffTopology state.roleAssignments spec desiredOrder
        currentOrder)).roleAssignments.lookup nodeId).getD [] ↔ spec.Wants nodeId role := by
  let current := (state.roleAssignments.lookup nodeId).getD []
  let desired := ((desiredRoles spec).lookup nodeId).getD []
  let middle := state.applyAll (desiredOrder.entries.flatMap (assignmentsFor state.roleAssignments))
  have hassigned : role ∈ (middle.record nodeId).roles ↔ role ∈ current ∨ role ∈ desired := by
    have hregistered : rolesMissingFrom state.roleAssignments nodeId desired ≠ [] →
        (state.record nodeId).descriptor.isSome := by
      intro hsome
      obtain ⟨wanted, hwanted⟩ := List.exists_mem_of_ne_nil _ hsome
      have hdesired := ((mem_rolesMissingFrom _ _ _ _).mp hwanted).1
      rw [ClusterState.isSome_descriptor_iff]
      exact hnamed nodeId wanted ((mem_desiredRoles spec nodeId wanted).mp hdesired)
    rw [ClusterState.record_applyAll, actionsOf_proposals desiredOrder
      (nodeId_of_mem_assignmentsFor state.roleAssignments) (fun _ ↦ rfl), assignmentsFor,
      mem_roles_assignRoles hregistered, mem_rolesMissingFrom, ClusterState.record_roles]
    tauto
  have hnodup : (middle.record nodeId).roles.Nodup :=
    ((ClusterState.consistent_iff_record middle).mp (hstate.applyAll _) nodeId).nodup
  rw [diffTopology, ClusterState.applyAll_append, ← ClusterState.record_roles,
    ClusterState.record_applyAll, actionsOf_proposals currentOrder
      (nodeId_of_mem_revocationsFor (desiredRoles spec)) (fun _ ↦ rfl), revocationsFor,
    mem_roles_revokeRoles hnodup, hassigned, mem_rolesMissingFrom, ← mem_desiredRoles]
  tauto

end Convergence

/-- A map that holds the desired roles leaves nothing to propose. -/
theorem diffTopology_eq_nil {current : HashMap NodeId (List Role)} {spec : ClusterTopologySpec}
    (desiredOrder : IterationOrder (desiredRoles spec)) (currentOrder : IterationOrder current)
    (hcurrent : ∀ nodeId role,
      role ∈ (current.lookup nodeId).getD [] ↔ spec.Wants nodeId role) :
    diffTopology current spec desiredOrder currentOrder = [] := by
  rw [diffTopology, List.append_eq_nil_iff, List.flatMap_eq_nil_iff, List.flatMap_eq_nil_iff]
  constructor
  · intro entry hentry
    rw [assignmentsFor, List.map_eq_nil_iff, List.eq_nil_iff_forall_not_mem]
    intro role hrole
    have hmissing := (mem_rolesMissingFrom _ _ _ _).mp hrole
    rw [hcurrent, ← mem_desiredRoles, (desiredOrder.mem_iff entry.1 entry.2).mp hentry] at hmissing
    exact hmissing.2 hmissing.1
  · intro entry hentry
    rw [revocationsFor, List.map_eq_nil_iff, List.eq_nil_iff_forall_not_mem]
    intro role hrole
    have hmissing := (mem_rolesMissingFrom _ _ _ _).mp hrole
    rw [mem_desiredRoles, ← hcurrent, (currentOrder.mem_iff entry.1 entry.2).mp hentry] at hmissing
    exact hmissing.2 hmissing.1

/-- In every reachable state, one round of proposals establishes a specification whose assignments
name registered nodes, and a second round is empty. -/
theorem reconciliation_converges (history : List Proposal) (spec : ClusterTopologySpec)
    (hnamed : ∀ assignment ∈ spec.assignments, ∃ nodeId,
      assignment.nodeSelector.nodeId = some nodeId ∧
        nodeId ∈ (ClusterState.applyAll {} history).nodes)
    (desiredOrder : IterationOrder (desiredRoles spec))
    (currentOrder : IterationOrder (ClusterState.applyAll {} history).roleAssignments) :
    let state := ClusterState.applyAll {} history
    let proposals := diffTopology state.roleAssignments spec desiredOrder currentOrder
    let reconciled := state.applyAll proposals
    (∀ result ∈ state.applyResults proposals, ¬ result.IsRejected) ∧
      reconciled.nodes = state.nodes ∧
      (∀ nodeId role, role ∈ (reconciled.roleAssignments.lookup nodeId).getD [] ↔
        ∃ assignment ∈ spec.assignments,
          assignment.nodeSelector.nodeId = some nodeId ∧ role ∈ assignment.roles) ∧
      ∀ (nextDesiredOrder : IterationOrder (desiredRoles spec))
        (nextCurrentOrder : IterationOrder reconciled.roleAssignments),
        diffTopology reconciled.roleAssignments spec nextDesiredOrder nextCurrentOrder = [] := by
  intro state proposals reconciled
  have hregistered : ∀ nodeId role, spec.Wants nodeId role → nodeId ∈ state.nodes := by
    intro nodeId role hwants
    obtain ⟨assignment, hmem, hselector, hrole⟩ := hwants
    obtain ⟨named, hname, hnode⟩ := hnamed assignment hmem
    rw [hselector, Option.some.injEq] at hname
    rwa [hname]
  have hchanges := applyAll_of_changesRoles
    (changesRoles_of_mem_diffTopology desiredOrder currentOrder hregistered)
  have hroles := mem_roles_applyAll_diffTopology desiredOrder currentOrder
    (ClusterState.consistent_empty.applyAll history) hregistered
  exact ⟨hchanges.2, hchanges.1, hroles, fun nextDesiredOrder nextCurrentOrder ↦
    diffTopology_eq_nil nextDesiredOrder nextCurrentOrder hroles⟩

/-- The only order of a map with one entry. -/
def orderOfSingleton (map : HashMap NodeId (List Role)) (nodeId : NodeId) (roles : List Role)
    (hmap : map = Finmap.singleton nodeId roles) : IterationOrder map where
  entries := [(nodeId, roles)]
  nodup := List.nodup_singleton nodeId
  mem_iff := by
    intro key value
    rw [hmap, List.mem_singleton, Prod.mk.injEq]
    by_cases hkey : key = nodeId
    · rw [hkey, Finmap.lookup_singleton_eq, Option.some.injEq]
      simp [eq_comm]
    · have hlookup : map.lookup key = none := by
        rw [hmap, Finmap.lookup_eq_none, Finmap.mem_singleton]
        exact hkey
      rw [← hmap, hlookup]
      simp [hkey]

/-- A storage node that is to become an execution node. -/
def storageNode : List Proposal :=
  [.registerNode (ClusterState.freshDescriptor 1 []), .assignRole 1 .storage]

def executionSpec : ClusterTopologySpec where
  assignments := [⟨⟨some 1⟩, [.execution]⟩, ⟨⟨some 1⟩, [.inference, .execution]⟩]

theorem reconciliation_converges_executionSpec :
    let state := ClusterState.applyAll {} storageNode
    let desiredOrder := orderOfSingleton (desiredRoles executionSpec) 1
      [.execution, .inference] (by decide)
    let currentOrder := orderOfSingleton state.roleAssignments 1 [.storage] (by decide)
    let proposals := diffTopology state.roleAssignments executionSpec desiredOrder currentOrder
    let reconciled := state.applyAll proposals
    proposals = [.assignRole 1 .execution, .assignRole 1 .inference, .revokeRole 1 .storage] ∧
      (∀ result ∈ state.applyResults proposals, ¬ result.IsRejected) ∧
      reconciled.nodes = state.nodes := by
  intro state desiredOrder currentOrder proposals reconciled
  have hnamed : ∀ assignment ∈ executionSpec.assignments, ∃ nodeId,
      assignment.nodeSelector.nodeId = some nodeId ∧ nodeId ∈ state.nodes := by
    intro assignment hmem
    have hselector : ∀ assignment ∈ executionSpec.assignments,
        assignment.nodeSelector.nodeId = some 1 := by decide
    exact ⟨1, hselector assignment hmem, by decide⟩
  have hconverges :=
    reconciliation_converges storageNode executionSpec hnamed desiredOrder currentOrder
  exact ⟨by decide, hconverges.1, hconverges.2.1⟩

end EdgeOrchestrator.Orchestration

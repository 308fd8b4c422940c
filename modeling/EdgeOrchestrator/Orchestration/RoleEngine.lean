import EdgeOrchestrator.Foundation.ClosingChannel
import EdgeOrchestrator.Orchestration.Topology
import Mathlib.Algebra.BigOperators.Group.Finset.Basic

/-!
# The role orchestration engine

The engine knows the nodes by their descriptors and sends proposals into a channel. Applying a
topology goes on after a failed send and returns `Ok`; the failure of a node stops there, when the
node has already been forgotten. Both are all-or-nothing only while the channel stays open.
-/

namespace EdgeOrchestrator.Orchestration

open Raft

structure RoleOrchestrationEngine where
  proposalTx : ClosingChannel Proposal
  desiredTopology : Option ClusterTopologySpec
  nodes : HashMap NodeId NodeDescriptor

/-- The error of a send into a closed channel. -/
def sendError : CoreError := .network "send proposal: channel closed"

/-- A node with this descriptor can take over a role from a node with the lost capabilities. -/
def canFulfill (role : Role) (lostCaps : Capabilities) (descriptor : NodeDescriptor) : Bool :=
  match role with
  | .execution => descriptor.capabilities.runtimes.any fun runtime ↦
      lostCaps.runtimes.contains runtime
  | .storage => descriptor.capabilities.storage
  | .inference => descriptor.capabilities.gpuAcceleration
  | .coordinator => true
  | .bootstrap => decide (descriptor.nodeType = .heavy)

/-- The first node, in the order in which the nodes are read, that can fulfill the role. -/
def findAlternative {nodes : HashMap NodeId NodeDescriptor} (order : IterationOrder nodes)
    (role : Role) (lostCaps : Capabilities) : Option NodeId :=
  (order.entries.find? fun entry ↦ canFulfill role lostCaps entry.2).map Prod.fst

/-- The loop over the lost roles. A role without an alternative is passed over. -/
def reassign {nodes : HashMap NodeId NodeDescriptor} (order : IterationOrder nodes)
    (lostCaps : Capabilities) :
    List Role → ClosingChannel Proposal → Option CoreError × ClosingChannel Proposal
  | [], proposalTx => (none, proposalTx)
  | role :: rest, proposalTx =>
    match findAlternative order role lostCaps with
    | none => reassign order lostCaps rest proposalTx
    | some alternative =>
      match proposalTx.send (.assignRole alternative role) with
      | (true, proposalTx) => reassign order lostCaps rest proposalTx
      | (false, proposalTx) => (some sendError, proposalTx)

namespace RoleOrchestrationEngine

variable (engine : RoleOrchestrationEngine)

/-- `RoleOrchestrationEngine::new`. -/
def new (proposalTx : ClosingChannel Proposal) : RoleOrchestrationEngine :=
  ⟨proposalTx, none, ∅⟩

def registerNode (descriptor : NodeDescriptor) : RoleOrchestrationEngine :=
  { engine with nodes := engine.nodes.insert descriptor.nodeId descriptor }

/-- Roles of the known nodes, collected in the order in which these are read. -/
def currentRoles (order : IterationOrder engine.nodes) : HashMap NodeId (List Role) :=
  HashMap.ofEntries (order.entries.map fun entry ↦ (entry.1, entry.2.currentAssignedRoles))

section Topology

variable (spec : ClusterTopologySpec) (order : IterationOrder engine.nodes)
  (desiredOrder : IterationOrder (desiredRoles spec))
  (currentOrder : IterationOrder (engine.currentRoles order))

def topologyProposals : List Proposal :=
  diffTopology (engine.currentRoles order) spec desiredOrder currentOrder

/-- Apply a topology spec: compute the difference, submit the proposals. -/
def applyTopology : Outcome CoreError Unit × RoleOrchestrationEngine :=
  (.ok (), { engine with
    proposalTx := engine.proposalTx.sendEach
      (engine.topologyProposals spec order desiredOrder currentOrder)
    desiredTopology := some spec })

end Topology

section Failure

variable (nodeId : NodeId) (order : IterationOrder (engine.nodes.erase nodeId))

/-- Handle a node going offline: forget it and propose its roles to the others. -/
def handleNodeFailure : Outcome CoreError Bool × RoleOrchestrationEngine :=
  match engine.nodes.lookup nodeId with
  | none => (.ok false, engine)
  | some descriptor =>
    match reassign order descriptor.capabilities descriptor.currentAssignedRoles
      engine.proposalTx with
    | (none, proposalTx) => (.ok (!descriptor.currentAssignedRoles.isEmpty),
        { engine with proposalTx := proposalTx, nodes := engine.nodes.erase nodeId })
    | (some error, proposalTx) => (.err error,
        { engine with proposalTx := proposalTx, nodes := engine.nodes.erase nodeId })

end Failure

end RoleOrchestrationEngine

/-! ## The proposals of a failure -/

/-- Proposals that give the lost roles to the alternatives. -/
def failoverProposals {nodes : HashMap NodeId NodeDescriptor} (order : IterationOrder nodes)
    (lostCaps : Capabilities) (lostRoles : List Role) : List Proposal :=
  lostRoles.filterMap fun role ↦
    (findAlternative order role lostCaps).map fun alternative ↦ .assignRole alternative role

section Failover

variable {nodes : HashMap NodeId NodeDescriptor} (order : IterationOrder nodes)
  (lostCaps : Capabilities)

/-- The loop sends the proposals up to the first one that is lost. -/
theorem reassign_eq (lostRoles : List Role) (proposalTx : ClosingChannel Proposal) :
    reassign order lostCaps lostRoles proposalTx =
      (if (proposalTx.sendUntil (failoverProposals order lostCaps lostRoles)).1 then none
        else some sendError,
        (proposalTx.sendUntil (failoverProposals order lostCaps lostRoles)).2) := by
  induction lostRoles generalizing proposalTx with
  | nil => rfl
  | cons role rest ih =>
    cases halternative : findAlternative order role lostCaps with
    | none =>
      have hproposals : failoverProposals order lostCaps (role :: rest) =
          failoverProposals order lostCaps rest := by
        rw [failoverProposals, List.filterMap_cons_none (by rw [halternative, Option.map_none]),
          ← failoverProposals]
      rw [reassign, halternative, hproposals]
      exact ih proposalTx
    | some alternative =>
      have hproposals : failoverProposals order lostCaps (role :: rest) =
          .assignRole alternative role :: failoverProposals order lostCaps rest := by
        rw [failoverProposals, List.filterMap_cons_some (by rw [halternative, Option.map_some]),
          ← failoverProposals]
      rw [reassign, halternative, hproposals, ClosingChannel.sendUntil]
      dsimp only
      rcases proposalTx.send (.assignRole alternative role) with ⟨_ | _, next⟩
      · rfl
      · exact ih next

theorem findAlternative_eq_none_iff (role : Role) :
    findAlternative order role lostCaps = none ↔
      ∀ nodeId descriptor, nodes.lookup nodeId = some descriptor →
        canFulfill role lostCaps descriptor = false := by
  rw [findAlternative, Option.map_eq_none_iff, List.find?_eq_none, Prod.forall]
  simp only [order.mem_iff, Bool.not_eq_true]

/-- There is an alternative exactly when some node can fulfill the role. -/
theorem isSome_findAlternative (role : Role) :
    (findAlternative order role lostCaps).isSome =
      nodes.any fun _ descriptor ↦ canFulfill role lostCaps descriptor := by
  rw [Bool.eq_iff_iff, any_eq_true_iff, ← Option.ne_none_iff_isSome, Ne,
    findAlternative_eq_none_iff]
  simp

/-- A proposal is sent for each lost role that some node can fulfill. -/
theorem length_failoverProposals (lostRoles : List Role) :
    (failoverProposals order lostCaps lostRoles).length =
      lostRoles.countP fun role ↦ nodes.any fun _ descriptor ↦
        canFulfill role lostCaps descriptor := by
  rw [failoverProposals, List.length_filterMap_eq_countP]
  apply List.countP_congr
  intro role _
  rw [Option.isSome_map, isSome_findAlternative]

end Failover

namespace RoleOrchestrationEngine

variable (engine : RoleOrchestrationEngine)

/-- Proposals that the failure of a node gives rise to. -/
def failureProposals (nodeId : NodeId) (order : IterationOrder (engine.nodes.erase nodeId)) :
    List Proposal :=
  match engine.nodes.lookup nodeId with
  | none => []
  | some descriptor =>
    failoverProposals order descriptor.capabilities descriptor.currentAssignedRoles

/-- Roles of a node that some other node can fulfill. -/
def rolesToMove (nodeId : NodeId) : ℕ :=
  match engine.nodes.lookup nodeId with
  | none => 0
  | some descriptor => descriptor.currentAssignedRoles.countP fun role ↦
      (engine.nodes.erase nodeId).any fun _ survivor ↦
        canFulfill role descriptor.capabilities survivor

theorem length_failureProposals (nodeId : NodeId)
    (order : IterationOrder (engine.nodes.erase nodeId)) :
    (engine.failureProposals nodeId order).length = engine.rolesToMove nodeId := by
  rw [failureProposals, rolesToMove]
  cases engine.nodes.lookup nodeId with
  | none => rfl
  | some descriptor => exact length_failoverProposals order _ _

/-- The failure of a known node, in terms of its proposals. -/
theorem handleNodeFailure_of_known {nodeId : NodeId}
    (order : IterationOrder (engine.nodes.erase nodeId)) {descriptor : NodeDescriptor}
    (hknown : engine.nodes.lookup nodeId = some descriptor) :
    engine.handleNodeFailure nodeId order =
      (if (engine.proposalTx.sendUntil (engine.failureProposals nodeId order)).1 then
          .ok (!descriptor.currentAssignedRoles.isEmpty)
        else .err sendError,
        { engine with
          proposalTx := engine.proposalTx.sendEach (engine.failureProposals nodeId order)
          nodes := engine.nodes.erase nodeId }) := by
  have hproposals : engine.failureProposals nodeId order =
      failoverProposals order descriptor.capabilities descriptor.currentAssignedRoles := by
    rw [failureProposals, hknown]
  rw [handleNodeFailure, hknown, hproposals, ← ClosingChannel.sendUntil_snd]
  simp only [reassign_eq]
  split_ifs <;> rfl

/-! ## The proposals of a topology -/

/-- A sum over the entries that are read is a sum over the keys, in whatever order. -/
theorem sum_entries {Key Value : Type} [DecidableEq Key] {map : HashMap Key Value}
    (order : IterationOrder map) (weight : Key → Value → ℕ) (missing : Value) :
    (order.entries.map fun entry ↦ weight entry.1 entry.2).sum =
      ∑ key ∈ map.keys, weight key ((map.lookup key).getD missing) := by
  have hkeys : map.keys = (order.entries.map Prod.fst).toFinset := by
    ext key
    rw [Finmap.mem_keys, ← Finmap.lookup_isSome, Option.isSome_iff_exists, List.mem_toFinset]
    simp [← order.mem_iff]
  rw [hkeys, List.sum_toFinset _ order.nodup, List.map_map]
  apply congrArg List.sum
  apply List.map_congr_left
  intro entry hentry
  rw [Function.comp_apply, (order.mem_iff entry.1 entry.2).mp hentry, Option.getD_some]

def rolesOf (nodeId : NodeId) : List Role :=
  ((engine.nodes.lookup nodeId).map NodeDescriptor.currentAssignedRoles).getD []

/-- Roles in which the nodes differ from a topology: wanted and missing, or there and not wanted. -/
def rolesToChange (spec : ClusterTopologySpec) : ℕ :=
  ∑ nodeId ∈ (desiredRoles spec).keys,
      ((((desiredRoles spec).lookup nodeId).getD []).filter fun role ↦
        role ∉ engine.rolesOf nodeId).length +
    ∑ nodeId ∈ engine.nodes.keys,
      ((engine.rolesOf nodeId).filter fun role ↦
        role ∉ ((desiredRoles spec).lookup nodeId).getD []).length

section Difference

variable {engine} (order : IterationOrder engine.nodes)

theorem lookup_currentRoles (nodeId : NodeId) :
    (engine.currentRoles order).lookup nodeId =
      (engine.nodes.lookup nodeId).map NodeDescriptor.currentAssignedRoles := by
  have hkeys : ((order.entries.map fun entry ↦
      (entry.1, entry.2.currentAssignedRoles)).map Prod.fst).Nodup := by
    rw [List.map_map]
    exact order.nodup
  ext roles
  rw [currentRoles, ← (IterationOrder.ofEntries _ hkeys).mem_iff, Option.map_eq_some_iff]
  simp [IterationOrder.ofEntries, order.mem_iff]

theorem lookup_getD_currentRoles (nodeId : NodeId) :
    ((engine.currentRoles order).lookup nodeId).getD [] = engine.rolesOf nodeId := by
  rw [lookup_currentRoles, rolesOf]

theorem keys_currentRoles : (engine.currentRoles order).keys = engine.nodes.keys := by
  ext nodeId
  rw [Finmap.mem_keys, Finmap.mem_keys, ← Finmap.lookup_isSome, ← Finmap.lookup_isSome,
    lookup_currentRoles, Option.isSome_map]

/-- The difference has a proposal for each role to change. -/
theorem length_topologyProposals (spec : ClusterTopologySpec)
    (desiredOrder : IterationOrder (desiredRoles spec))
    (currentOrder : IterationOrder (engine.currentRoles order)) :
    (engine.topologyProposals spec order desiredOrder currentOrder).length =
      engine.rolesToChange spec := by
  have hassigned : (desiredOrder.entries.flatMap
      (assignmentsFor (engine.currentRoles order))).length =
      ∑ nodeId ∈ (desiredRoles spec).keys,
        ((((desiredRoles spec).lookup nodeId).getD []).filter fun role ↦
          role ∉ engine.rolesOf nodeId).length := by
    rw [List.length_flatMap]
    calc
      _ = (desiredOrder.entries.map fun entry ↦
          (entry.2.filter fun role ↦ role ∉ engine.rolesOf entry.1).length).sum := by
        simp only [assignmentsFor, List.length_map, rolesMissingFrom, lookup_getD_currentRoles]
      _ = _ := sum_entries desiredOrder (fun nodeId roles ↦
        (roles.filter fun role ↦ role ∉ engine.rolesOf nodeId).length) []
  have hrevoked : (currentOrder.entries.flatMap (revocationsFor (desiredRoles spec))).length =
      ∑ nodeId ∈ engine.nodes.keys, ((engine.rolesOf nodeId).filter fun role ↦
        role ∉ ((desiredRoles spec).lookup nodeId).getD []).length := by
    rw [List.length_flatMap]
    calc
      _ = (currentOrder.entries.map fun entry ↦ (entry.2.filter fun role ↦
          role ∉ ((desiredRoles spec).lookup entry.1).getD []).length).sum := by
        simp only [revocationsFor, List.length_map, rolesMissingFrom]
      _ = _ := sum_entries currentOrder (fun nodeId roles ↦ (roles.filter fun role ↦
        role ∉ ((desiredRoles spec).lookup nodeId).getD []).length) []
      _ = _ := by
        rw [keys_currentRoles]
        simp only [lookup_getD_currentRoles]
  rw [topologyProposals, diffTopology, List.length_append, hassigned, hrevoked, rolesToChange]

end Difference

/-! ## All or nothing -/

/-- A call that returns a value has had every proposal accepted, and a call that returns an error
has left the nodes and the topology as they were. -/
structure AllOrNothing {Value : Type} (proposals : List Proposal)
    (result : Outcome CoreError Value × RoleOrchestrationEngine) : Prop where
  all : ∀ value, result.1 = .ok value →
    result.2.proposalTx.accepted = engine.proposalTx.accepted ++ proposals
  nothing : ∀ error, result.1 = .err error →
    result.2.nodes = engine.nodes ∧ result.2.desiredTopology = engine.desiredTopology

/-- Applying a topology always returns `Ok`. -/
theorem applyTopology_allOrNothing_iff (spec : ClusterTopologySpec)
    (order : IterationOrder engine.nodes) (desiredOrder : IterationOrder (desiredRoles spec))
    (currentOrder : IterationOrder (engine.currentRoles order)) :
    engine.AllOrNothing (engine.topologyProposals spec order desiredOrder currentOrder)
        (engine.applyTopology spec order desiredOrder currentOrder) ↔
      engine.proposalTx.Accepts (engine.rolesToChange spec) := by
  rw [← length_topologyProposals order spec desiredOrder currentOrder,
    ← ClosingChannel.accepted_sendEach_eq_iff]
  constructor
  · intro hcall
    exact hcall.all () rfl
  · intro haccepted
    constructor
    · intro _ _
      exact haccepted
    · intro error herror
      cases herror

/-- The failure of a node returns an error only when the node has been forgotten. -/
theorem handleNodeFailure_allOrNothing_iff (nodeId : NodeId)
    (order : IterationOrder (engine.nodes.erase nodeId)) :
    engine.AllOrNothing (engine.failureProposals nodeId order)
        (engine.handleNodeFailure nodeId order) ↔
      engine.proposalTx.Accepts (engine.rolesToMove nodeId) := by
  rw [← engine.length_failureProposals nodeId order]
  cases hknown : engine.nodes.lookup nodeId with
  | none =>
    have hcall : engine.handleNodeFailure nodeId order = (.ok false, engine) := by
      rw [handleNodeFailure, hknown]
    have hproposals : engine.failureProposals nodeId order = [] := by
      rw [failureProposals, hknown]
    rw [hcall, hproposals]
    apply iff_of_true _ engine.proposalTx.accepts_zero
    constructor
    · intro _ _
      rw [List.append_nil]
    · intro error herror
      cases herror
  | some descriptor =>
    rw [engine.handleNodeFailure_of_known order hknown]
    constructor
    · intro hcall
      by_contra hlost
      rw [← ClosingChannel.sendUntil_fst_iff] at hlost
      have hforgotten := (hcall.nothing sendError (if_neg hlost)).1
      have hlookup : (engine.nodes.erase nodeId).lookup nodeId = some descriptor := by
        rw [← hknown]
        exact congrArg (Finmap.lookup nodeId) hforgotten
      rw [Finmap.lookup_erase] at hlookup
      cases hlookup
    · intro haccepts
      constructor
      · intro _ _
        exact (ClosingChannel.accepted_sendEach_eq_iff _ _).mpr haccepts
      · intro error herror
        rw [if_pos ((ClosingChannel.sendUntil_fst_iff _ _).mpr haccepts)] at herror
        cases herror

/-- Both calls are all-or-nothing exactly while the channel accepts all their proposals. -/
theorem calls_allOrNothing_iff (engine : RoleOrchestrationEngine) :
    (∀ (spec : ClusterTopologySpec) (order : IterationOrder engine.nodes)
      (desiredOrder : IterationOrder (desiredRoles spec))
      (currentOrder : IterationOrder (engine.currentRoles order)),
      engine.AllOrNothing (engine.topologyProposals spec order desiredOrder currentOrder)
          (engine.applyTopology spec order desiredOrder currentOrder) ↔
        engine.proposalTx.Accepts (engine.rolesToChange spec)) ∧
    ∀ (nodeId : NodeId) (order : IterationOrder (engine.nodes.erase nodeId)),
      engine.AllOrNothing (engine.failureProposals nodeId order)
          (engine.handleNodeFailure nodeId order) ↔
        engine.proposalTx.Accepts (engine.rolesToMove nodeId) :=
  ⟨engine.applyTopology_allOrNothing_iff, engine.handleNodeFailure_allOrNothing_iff⟩

/-- A heavy node with every capability but a GPU. -/
def worker (nodeId : NodeId) (roles : List Role) : NodeDescriptor where
  nodeId := nodeId
  nodeType := .heavy
  os := .linux
  capabilities := {}
  advertisedAddresses := []
  currentAssignedRoles := roles
  startedAt := ⟨0⟩
  raftId := none

/-- An executor and its backup, known to an engine whose channel is closed. -/
def closedEngine : RoleOrchestrationEngine :=
  ((new { closesAfter := some 0 }).registerNode (worker 1 [.execution])).registerNode (worker 2 [])

/-- A topology that moves the executor is applied in name only, and the executor that fails is
forgotten with its role. -/
theorem closed_channel_loses_proposals :
    (¬ ∀ (spec : ClusterTopologySpec) (order : IterationOrder closedEngine.nodes)
      (desiredOrder : IterationOrder (desiredRoles spec))
      (currentOrder : IterationOrder (closedEngine.currentRoles order)),
      closedEngine.AllOrNothing
        (closedEngine.topologyProposals spec order desiredOrder currentOrder)
        (closedEngine.applyTopology spec order desiredOrder currentOrder)) ∧
    ¬ ∀ (nodeId : NodeId) (order : IterationOrder (closedEngine.nodes.erase nodeId)),
      closedEngine.AllOrNothing (closedEngine.failureProposals nodeId order)
        (closedEngine.handleNodeFailure nodeId order) := by
  constructor
  · intro hgeneral
    let spec : ClusterTopologySpec := ⟨[⟨⟨some 2⟩, [.execution]⟩]⟩
    obtain ⟨order⟩ := IterationOrder.nonempty closedEngine.nodes
    obtain ⟨desiredOrder⟩ := IterationOrder.nonempty (desiredRoles spec)
    obtain ⟨currentOrder⟩ := IterationOrder.nonempty (closedEngine.currentRoles order)
    have haccepts := (closedEngine.applyTopology_allOrNothing_iff spec order desiredOrder
      currentOrder).mp (hgeneral spec order desiredOrder currentOrder)
    exact absurd (haccepts 0 rfl) (by decide)
  · intro hgeneral
    obtain ⟨order⟩ := IterationOrder.nonempty (closedEngine.nodes.erase 1)
    have haccepts := (closedEngine.handleNodeFailure_allOrNothing_iff 1 order).mp
      (hgeneral 1 order)
    exact absurd (haccepts 0 rfl) (by decide)

end RoleOrchestrationEngine

end EdgeOrchestrator.Orchestration

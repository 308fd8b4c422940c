import EdgeOrchestrator.Node.ProjectClient
import EdgeOrchestrator.Raft.Network
import EdgeOrchestrator.Raft.StateMachine
import Mathlib.Data.Set.Function

/-!
# Routing a task to a peer

A member of the raft cluster looks its executor up in the replicated state and the raft registry, a
light client in the descriptors that its peers sent. Both read a hash map in any order and sort by
raft id. On the same cluster they choose the same peer: the one that is named, or the capable one
with the smallest raft id.
-/

namespace EdgeOrchestrator.Node

open Raft

/-- The order of raft ids; a missing one comes first. -/
def raftIdLe : Option ℕ → Option ℕ → Bool
  | none, _ => true
  | some _, none => false
  | some left, some right => decide (left ≤ right)

theorem raftIdLe_trans (first second third : Option ℕ) (hfirst : raftIdLe first second)
    (hsecond : raftIdLe second third) : raftIdLe first third := by
  cases first <;> cases second <;> cases third <;> simp_all [raftIdLe]
  omega

theorem raftIdLe_total (left right : Option ℕ) : raftIdLe left right || raftIdLe right left := by
  cases left <;> cases right <;> simp [raftIdLe]
  omega

theorem raftIdLe_antisymm {left right : Option ℕ} (hleft : raftIdLe left right)
    (hright : raftIdLe right left) : left = right := by
  cases left <;> cases right <;> simp_all [raftIdLe]
  omega

section Sorting

variable {Item : Type} (key : Item → Option ℕ)

/-- `sort_by_key` for a key that is a raft id. -/
def sortByRaftId (items : List Item) : List Item :=
  items.mergeSort fun left right ↦ raftIdLe (key left) (key right)

variable {key}

theorem head?_sortByRaftId_of_mem {items : List Item} {item : Item}
    (hhead : (sortByRaftId key items).head? = some item) :
    item ∈ items ∧ ∀ other ∈ items, raftIdLe (key item) (key other) := by
  have hsorted : (sortByRaftId key items).Pairwise fun left right ↦
      raftIdLe (key left) (key right) :=
    List.pairwise_mergeSort (fun first second third ↦
      raftIdLe_trans (key first) (key second) (key third))
      (fun left right ↦ raftIdLe_total (key left) (key right)) items
  have hmem : ∀ other, other ∈ sortByRaftId key items ↔ other ∈ items := fun _ ↦ List.mem_mergeSort
  cases hlist : sortByRaftId key items with
  | nil => simp [hlist] at hhead
  | cons first rest =>
    rw [hlist, List.head?_cons, Option.some.injEq] at hhead
    rw [hlist, List.pairwise_cons] at hsorted
    rw [hlist] at hmem
    rw [← hhead]
    refine ⟨(hmem first).mp List.mem_cons_self, fun other hother ↦ ?_⟩
    rcases List.mem_cons.mp ((hmem other).mpr hother) with hself | hrest
    · rw [hself]
      simpa using raftIdLe_total (key first) (key first)
    · exact hsorted.1 other hrest

/-- When no two items have the same raft id, the first one is the one with the smallest. -/
theorem head?_sortByRaftId_eq_some_iff {items : List Item} {item : Item}
    (hdistinct : ∀ left ∈ items, ∀ right ∈ items, key left = key right → left = right) :
    (sortByRaftId key items).head? = some item ↔
      item ∈ items ∧ ∀ other ∈ items, raftIdLe (key item) (key other) := by
  constructor
  · exact head?_sortByRaftId_of_mem
  · rintro ⟨hmem, hleast⟩
    cases hhead : (sortByRaftId key items).head? with
    | none =>
      rw [List.head?_eq_none_iff] at hhead
      have hsorted : item ∈ sortByRaftId key items := List.mem_mergeSort.mpr hmem
      rw [hhead] at hsorted
      exact absurd hsorted List.not_mem_nil
    | some first =>
      have hfirst := head?_sortByRaftId_of_mem hhead
      have hkey := raftIdLe_antisymm (hfirst.2 item hmem) (hleast first hfirst.1)
      rw [hdistinct first hfirst.1 item hmem hkey]

end Sorting

/-- How a master resolves a target node to a peer. -/
inductive Catalog
  | raft (state : ClusterState) (registry : RaftIdRegistry)
  | peers (peers : HashMap PeerId NodeDescriptor)

/-- An order in which the map of a catalog can be read. -/
abbrev Catalog.Order : Catalog → Type
  | .raft state _ => IterationOrder state.nodes
  | .peers known => IterationOrder known

/-- The node can run projects and is not the caller. -/
def isCandidate (selfNodeId : NodeId) (descriptor : NodeDescriptor) : Bool :=
  descriptor.capabilities.projectSandbox && descriptor.nodeId != selfNodeId

/-- The descriptor that the raft catalog resolves a target to. -/
def targetNode (selfNodeId : NodeId) (state : ClusterState) (order : IterationOrder state.nodes) :
    Option NodeId → Except CoreError NodeDescriptor
  | some id =>
    match state.nodes.lookup id with
    | some node => .ok node
    | none => .error (.invalidState ("unknown target node " ++ Uuid.display id))
  | none =>
    let candidates := (order.entries.map Prod.snd).filter (isCandidate selfNodeId)
    match (sortByRaftId (·.raftId) candidates).head? with
    | some node => .ok node
    | none => .error (.invalidState "no remote node with project_sandbox capability")

def registeredPeer (registry : RaftIdRegistry) (node : NodeDescriptor) :
    Except CoreError PeerId :=
  match node.raftId with
  | none => .error (.invalidState "target node has no raft_id")
  | some raftId =>
    match registry.lookup raftId with
    | some peer => .ok peer
    | none => .error (.network ("no PeerId for raft id " ++ toString raftId ++ " (node " ++
        Uuid.display node.nodeId ++ ")"))

/-- The peer that the descriptors of the peers resolve a target to. -/
def pickPeer (selfNodeId : NodeId) (entries : List (PeerId × NodeDescriptor)) :
    Option NodeId → Option PeerId
  | some id => (entries.find? fun entry ↦ entry.2.nodeId == id).map Prod.fst
  | none =>
    let candidates := entries.filter fun entry ↦ isCandidate selfNodeId entry.2
    (sortByRaftId (fun entry ↦ entry.2.raftId) candidates).head?.map Prod.fst

def resolvePeer (selfNodeId : NodeId) (target : Option NodeId) :
    (catalog : Catalog) → catalog.Order → Except CoreError PeerId
  | .raft state registry, order =>
    match targetNode selfNodeId state order target with
    | .error error => .error error
    | .ok node => registeredPeer registry node
  | .peers _, order =>
    match pickPeer selfNodeId order.entries target with
    | some peer => .ok peer
    | none => .error (.invalidState "no reachable node with project_sandbox capability")

theorem ne_of_isCandidate {selfNodeId : NodeId} {descriptor : NodeDescriptor}
    (hcandidate : isCandidate selfNodeId descriptor) : descriptor.nodeId ≠ selfNodeId := by
  rw [isCandidate, Bool.and_eq_true, bne_iff_ne] at hcandidate
  exact hcandidate.2

theorem targetNode_some_eq_ok_iff {selfNodeId : NodeId} {state : ClusterState}
    {order : IterationOrder state.nodes} {id : NodeId} {descriptor : NodeDescriptor} :
    targetNode selfNodeId state order (some id) = .ok descriptor ↔
      state.nodes.lookup id = some descriptor := by
  rw [targetNode]
  cases state.nodes.lookup id <;> simp

theorem targetNode_none_eq_ok_iff {selfNodeId : NodeId} {state : ClusterState}
    {order : IterationOrder state.nodes} {descriptor : NodeDescriptor} :
    targetNode selfNodeId state order none = .ok descriptor ↔
      (sortByRaftId (·.raftId) ((order.entries.map Prod.snd).filter
        (isCandidate selfNodeId))).head? = some descriptor := by
  simp only [targetNode]
  cases (sortByRaftId (·.raftId) ((order.entries.map Prod.snd).filter
    (isCandidate selfNodeId))).head? <;> simp

theorem resolvePeer_raft_eq_ok_iff {selfNodeId : NodeId} {state : ClusterState}
    {registry : RaftIdRegistry} {order : IterationOrder state.nodes} {target : Option NodeId}
    {peer : PeerId} :
    resolvePeer selfNodeId target (.raft state registry) order = .ok peer ↔
      ∃ descriptor, targetNode selfNodeId state order target = .ok descriptor ∧
        registeredPeer registry descriptor = .ok peer := by
  rw [resolvePeer]
  cases targetNode selfNodeId state order target <;> simp

theorem resolvePeer_peers_eq_ok_iff {selfNodeId : NodeId}
    {known : HashMap PeerId NodeDescriptor} {order : IterationOrder known} {target : Option NodeId}
    {peer : PeerId} :
    resolvePeer selfNodeId target (.peers known) order = .ok peer ↔
      pickPeer selfNodeId order.entries target = some peer := by
  simp only [resolvePeer]
  cases pickPeer selfNodeId order.entries target <;> simp

/-- The nodes of a cluster, each with its peer. -/
structure Cluster where
  members : Set (PeerId × NodeDescriptor)
  nodeIds : members.InjOn fun member ↦ member.2.nodeId
  raftIds : members.InjOn fun member ↦ member.2.raftId
  peerIds : members.InjOn Prod.fst
  present : ∀ member ∈ members, member.2.raftId.isSome

namespace Cluster

variable (cluster : Cluster) (selfNodeId : NodeId)

/-- The cluster as a raft member sees it: all descriptors, and the peers of all nodes but its
own. -/
structure SeenByRaft (state : ClusterState) (registry : RaftIdRegistry) : Prop where
  nodes : ∀ nodeId descriptor, state.nodes.lookup nodeId = some descriptor ↔
    descriptor.nodeId = nodeId ∧ ∃ peer, (peer, descriptor) ∈ cluster.members
  registry : ∀ peer descriptor raftId, (peer, descriptor) ∈ cluster.members →
    descriptor.raftId = some raftId →
      registry.lookup raftId = if descriptor.nodeId = selfNodeId then none else some peer

/-- The cluster as a light client sees it: the descriptors of all other nodes. -/
def SeenByPeers (peers : HashMap PeerId NodeDescriptor) : Prop :=
  ∀ peer descriptor, peers.lookup peer = some descriptor ↔
    (peer, descriptor) ∈ cluster.members ∧ descriptor.nodeId ≠ selfNodeId

/-- The peer that a task should go to: that of the named node, if it is another one, or of the
capable node with the smallest raft id. -/
def IsRoute : Option NodeId → PeerId → Prop
  | some id, peer => ∃ descriptor, (peer, descriptor) ∈ cluster.members ∧
      descriptor.nodeId = id ∧ descriptor.nodeId ≠ selfNodeId
  | none, peer => ∃ descriptor, (peer, descriptor) ∈ cluster.members ∧
      isCandidate selfNodeId descriptor ∧
      ∀ other ∈ cluster.members, isCandidate selfNodeId other.2 →
        raftIdLe descriptor.raftId other.2.raftId

variable {cluster : Cluster} {selfNodeId : NodeId}

theorem present_of_mem {peer : PeerId} {descriptor : NodeDescriptor}
    (hmem : (peer, descriptor) ∈ cluster.members) :
    ∃ raftId, descriptor.raftId = some raftId :=
  Option.isSome_iff_exists.mp (cluster.present _ hmem)

/-- The descriptors of a raft member are those of the cluster. -/
theorem SeenByRaft.mem_values_iff {state : ClusterState} {registry : RaftIdRegistry}
    (hraft : cluster.SeenByRaft selfNodeId state registry) (order : IterationOrder state.nodes)
    (descriptor : NodeDescriptor) :
    descriptor ∈ order.entries.map Prod.snd ↔ ∃ peer, (peer, descriptor) ∈ cluster.members := by
  simp only [List.mem_map, Prod.exists, exists_eq_right]
  constructor
  · rintro ⟨nodeId, hmem⟩
    exact ((hraft.nodes nodeId descriptor).mp ((order.mem_iff nodeId descriptor).mp hmem)).2
  · intro hpeer
    exact ⟨descriptor.nodeId, (order.mem_iff _ _).mpr
      ((hraft.nodes descriptor.nodeId descriptor).mpr ⟨rfl, hpeer⟩)⟩

/-- The registry has the peer of every member but the caller. -/
theorem SeenByRaft.registeredPeer_eq_ok_iff {state : ClusterState} {registry : RaftIdRegistry}
    (hraft : cluster.SeenByRaft selfNodeId state registry) {peer : PeerId}
    {descriptor : NodeDescriptor} (hmem : (peer, descriptor) ∈ cluster.members) (chosen : PeerId) :
    registeredPeer registry descriptor = .ok chosen ↔
      chosen = peer ∧ descriptor.nodeId ≠ selfNodeId := by
  obtain ⟨raftId, hraftId⟩ := present_of_mem hmem
  have hlookup := hraft.registry peer descriptor raftId hmem hraftId
  simp only [registeredPeer, hraftId, hlookup]
  by_cases hself : descriptor.nodeId = selfNodeId
  · simp [hself]
  · simp [hself, eq_comm]

/-- A raft member resolves a target to its route. -/
theorem SeenByRaft.resolvePeer_eq_ok_iff {state : ClusterState} {registry : RaftIdRegistry}
    (hraft : cluster.SeenByRaft selfNodeId state registry) (order : IterationOrder state.nodes)
    (target : Option NodeId) (chosen : PeerId) :
    resolvePeer selfNodeId target (.raft state registry) order = .ok chosen ↔
      cluster.IsRoute selfNodeId target chosen := by
  rw [resolvePeer_raft_eq_ok_iff]
  cases target with
  | some id =>
    simp only [targetNode_some_eq_ok_iff, hraft.nodes id]
    constructor
    · rintro ⟨descriptor, ⟨hid, peer, hmem⟩, hregistered⟩
      obtain ⟨rfl, hother⟩ := (hraft.registeredPeer_eq_ok_iff hmem chosen).mp hregistered
      exact ⟨descriptor, hmem, hid, hother⟩
    · rintro ⟨descriptor, hmem, hid, hother⟩
      exact ⟨descriptor, ⟨hid, chosen, hmem⟩,
        (hraft.registeredPeer_eq_ok_iff hmem chosen).mpr ⟨rfl, hother⟩⟩
  | none =>
    have hdistinct : ∀ left ∈ (order.entries.map Prod.snd).filter (isCandidate selfNodeId),
        ∀ right ∈ (order.entries.map Prod.snd).filter (isCandidate selfNodeId),
          left.raftId = right.raftId → left = right := by
      intro left hleft right hright hsame
      obtain ⟨leftPeer, hleft⟩ := (hraft.mem_values_iff order left).mp (List.mem_of_mem_filter hleft)
      obtain ⟨rightPeer, hright⟩ :=
        (hraft.mem_values_iff order right).mp (List.mem_of_mem_filter hright)
      exact congrArg Prod.snd (cluster.raftIds hleft hright hsame)
    simp only [targetNode_none_eq_ok_iff, head?_sortByRaftId_eq_some_iff hdistinct,
      List.mem_filter, hraft.mem_values_iff order]
    constructor
    · rintro ⟨descriptor, ⟨⟨⟨peer, hmem⟩, hcandidate⟩, hleast⟩, hregistered⟩
      obtain ⟨rfl, -⟩ := (hraft.registeredPeer_eq_ok_iff hmem chosen).mp hregistered
      exact ⟨descriptor, hmem, hcandidate, fun other hother hable ↦
        hleast other.2 ⟨⟨other.1, hother⟩, hable⟩⟩
    · rintro ⟨descriptor, hmem, hcandidate, hleast⟩
      refine ⟨descriptor, ⟨⟨⟨chosen, hmem⟩, hcandidate⟩, ?_⟩,
        (hraft.registeredPeer_eq_ok_iff hmem chosen).mpr ⟨rfl, ne_of_isCandidate hcandidate⟩⟩
      rintro other ⟨⟨peer, hother⟩, hable⟩
      exact hleast (peer, other) hother hable

/-- A light client resolves a target to its route. -/
theorem SeenByPeers.resolvePeer_eq_ok_iff {known : HashMap PeerId NodeDescriptor}
    (hpeers : cluster.SeenByPeers selfNodeId known) (order : IterationOrder known)
    (target : Option NodeId) (chosen : PeerId) :
    resolvePeer selfNodeId target (.peers known) order = .ok chosen ↔
      cluster.IsRoute selfNodeId target chosen := by
  have hmem : ∀ entry, entry ∈ order.entries ↔
      entry ∈ cluster.members ∧ entry.2.nodeId ≠ selfNodeId := by
    intro entry
    exact (order.mem_iff entry.1 entry.2).trans (hpeers entry.1 entry.2)
  rw [resolvePeer_peers_eq_ok_iff]
  cases target with
  | some id =>
    rw [pickPeer, Option.map_eq_some_iff]
    constructor
    · rintro ⟨entry, hfound, rfl⟩
      obtain ⟨hmember, hother⟩ := (hmem entry).mp (List.mem_of_find?_eq_some hfound)
      have hid : (entry.2.nodeId == id) = true := by simpa using List.find?_some hfound
      exact ⟨entry.2, hmember, eq_of_beq hid, hother⟩
    · rintro ⟨descriptor, hmember, hid, hother⟩
      cases hfound : order.entries.find? fun entry ↦ entry.2.nodeId == id with
      | none =>
        have hnone := List.find?_eq_none.mp hfound _ ((hmem (chosen, descriptor)).mpr ⟨hmember, hother⟩)
        exact absurd (beq_iff_eq.mpr hid) hnone
      | some entry =>
        have hentryId : (entry.2.nodeId == id) = true := by simpa using List.find?_some hfound
        have hsame : entry.2.nodeId = descriptor.nodeId := (eq_of_beq hentryId).trans hid.symm
        have hentry := ((hmem entry).mp (List.mem_of_find?_eq_some hfound)).1
        exact ⟨entry, rfl, congrArg Prod.fst (cluster.nodeIds hentry hmember hsame)⟩
  | none =>
    have hdistinct : ∀ left ∈ order.entries.filter (fun entry ↦ isCandidate selfNodeId entry.2),
        ∀ right ∈ order.entries.filter (fun entry ↦ isCandidate selfNodeId entry.2),
          left.2.raftId = right.2.raftId → left = right := by
      intro left hleft right hright hsame
      exact cluster.raftIds ((hmem left).mp (List.mem_of_mem_filter hleft)).1
        ((hmem right).mp (List.mem_of_mem_filter hright)).1 hsame
    simp only [pickPeer, Option.map_eq_some_iff, head?_sortByRaftId_eq_some_iff hdistinct,
      List.mem_filter, hmem]
    constructor
    · rintro ⟨entry, ⟨⟨⟨hmember, -⟩, hcandidate⟩, hleast⟩, rfl⟩
      exact ⟨entry.2, hmember, hcandidate, fun other hother hable ↦
        hleast other ⟨⟨hother, ne_of_isCandidate hable⟩, hable⟩⟩
    · rintro ⟨descriptor, hmember, hcandidate, hleast⟩
      exact ⟨(chosen, descriptor), ⟨⟨⟨hmember, ne_of_isCandidate hcandidate⟩, hcandidate⟩,
        fun other hother ↦ hleast other hother.1.1 hother.2⟩, rfl⟩

/-- Both catalogs resolve a target to the same peer, or neither resolves it. Without a target it
is the peer of the capable node, other than the caller, with the smallest raft id. -/
theorem resolvePeer_raft_iff_resolvePeer_peers {state : ClusterState} {registry : RaftIdRegistry}
    {known : HashMap PeerId NodeDescriptor}
    (hraft : cluster.SeenByRaft selfNodeId state registry)
    (hpeers : cluster.SeenByPeers selfNodeId known) (raftOrder : IterationOrder state.nodes)
    (peersOrder : IterationOrder known) (target : Option NodeId) (chosen : PeerId) :
    (resolvePeer selfNodeId target (.raft state registry) raftOrder = .ok chosen ↔
      resolvePeer selfNodeId target (.peers known) peersOrder = .ok chosen) ∧
      (resolvePeer selfNodeId none (.raft state registry) raftOrder = .ok chosen ↔
        ∃ descriptor raftId, (chosen, descriptor) ∈ cluster.members ∧
          descriptor.capabilities.projectSandbox = true ∧ descriptor.nodeId ≠ selfNodeId ∧
          descriptor.raftId = some raftId ∧
          ∀ other ∈ cluster.members, other.2.capabilities.projectSandbox = true →
            other.2.nodeId ≠ selfNodeId →
              ∀ otherId, other.2.raftId = some otherId → raftId ≤ otherId) := by
  refine ⟨(hraft.resolvePeer_eq_ok_iff raftOrder target chosen).trans
    (hpeers.resolvePeer_eq_ok_iff peersOrder target chosen).symm, ?_⟩
  rw [hraft.resolvePeer_eq_ok_iff raftOrder none chosen]
  simp only [IsRoute, isCandidate, Bool.and_eq_true, bne_iff_ne]
  constructor
  · rintro ⟨descriptor, hmem, ⟨hable, hother⟩, hleast⟩
    obtain ⟨raftId, hraftId⟩ := present_of_mem hmem
    refine ⟨descriptor, raftId, hmem, hable, hother, hraftId, ?_⟩
    intro other hotherMem hotherAble hotherNode otherId hotherId
    have hle := hleast other hotherMem ⟨hotherAble, hotherNode⟩
    rw [hraftId, hotherId] at hle
    exact of_decide_eq_true hle
  · rintro ⟨descriptor, raftId, hmem, hable, hother, hraftId, hleast⟩
    refine ⟨descriptor, hmem, ⟨hable, hother⟩, ?_⟩
    intro other hotherMem ⟨hotherAble, hotherNode⟩
    obtain ⟨otherId, hotherId⟩ := Option.isSome_iff_exists.mp (cluster.present other hotherMem)
    rw [hraftId, hotherId]
    exact decide_eq_true (hleast other hotherMem hotherAble hotherNode otherId hotherId)

end Cluster

/-- A capable node of a raft cluster. -/
def executor (nodeId : NodeId) (raftId : ℕ) : NodeDescriptor where
  nodeId := nodeId
  nodeType := .heavy
  os := .linux
  capabilities := { projectSandbox := true }
  advertisedAddresses := []
  currentAssignedRoles := []
  startedAt := ⟨0⟩
  raftId := some raftId

/-- A caller and two executors, the second of which has the smaller raft id. -/
def threeMembers : List (PeerId × NodeDescriptor) :=
  [(⟨[1]⟩, executor 1 5), (⟨[2]⟩, executor 2 9), (⟨[3]⟩, executor 3 2)]

def threeNodes : Cluster where
  members := { member | member ∈ threeMembers }
  nodeIds := List.inj_on_of_nodup_map (by decide)
  raftIds := List.inj_on_of_nodup_map (by decide)
  peerIds := List.inj_on_of_nodup_map (by decide)
  present := by
    have hpresent : ∀ member ∈ threeMembers, member.2.raftId.isSome := by decide
    exact hpresent

/-- The raft registry of the caller. -/
def executorRegistry : RaftIdRegistry := HashMap.ofEntries [(9, ⟨[2]⟩), (2, ⟨[3]⟩)]

/-- An order in which the caller can read its replicated state. -/
def stateOrder : IterationOrder (HashMap.ofEntries (threeMembers.map fun member ↦
    (member.2.nodeId, member.2))) :=
  .ofEntries _ (by decide)

/-- An order in which the caller can read the descriptors of its peers. -/
def peersOrder : IterationOrder (HashMap.ofEntries threeMembers.tail) :=
  .ofEntries _ (by decide)

theorem resolvePeer_raft_iff_resolvePeer_peers_threeNodes :
    resolvePeer 1 none (.raft { nodes := _ } executorRegistry) stateOrder = .ok ⟨[3]⟩ ∧
      resolvePeer 1 none (.peers _) peersOrder = .ok ⟨[3]⟩ := by
  have hraft : threeNodes.SeenByRaft 1 { nodes := HashMap.ofEntries (threeMembers.map fun member ↦
      (member.2.nodeId, member.2)) } executorRegistry := by
    constructor
    · intro nodeId descriptor
      rw [← stateOrder.mem_iff, stateOrder, IterationOrder.ofEntries, List.mem_map]
      constructor
      · rintro ⟨⟨peer, member⟩, hmem, heq⟩
        cases heq
        exact ⟨rfl, peer, hmem⟩
      · rintro ⟨rfl, peer, hmem⟩
        exact ⟨(peer, descriptor), hmem, rfl⟩
    · intro peer descriptor raftId hmem hraftId
      have hregistered : ∀ member ∈ threeMembers,
          executorRegistry.lookup (member.2.raftId.getD 0) =
            if member.2.nodeId = 1 then none else some member.1 := by decide
      have hlookup := hregistered (peer, descriptor) hmem
      rwa [hraftId, Option.getD_some] at hlookup
  have hpeers : threeNodes.SeenByPeers 1 (HashMap.ofEntries threeMembers.tail) := by
    have hothers : ∀ member ∈ threeMembers.tail, member ∈ threeMembers ∧ member.2.nodeId ≠ 1 := by
      decide
    have hall : ∀ member ∈ threeMembers, member.2.nodeId ≠ 1 → member ∈ threeMembers.tail := by
      decide
    intro peer descriptor
    rw [← peersOrder.mem_iff]
    exact ⟨hothers (peer, descriptor), fun hmember ↦ hall (peer, descriptor) hmember.1 hmember.2⟩
  have hleast : ∀ other ∈ threeMembers, other.2.capabilities.projectSandbox = true →
      other.2.nodeId ≠ 1 → 2 ≤ other.2.raftId.getD 0 := by decide
  have hmember : ((⟨[3]⟩ : PeerId), executor 3 2) ∈ threeMembers := by decide
  have hagree := Cluster.resolvePeer_raft_iff_resolvePeer_peers hraft hpeers stateOrder peersOrder
    none ⟨[3]⟩
  have hchosen := hagree.2.mpr ⟨executor 3 2, 2, hmember, rfl, by decide, rfl,
    fun other hmem hable hother otherId hotherId ↦ by
      have hle := hleast other hmem hable hother
      rwa [hotherId, Option.getD_some] at hle⟩
  exact ⟨hchosen, hagree.1.mp hchosen⟩

end EdgeOrchestrator.Node

import EdgeOrchestrator.Node.Routing

/-!
# Routing to capable nodes

A node that cannot run projects advertises so, and a target that is found automatically is one that
can. A target that is named is looked up by its id only, and the raft registry leads from a raft id
to the last peer that claimed it, whichever node that is. So tasks go to capable nodes as long as
the node that is named is capable, and the registry leads to it or to another capable node.
-/

namespace EdgeOrchestrator.Node

open Raft

/-- The peer belongs to a node other than the caller whose descriptor in the catalog says that it
can run projects. Whose peer it is, the replicated state does not say. -/
def IsCapablePeer (nodeOf : PeerId → NodeId) (selfNodeId : NodeId) : Catalog → PeerId → Prop
  | .raft state _, peer => nodeOf peer ≠ selfNodeId ∧ ∃ descriptor,
      state.nodes.lookup (nodeOf peer) = some descriptor ∧
        descriptor.capabilities.projectSandbox = true
  | .peers known, peer => ∃ descriptor, known.lookup peer = some descriptor ∧
      descriptor.capabilities.projectSandbox = true ∧ descriptor.nodeId ≠ selfNodeId

/-- Whatever peer a target is resolved to, it belongs to a capable node. -/
def ResolvesToCapable (nodeOf : PeerId → NodeId) (selfNodeId : NodeId) (target : Option NodeId)
    (catalog : Catalog) : Prop :=
  ∀ (order : catalog.Order) (peer : PeerId),
    resolvePeer selfNodeId target catalog order = .ok peer →
      IsCapablePeer nodeOf selfNodeId catalog peer

/-- The raft id that is asked for: that of the node that is named, or the smallest one of a node
that can run projects. Such a node without a raft id comes before all others, and then none is. -/
def AskedRaftId (selfNodeId : NodeId) (state : ClusterState) : Option NodeId → ℕ → Prop
  | some id, raftId => ∃ descriptor,
      state.nodes.lookup id = some descriptor ∧ descriptor.raftId = some raftId
  | none, raftId =>
      (∃ id descriptor, state.nodes.lookup id = some descriptor ∧
        isCandidate selfNodeId descriptor ∧ descriptor.raftId = some raftId) ∧
      ∀ id descriptor, state.nodes.lookup id = some descriptor → isCandidate selfNodeId descriptor →
        ∃ other, descriptor.raftId = some other ∧ raftId ≤ other

/-- A node that is named can run projects and is another one than the caller, and where the registry
leads from its raft id to the peer of a different node, that node is capable. Without a target the
registry leads from the raft id that is asked for to the peer of a capable node. -/
def LeadsToCapable (nodeOf : PeerId → NodeId) (selfNodeId : NodeId) :
    Option NodeId → Catalog → Prop
  | some id, .raft state registry => ∀ descriptor raftId peer,
      state.nodes.lookup id = some descriptor → descriptor.raftId = some raftId →
        registry.lookup raftId = some peer →
          if nodeOf peer = id then
            descriptor.capabilities.projectSandbox = true ∧ id ≠ selfNodeId
          else IsCapablePeer nodeOf selfNodeId (.raft state registry) peer
  | none, .raft state registry => ∀ raftId peer, AskedRaftId selfNodeId state none raftId →
      registry.lookup raftId = some peer →
        IsCapablePeer nodeOf selfNodeId (.raft state registry) peer
  | some id, .peers known => ∀ peer descriptor, known.lookup peer = some descriptor →
      descriptor.nodeId = id → descriptor.capabilities.projectSandbox = true ∧ id ≠ selfNodeId
  | none, .peers _ => True

section Resolve

variable {nodeOf : PeerId → NodeId} {selfNodeId : NodeId}

theorem isCandidate_iff {descriptor : NodeDescriptor} :
    isCandidate selfNodeId descriptor ↔
      descriptor.capabilities.projectSandbox = true ∧ descriptor.nodeId ≠ selfNodeId := by
  rw [isCandidate, Bool.and_eq_true, bne_iff_ne]

theorem registeredPeer_eq_ok_iff {registry : RaftIdRegistry} {descriptor : NodeDescriptor}
    {peer : PeerId} :
    registeredPeer registry descriptor = .ok peer ↔
      ∃ raftId, descriptor.raftId = some raftId ∧ registry.lookup raftId = some peer := by
  rw [registeredPeer]
  cases descriptor.raftId with
  | none => simp
  | some raftId => cases hlookup : registry.lookup raftId <;> simp [hlookup]

/-- The descriptor found without a target has the smallest raft id. -/
theorem askedRaftId_none_iff (state : ClusterState) (order : IterationOrder state.nodes)
    (raftId : ℕ) :
    AskedRaftId selfNodeId state none raftId ↔ ∃ descriptor,
      targetNode selfNodeId state order none = .ok descriptor ∧
        descriptor.raftId = some raftId := by
  have hmem : ∀ descriptor, descriptor ∈ (order.entries.map Prod.snd).filter
      (isCandidate selfNodeId) ↔ ∃ id, state.nodes.lookup id = some descriptor ∧
        isCandidate selfNodeId descriptor := by
    intro descriptor
    rw [List.mem_filter, List.mem_map]
    constructor
    · rintro ⟨⟨entry, hentry, rfl⟩, hcandidate⟩
      exact ⟨entry.1, (order.mem_iff entry.1 entry.2).mp hentry, hcandidate⟩
    · rintro ⟨id, hlookup, hcandidate⟩
      exact ⟨⟨(id, descriptor), (order.mem_iff id descriptor).mpr hlookup, rfl⟩, hcandidate⟩
  simp only [targetNode_none_eq_ok_iff]
  constructor
  · rintro ⟨⟨id, descriptor, hlookup, hcandidate, hraftId⟩, hleast⟩
    have hin := (hmem descriptor).mpr ⟨id, hlookup, hcandidate⟩
    cases hhead : (sortByRaftId (·.raftId) ((order.entries.map Prod.snd).filter
        (isCandidate selfNodeId))).head? with
    | none =>
      rw [List.head?_eq_none_iff] at hhead
      have hsorted : descriptor ∈ sortByRaftId (·.raftId) ((order.entries.map Prod.snd).filter
          (isCandidate selfNodeId)) := List.mem_mergeSort.mpr hin
      rw [hhead] at hsorted
      cases hsorted
    | some first =>
      obtain ⟨hfirst, hbefore⟩ := head?_sortByRaftId_of_mem hhead
      obtain ⟨firstId, hfound, hfirstCandidate⟩ := (hmem first).mp hfirst
      obtain ⟨other, hother, hle⟩ := hleast firstId first hfound hfirstCandidate
      have hge := hbefore descriptor hin
      rw [hother, hraftId, raftIdLe, decide_eq_true_iff] at hge
      exact ⟨first, rfl, by rw [hother, Nat.le_antisymm hge hle]⟩
  · rintro ⟨first, hhead, hraftId⟩
    obtain ⟨hfirst, hbefore⟩ := head?_sortByRaftId_of_mem hhead
    obtain ⟨firstId, hfound, hcandidate⟩ := (hmem first).mp hfirst
    refine ⟨⟨firstId, first, hfound, hcandidate, hraftId⟩, fun id descriptor hlookup hable ↦ ?_⟩
    have hle := hbefore descriptor ((hmem descriptor).mpr ⟨id, hlookup, hable⟩)
    rw [hraftId] at hle
    cases hother : descriptor.raftId with
    | none => simp [hother, raftIdLe] at hle
    | some other =>
      rw [hother, raftIdLe, decide_eq_true_iff] at hle
      exact ⟨other, rfl, hle⟩

/-- In the replicated state a target is resolved to the peer of the raft id that is asked for. -/
theorem resolvePeer_raft_iff_asked {state : ClusterState} {registry : RaftIdRegistry}
    (order : IterationOrder state.nodes) (target : Option NodeId) (peer : PeerId) :
    resolvePeer selfNodeId target (.raft state registry) order = .ok peer ↔
      ∃ raftId, AskedRaftId selfNodeId state target raftId ∧ registry.lookup raftId = some peer := by
  have hasked : ∀ raftId, AskedRaftId selfNodeId state target raftId ↔ ∃ descriptor,
      targetNode selfNodeId state order target = .ok descriptor ∧
        descriptor.raftId = some raftId := by
    intro raftId
    cases target with
    | none => exact askedRaftId_none_iff state order raftId
    | some id => simp only [AskedRaftId, targetNode_some_eq_ok_iff]
  simp only [resolvePeer_raft_eq_ok_iff, registeredPeer_eq_ok_iff, hasked]
  constructor
  · rintro ⟨descriptor, htarget, raftId, hraftId, hlookup⟩
    exact ⟨raftId, ⟨descriptor, htarget, hraftId⟩, hlookup⟩
  · rintro ⟨raftId, ⟨descriptor, htarget, hraftId⟩, hlookup⟩
    exact ⟨descriptor, htarget, raftId, hraftId, hlookup⟩

/-- A target that is named is resolved, in some order of the descriptors, to any peer with the id,
and to no other. -/
theorem exists_resolvePeer_peers_iff {known : HashMap PeerId NodeDescriptor} (id : NodeId)
    (peer : PeerId) :
    (∃ order : IterationOrder known,
        resolvePeer selfNodeId (some id) (.peers known) order = .ok peer) ↔
      ∃ descriptor, known.lookup peer = some descriptor ∧ descriptor.nodeId = id := by
  constructor
  · intro hsome
    obtain ⟨order, hok⟩ := hsome
    obtain ⟨entry, hfound, hpeer⟩ :=
      Option.map_eq_some_iff.mp (resolvePeer_peers_eq_ok_iff.mp hok)
    have hid : (entry.2.nodeId == id) = true := by simpa using List.find?_some hfound
    rw [← hpeer]
    exact ⟨entry.2, (order.mem_iff entry.1 entry.2).mp (List.mem_of_find?_eq_some hfound),
      eq_of_beq hid⟩
  · intro hnames
    obtain ⟨descriptor, hlookup, hid⟩ := hnames
    obtain ⟨order, rest, hentries⟩ := IterationOrder.exists_beginning_with hlookup
    refine ⟨order, resolvePeer_peers_eq_ok_iff.mpr ?_⟩
    simp only [pickPeer, hentries, List.find?_cons, hid, beq_self_eq_true, Option.map_some]

/-- Without a target the peer is one whose descriptor says that it can run projects. -/
theorem isCapablePeer_of_resolvePeer_none {known : HashMap PeerId NodeDescriptor}
    {order : IterationOrder known} {peer : PeerId}
    (hresolve : resolvePeer selfNodeId none (.peers known) order = .ok peer) :
    IsCapablePeer nodeOf selfNodeId (.peers known) peer := by
  obtain ⟨entry, hhead, rfl⟩ :=
    Option.map_eq_some_iff.mp (resolvePeer_peers_eq_ok_iff.mp hresolve)
  have hmem := (head?_sortByRaftId_of_mem hhead).1
  rw [List.mem_filter] at hmem
  exact ⟨entry.2, (order.mem_iff entry.1 entry.2).mp hmem.1, isCandidate_iff.mp hmem.2⟩

/-- The peer of a node that is named is a capable one exactly when the node is. -/
theorem isCapablePeer_iff_of_named {state : ClusterState} {registry : RaftIdRegistry} {id : NodeId}
    {descriptor : NodeDescriptor} {peer : PeerId} (hfound : state.nodes.lookup id = some descriptor)
    (hnode : nodeOf peer = id) :
    IsCapablePeer nodeOf selfNodeId (.raft state registry) peer ↔
      descriptor.capabilities.projectSandbox = true ∧ id ≠ selfNodeId := by
  rw [IsCapablePeer, hnode, hfound]
  constructor
  · rintro ⟨hother, found, hsame, hable⟩
    exact ⟨Option.some.inj hsame ▸ hable, hother⟩
  · rintro ⟨hable, hother⟩
    exact ⟨hother, descriptor, rfl, hable⟩

/-- In the replicated state the condition is about the peers of the raft id that is asked for. -/
theorem leadsToCapable_raft_iff_asked {state : ClusterState} {registry : RaftIdRegistry}
    (target : Option NodeId) :
    LeadsToCapable nodeOf selfNodeId target (.raft state registry) ↔
      ∀ raftId peer, AskedRaftId selfNodeId state target raftId →
        registry.lookup raftId = some peer →
          IsCapablePeer nodeOf selfNodeId (.raft state registry) peer := by
  cases target with
  | none => exact Iff.rfl
  | some id =>
    have hstep : ∀ {descriptor : NodeDescriptor} {peer : PeerId},
        state.nodes.lookup id = some descriptor →
          ((if nodeOf peer = id then
              descriptor.capabilities.projectSandbox = true ∧ id ≠ selfNodeId
            else IsCapablePeer nodeOf selfNodeId (.raft state registry) peer) ↔
            IsCapablePeer nodeOf selfNodeId (.raft state registry) peer) := by
      intro descriptor peer hfound
      split_ifs with hnode
      · exact (isCapablePeer_iff_of_named hfound hnode).symm
      · exact Iff.rfl
    constructor
    · rintro hleads raftId peer ⟨descriptor, hfound, hraftId⟩ hlookup
      exact (hstep hfound).mp (hleads descriptor raftId peer hfound hraftId hlookup)
    · intro hleads descriptor raftId peer hfound hraftId hlookup
      exact (hstep hfound).mpr (hleads raftId peer ⟨descriptor, hfound, hraftId⟩ hlookup)

/-- Tasks go to capable nodes exactly when the node that is named is capable, and the registry leads
to no other node or to a capable one. -/
theorem resolvesToCapable_iff (nodeOf : PeerId → NodeId) (selfNodeId : NodeId)
    (target : Option NodeId) (catalog : Catalog) :
    ResolvesToCapable nodeOf selfNodeId target catalog ↔
      LeadsToCapable nodeOf selfNodeId target catalog := by
  cases catalog with
  | raft state registry =>
    rw [leadsToCapable_raft_iff_asked]
    constructor
    · intro hresolves raftId peer hasked hlookup
      obtain ⟨order⟩ := IterationOrder.nonempty state.nodes
      exact hresolves order peer
        ((resolvePeer_raft_iff_asked order target peer).mpr ⟨raftId, hasked, hlookup⟩)
    · intro hleads order peer hok
      obtain ⟨raftId, hasked, hlookup⟩ := (resolvePeer_raft_iff_asked order target peer).mp hok
      exact hleads raftId peer hasked hlookup
  | peers known =>
    cases target with
    | none => exact iff_of_true (fun order peer ↦ isCapablePeer_of_resolvePeer_none) trivial
    | some id =>
      constructor
      · rintro hresolves peer descriptor hlookup rfl
        obtain ⟨order, hok⟩ := (exists_resolvePeer_peers_iff descriptor.nodeId peer).mpr
          ⟨descriptor, hlookup, rfl⟩
        obtain ⟨found, hfound, hcapable⟩ := hresolves order peer hok
        rw [hlookup, Option.some.injEq] at hfound
        rwa [← hfound] at hcapable
      · intro hleads order peer hok
        obtain ⟨descriptor, hlookup, hid⟩ := (exists_resolvePeer_peers_iff id peer).mp ⟨order, hok⟩
        obtain ⟨hable, hother⟩ := hleads peer descriptor hlookup hid
        exact ⟨descriptor, hlookup, hable, hid ▸ hother⟩

/-- A registry that leads from the raft id of a node to the peer of that node leads to a capable one
when no target is named, and to the node itself when one is. -/
theorem leadsToCapable_raft_iff {state : ClusterState} {registry : RaftIdRegistry}
    (htrue : ∀ id descriptor raftId peer, state.nodes.lookup id = some descriptor →
      descriptor.raftId = some raftId → registry.lookup raftId = some peer → nodeOf peer = id)
    (hkeys : ∀ id descriptor, state.nodes.lookup id = some descriptor → descriptor.nodeId = id)
    (target : Option NodeId) :
    LeadsToCapable nodeOf selfNodeId target (.raft state registry) ↔
      ∀ id, target = some id → ∀ descriptor raftId, state.nodes.lookup id = some descriptor →
        descriptor.raftId = some raftId → raftId ∈ registry →
          isCandidate selfNodeId descriptor := by
  cases target with
  | none =>
    refine iff_of_true (fun raftId peer hasked hlookup ↦ ?_) nofun
    obtain ⟨⟨id, descriptor, hfound, hcandidate, hraftId⟩, -⟩ := hasked
    obtain ⟨hable, hother⟩ := isCandidate_iff.mp hcandidate
    have hnode := htrue id descriptor raftId peer hfound hraftId hlookup
    exact (isCapablePeer_iff_of_named hfound hnode).mpr
      ⟨hable, hkeys id descriptor hfound ▸ hother⟩
  | some id =>
    constructor
    · rintro hleads named hnamed descriptor raftId hfound hraftId hregistered
      obtain rfl := Option.some.inj hnamed
      obtain ⟨peer, hpeer⟩ := Option.isSome_iff_exists.mp (Finmap.lookup_isSome.mpr hregistered)
      have hcapable := hleads descriptor raftId peer hfound hraftId hpeer
      rw [if_pos (htrue id descriptor raftId peer hfound hraftId hpeer)] at hcapable
      exact isCandidate_iff.mpr
        ⟨hcapable.1, (hkeys id descriptor hfound).symm ▸ hcapable.2⟩
    · intro hnamed descriptor raftId peer hfound hraftId hpeer
      have hregistered : raftId ∈ registry := by
        rw [← Finmap.lookup_isSome, hpeer]
        rfl
      obtain ⟨hable, hother⟩ :=
        isCandidate_iff.mp (hnamed id rfl descriptor raftId hfound hraftId hregistered)
      rw [if_pos (htrue id descriptor raftId peer hfound hraftId hpeer)]
      exact ⟨hable, hkeys id descriptor hfound ▸ hother⟩

end Resolve

/-- A node without a sandbox gets the task that names it. -/
theorem incapable_node_is_named :
    ¬ ∀ (nodeOf : PeerId → NodeId) (selfNodeId : NodeId) (target : Option NodeId)
      (catalog : Catalog), ResolvesToCapable nodeOf selfNodeId target catalog := by
  intro hgeneral
  let light : NodeDescriptor := { executor 2 9 with capabilities := {} }
  let known : HashMap PeerId NodeDescriptor := HashMap.ofEntries [(⟨[2]⟩, light)]
  have hlight : known.lookup ⟨[2]⟩ = some light := by decide
  obtain ⟨order, hok⟩ := (@exists_resolvePeer_peers_iff 1 known 2 ⟨[2]⟩).mpr ⟨light, hlight, rfl⟩
  obtain ⟨descriptor, hlookup, hable, -⟩ :=
    hgeneral (fun _ ↦ 2) 1 (some 2) (.peers known) order ⟨[2]⟩ hok
  rw [hlight, Option.some_inj] at hlookup
  rw [← hlookup] at hable
  exact absurd hable (by decide)

end EdgeOrchestrator.Node

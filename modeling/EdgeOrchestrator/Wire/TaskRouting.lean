import EdgeOrchestrator.Node.Bootstrap
import EdgeOrchestrator.Node.CapableNodes
import EdgeOrchestrator.Orchestration.Registration
import EdgeOrchestrator.Raft.Replicas
import EdgeOrchestrator.Wire.Mesh

/-!
# Where tasks without a target go

Every node was started from its configuration, and announces what it was started with: to its peers,
and as a voter to the replicated state. A task for which no target is named goes to another node
that was configured to run projects and has an executor, whether the caller reads the replicated
state or the descriptors of its peers. A light client with such a peer finds one once the mesh is
quiet.
-/

namespace EdgeOrchestrator.Wire.TaskRouting

open Execution Mesh Node Orchestration P2P Raft Serde Storage

section Announcements

variable (text : SerdeReader) (forms : TextForms)

/-- The crates read back what a node writes about itself. -/
structure AnnouncementReadable (descriptor : NodeDescriptor) : Prop where
  nodeId : forms.parseUuid descriptor.nodeId.display = some descriptor.nodeId
  startedAt : forms.parseTime (forms.printTime descriptor.startedAt) = some descriptor.startedAt
  requestText : text.ReadsBack (descriptorRequest.encode ⟨descriptor.nodeId.display⟩)
  descriptorText : text.ReadsBack ((nodeDescriptor forms).encode descriptor)
  answerText : text.ReadsBack (descriptorResponse.encode (fromDescriptor forms descriptor))

variable {text forms}

/-- The numbers of a configuration fit the fields that announce them, and no address is
announced. -/
theorem valid_toDescriptor (config : NodeConfig) (readers : ConfigReaders) (newNodeId : NodeId)
    (os : OsType) (now : DateTime)
    (hnodeId : let descriptor := config.toDescriptor readers newNodeId os now
      forms.parseUuid descriptor.nodeId.display = some descriptor.nodeId)
    (hnow : forms.parseTime (forms.printTime now) = some now) :
    (nodeDescriptor forms).Valid (config.toDescriptor readers newNodeId os now) := by
  have hcapabilities : capabilities.Valid
      (config.toDescriptor readers newNodeId os now).capabilities :=
    ⟨trivial, trivial, fun _ _ ↦ trivial, config.capabilities.maxMemoryMb.toNat_lt,
      config.capabilities.cpuCores.toNat_lt, trivial, trivial⟩
  have haddresses : (vec (multiaddr forms)).Valid [] := fun _ hmem ↦ by cases hmem
  have hraftId : (option (unsigned 64)).Valid (config.raftId.map UInt64.toNat) := by
    intro held hheld
    obtain ⟨raftId, -, rfl⟩ := Option.map_eq_some_iff.mp hheld
    exact ⟨raftId.toNat_lt, nofun⟩
  exact ⟨hnodeId, trivial, trivial, hcapabilities, haddresses, fun _ _ ↦ trivial, hnow, hraftId,
    trivial⟩

/-- Taking the sandbox back keeps a descriptor valid. -/
theorem valid_announced {hasExecutor : Bool} {descriptor : NodeDescriptor}
    (hvalid : (nodeDescriptor forms).Valid descriptor) :
    (nodeDescriptor forms).Valid (announced hasExecutor descriptor) := by
  unfold announced
  split
  · obtain ⟨hnodeId, htype, hos, hcapabilities, hrest⟩ := hvalid
    obtain ⟨hstorage, hgpu, hruntimes, hmemory, hcores, -, -⟩ := hcapabilities
    exact ⟨hnodeId, htype, hos,
      ⟨hstorage, hgpu, hruntimes, hmemory, hcores, trivial, trivial⟩, hrest⟩
  · exact hvalid

theorem nodeId_announced (hasExecutor : Bool) (descriptor : NodeDescriptor) :
    (announced hasExecutor descriptor).nodeId = descriptor.nodeId := by
  unfold announced
  split <;> rfl

theorem startedAt_announced (hasExecutor : Bool) (descriptor : NodeDescriptor) :
    (announced hasExecutor descriptor).startedAt = descriptor.startedAt := by
  unfold announced
  split <;> rfl

/-- Peers can read what a started node announces. -/
theorem descriptorReadable_of_bootstrap {host : Host} {options : StartOptions} {node : StartedNode}
    (hstarted : bootstrap host options = .ok node)
    (hannounced : AnnouncementReadable text forms node.descriptor) :
    DescriptorReadable text forms node.descriptor where
  valid := by
    obtain ⟨loaded, peerId, listenAddresses, -, -, -, -, -, rfl, -⟩ :=
      bootstrap_eq_ok_iff.mp hstarted
    have hnodeId := hannounced.nodeId
    have hstartedAt := hannounced.startedAt
    simp only [startedNode, nodeId_announced, startedAt_announced] at hnodeId hstartedAt
    exact valid_announced (valid_toDescriptor _ _ _ _ _ hnodeId hstartedAt)
  readsBack := hannounced.descriptorText
  answerReadsBack := hannounced.answerText

end Announcements

/-! ## Nodes that run projects -/

/-- The node was configured to run projects, and has an executor. -/
def RunsProjects (host : Host) (options : StartOptions) (node : StartedNode) : Prop :=
  node.hasExecutor = true ∧ ∃ loaded,
    NodeConfig.load host.readers options.configPath = .ok loaded ∧
      loaded.capabilities.projectSandbox = true

/-- A started node announces a sandbox exactly when it runs projects. -/
theorem projectSandbox_iff_runsProjects {host : Host} {options : StartOptions} {node : StartedNode}
    (hstarted : bootstrap host options = .ok node) :
    node.descriptor.capabilities.projectSandbox = true ↔ RunsProjects host options node := by
  obtain ⟨loaded, peerId, listenAddresses, hload, -, -, -, -, rfl, -⟩ :=
    bootstrap_eq_ok_iff.mp hstarted
  rw [projectSandbox_startedNode, Bool.and_eq_true]
  constructor
  · rintro ⟨hexecutor, hsandbox⟩
    exact ⟨hexecutor, loaded, hload, hsandbox⟩
  · rintro ⟨hexecutor, other, hother, hsandbox⟩
    obtain rfl : loaded = other := Except.ok.inj (hload.symm.trans hother)
    exact ⟨hexecutor, hsandbox⟩

/-! ## What a node can know -/

section Knowledge

variable {primitives : Primitives} {text : SerdeReader} {forms : TextForms} {voters : List ℕ}

open CommittedReplay Replicas in
/-- Every node of the replicated state was registered by a proposal. -/
theorem submitted_of_lookup_nodes (stores : ℕ → LocalObjectStore)
    (transports : ℕ → Libp2pRaftTransport) {steps : List ClusterStep} {cluster : Replicas.Cluster}
    (hhandled : ∀ label ∈ steps, label.Handled text forms)
    (hrun : run (Replicas.step primitives text forms voters) (firstStart voters stores transports)
      steps = some cluster)
    {replica : ℕ} {nodeId : NodeId} {descriptor : NodeDescriptor}
    (hlookup : (cluster.nodes replica).state.nodes.lookup nodeId = some descriptor) :
    Submitted steps (.registerNode descriptor) := by
  have hreplicating : Replicating text forms (Submitted steps) cluster :=
    replicating_of_run (replicating_firstStart _ stores transports) hhandled
      (fun _ hsubmitted ↦ hsubmitted) hrun
  have hheld := hreplicating.replays.held_eq replica
  have hreplica : ClusterState.SameReplica (cluster.nodes replica).state
      (ClusterState.applyAll {} (proposalsOf (Proposal.decode text forms)
        (cluster.committed.take (cluster.handedOut replica)))) := by
    rw [Function.comp_apply] at hheld
    rw [hheld]
    exact applyCommitted_sameReplica _ (ClusterState.SameReplica.refl {}) _
  rw [hreplica.1] at hlookup
  obtain ⟨⟨before, after, hlog, -⟩, -⟩ := (lookup_nodes_applyAll_iff _ _ _).mp hlookup
  have hmem : .registerNode descriptor ∈ proposalsOf (Proposal.decode text forms)
      (cluster.committed.take (cluster.handedOut replica)) := by
    rw [hlog]
    exact List.mem_append_right _ List.mem_cons_self
  rw [proposalsOf_eq_reduceOption, List.reduceOption_mem_iff] at hmem
  apply (map_data_committed hreplicating).2
  rw [List.map_take] at hmem
  exact List.mem_of_mem_take hmem

variable {descriptorOf : PeerId → NodeDescriptor}

/-- The peer that is found without a target is a node that announces a sandbox, and another node
than the caller. -/
theorem candidate_of_resolvePeer {monitor : EventMonitor} {state : ClusterState}
    {selfNodeId : NodeId} {catalog : Catalog} {peer : PeerId}
    (hcatalog : catalog = .peers monitor.knownPeers ∨
      catalog = .raft state monitor.raftRegistry)
    (hknowing : Knowing (Announces forms descriptorOf) monitor)
    (hregistered : ∀ nodeId descriptor, state.nodes.lookup nodeId = some descriptor →
      ∃ peerId, descriptor = descriptorOf peerId)
    (hraftIds : ∀ one other raftId, (descriptorOf one).raftId = some raftId →
      (descriptorOf other).raftId = some raftId → one = other)
    (order : catalog.Order) (hresolve : resolvePeer selfNodeId none catalog order = .ok peer) :
    isCandidate selfNodeId (descriptorOf peer) := by
  rcases hcatalog with rfl | rfl
  · have hpeer : IsCapablePeer (fun _ ↦ selfNodeId) selfNodeId (.peers monitor.knownPeers) peer :=
      isCapablePeer_of_resolvePeer_none hresolve
    obtain ⟨descriptor, hlookup, hcapable⟩ := hpeer
    rw [(hknowing.known peer descriptor hlookup).1] at hcapable
    exact isCandidate_iff.mpr hcapable
  · obtain ⟨raftId, ⟨⟨nodeId, descriptor, hlookup, hcandidate, hraftId⟩, -⟩, hclaimant⟩ :=
      (resolvePeer_raft_iff_asked order none peer).mp hresolve
    obtain ⟨peerId, rfl⟩ := hregistered nodeId descriptor hlookup
    obtain ⟨claimed, hannounces, hclaimed⟩ := hknowing.claimed raftId peer hclaimant
    rw [hannounces.1] at hclaimed
    rwa [hraftIds peerId peer raftId hraftId hclaimed] at hcandidate

/-- A light client that knows a candidate finds one. -/
theorem exists_resolvePeer_none {selfNodeId : NodeId} {known : HashMap PeerId NodeDescriptor}
    (order : IterationOrder known) {peer : PeerId} {descriptor : NodeDescriptor}
    (hlookup : known.lookup peer = some descriptor)
    (hcandidate : isCandidate selfNodeId descriptor) :
    ∃ chosen, resolvePeer selfNodeId none (.peers known) order = .ok chosen := by
  have hmem : (peer, descriptor) ∈
      order.entries.filter fun entry ↦ isCandidate selfNodeId entry.2 :=
    List.mem_filter.mpr ⟨(order.mem_iff peer descriptor).mpr hlookup, hcandidate⟩
  have hsorted : (peer, descriptor) ∈ sortByRaftId (fun entry ↦ entry.2.raftId)
      (order.entries.filter fun entry ↦ isCandidate selfNodeId entry.2) :=
    List.mem_mergeSort.mpr hmem
  simp only [resolvePeer_peers_eq_ok_iff, pickPeer]
  cases hlist : sortByRaftId (fun entry ↦ entry.2.raftId)
      (order.entries.filter fun entry ↦ isCandidate selfNodeId entry.2) with
  | nil =>
    rw [hlist] at hsorted
    cases hsorted
  | cons first rest => exact ⟨first.1, rfl⟩

end Knowledge

section Texts

variable {forms : TextForms}

def requestOf (descriptor : NodeDescriptor) : Json :=
  descriptorRequest.encode ⟨descriptor.nodeId.display⟩

def answerOf (forms : TextForms) (descriptor : NodeDescriptor) : Json :=
  descriptorResponse.encode (fromDescriptor forms descriptor)

/-- The documents that are read while the nodes ask each other for their descriptors. -/
def announcements (forms : TextForms) (descriptors : List NodeDescriptor) : List Json :=
  descriptors.map requestOf ++
    (descriptors.map (nodeDescriptor forms).encode ++ descriptors.map (answerOf forms))

/-- An id is written as it is, also inside a text. -/
theorem flatMap_jsonChar_display (nodeId : NodeId) :
    nodeId.display.toList.flatMap jsonChar = nodeId.display.toList := by
  have hsingle : nodeId.display.toList.flatMap jsonChar =
      nodeId.display.toList.flatMap fun char ↦ [char] :=
    List.flatMap_congr fun char hchar ↦ (isPlainText_display nodeId char hchar).2
  rw [hsingle, List.flatMap_singleton']

theorem exists_compact_requestOf (descriptor : NodeDescriptor) :
    ∃ after, (compact (requestOf descriptor)).toList =
      ('\x7b' :: '"' :: "requester_id".toList.flatMap jsonChar ++ ['"', ':', '"']) ++
        (descriptor.nodeId.display.toList ++ '"' :: after) := by
  obtain ⟨after, hafter⟩ :=
    exists_compact_object_string "requester_id" descriptor.nodeId.display []
  rw [flatMap_jsonChar_display] at hafter
  exact ⟨after, hafter⟩

theorem exists_compact_descriptor (forms : TextForms) (descriptor : NodeDescriptor) :
    ∃ after, (compact ((nodeDescriptor forms).encode descriptor)).toList =
      ('\x7b' :: '"' :: "node_id".toList.flatMap jsonChar ++ ['"', ':', '"']) ++
        (descriptor.nodeId.display.toList ++ '"' :: after) := by
  obtain ⟨rest, hencode⟩ : ∃ rest, (nodeDescriptor forms).encode descriptor =
      .object (("node_id", .string descriptor.nodeId.display) :: rest) := ⟨_, rfl⟩
  obtain ⟨after, hafter⟩ := exists_compact_object_string "node_id" descriptor.nodeId.display rest
  rw [flatMap_jsonChar_display] at hafter
  exact ⟨after, by rw [hencode, hafter]⟩

/-- The text of an answer holds the id between quotation marks that are escaped. -/
theorem exists_compact_answerOf (forms : TextForms) (descriptor : NodeDescriptor) :
    ∃ after, (compact (answerOf forms descriptor)).toList =
      (('\x7b' :: '"' :: "descriptor_json".toList.flatMap jsonChar ++ ['"', ':', '"']) ++
        ('\x7b' :: '"' :: "node_id".toList.flatMap jsonChar ++ ['"', ':', '"']).flatMap jsonChar) ++
          (descriptor.nodeId.display.toList ++ '\\' :: after) := by
  obtain ⟨inner, hinner⟩ := exists_compact_descriptor forms descriptor
  obtain ⟨after, hafter⟩ := exists_compact_object_string "descriptor_json"
    (compact ((nodeDescriptor forms).encode descriptor)) []
  have hencode : answerOf forms descriptor = .object [("descriptor_json",
      .string (compact ((nodeDescriptor forms).encode descriptor)))] := rfl
  have htext : (descriptor.nodeId.display.toList ++ '"' :: inner).flatMap jsonChar =
      descriptor.nodeId.display.toList ++ '\\' :: '"' :: inner.flatMap jsonChar := by
    rw [List.flatMap_append, flatMap_jsonChar_display, List.flatMap_cons]
    rfl
  refine ⟨'"' :: (inner.flatMap jsonChar ++ '"' :: after), ?_⟩
  rw [hencode, hafter, hinner, List.flatMap_append, htext]
  simp only [List.append_assoc, List.cons_append]

/-- The documents of one kind are told apart at the id. -/
theorem apart_of_nodeId {first second : Json} {shared left right : List Char} {mark : Char}
    {one other : NodeId}
    (hfirst : (compact first).toList = shared ++ (one.display.toList ++ mark :: left))
    (hsecond : (compact second).toList = shared ++ (other.display.toList ++ mark :: right))
    (hmark : mark.toNat < 128) (hescaped : ¬ IsPlain mark) (hne : one ≠ other) :
    Apart first second := by
  have hascii : ∀ nodeId : NodeId, ∀ char ∈ nodeId.display.toList, char.toNat < 128 :=
    fun nodeId char hchar ↦ (isPlainText_display nodeId char hchar).1
  have hnot : ∀ nodeId : NodeId, mark ∉ nodeId.display.toList :=
    fun nodeId hmem ↦ hescaped (isPlainText_display nodeId mark hmem)
  exact apart_of_cut hfirst hsecond (hascii one) (hascii other) hmark (hnot one) (hnot other)
    fun hsame ↦ hne (display_injective (String.toList_inj.mp hsame))

theorem apart_requestOf {one other : NodeDescriptor} (hne : one.nodeId ≠ other.nodeId) :
    Apart (requestOf one) (requestOf other) := by
  obtain ⟨left, hleft⟩ := exists_compact_requestOf one
  obtain ⟨right, hright⟩ := exists_compact_requestOf other
  exact apart_of_nodeId hleft hright (by decide) (by decide) hne

theorem apart_descriptor {one other : NodeDescriptor} (hne : one.nodeId ≠ other.nodeId) :
    Apart ((nodeDescriptor forms).encode one) ((nodeDescriptor forms).encode other) := by
  obtain ⟨left, hleft⟩ := exists_compact_descriptor forms one
  obtain ⟨right, hright⟩ := exists_compact_descriptor forms other
  exact apart_of_nodeId hleft hright (by decide) (by decide) hne

theorem apart_answerOf {one other : NodeDescriptor} (hne : one.nodeId ≠ other.nodeId) :
    Apart (answerOf forms one) (answerOf forms other) := by
  obtain ⟨left, hleft⟩ := exists_compact_answerOf forms one
  obtain ⟨right, hright⟩ := exists_compact_answerOf forms other
  exact apart_of_nodeId hleft hright (by decide) (by decide) hne

/-- Nodes with different ids write different texts. -/
theorem pairwise_apart_announcements {descriptors : List NodeDescriptor}
    (hdistinct : descriptors.Pairwise fun one other ↦ one.nodeId ≠ other.nodeId) :
    (announcements forms descriptors).Pairwise Apart := by
  have hrequest : ∀ one other : NodeDescriptor,
      Apart (requestOf one) ((nodeDescriptor forms).encode other) ∧
        Apart (requestOf one) (answerOf forms other) := fun _ _ ↦
    ⟨apart_of_first_name (by decide) (by decide) (by decide),
      apart_of_first_name (by decide) (by decide) (by decide)⟩
  have hdescriptor : ∀ one other : NodeDescriptor,
      Apart ((nodeDescriptor forms).encode one) (answerOf forms other) := fun _ _ ↦
    apart_of_first_name (by decide) (by decide) (by decide)
  rw [announcements, List.pairwise_append, List.pairwise_append]
  simp only [List.pairwise_map, List.mem_append, List.mem_map]
  refine ⟨hdistinct.imp apart_requestOf,
    ⟨hdistinct.imp apart_descriptor, hdistinct.imp apart_answerOf, ?_⟩, ?_⟩
  · rintro _ ⟨one, -, rfl⟩ _ ⟨other, -, rfl⟩
    exact hdescriptor one other
  · rintro _ ⟨one, -, rfl⟩ _ (⟨other, -, rfl⟩ | ⟨other, -, rfl⟩)
    · exact (hrequest one other).1
    · exact (hrequest one other).2

/-- A registration is told apart from the other texts at its first name. -/
theorem apart_registration (registered : NodeDescriptor) {descriptors : List NodeDescriptor} :
    ∀ document ∈ announcements forms descriptors,
      Apart ((Wire.proposal forms).encode (.registerNode registered)) document := by
  have hencode : (Wire.proposal forms).encode (.registerNode registered) =
      .object [("RegisterNode", (nodeDescriptor forms).encode registered)] := rfl
  simp only [announcements, List.mem_append, List.mem_map, hencode]
  rintro _ (⟨descriptor, -, rfl⟩ | ⟨descriptor, -, rfl⟩ | ⟨descriptor, -, rfl⟩)
  · exact apart_of_first_name (by decide) (by decide) (by decide)
  · exact apart_of_first_name (by decide) (by decide) (by decide)
  · exact apart_of_first_name (by decide) (by decide) (by decide)

end Texts

/-! ## Two voters and a light client -/

open ClusterState CommittedReplay RaftNode Replicas in
/-- A replica proposes a registration and is handed its entry. -/
def registers (forms : TextForms) (replica : ℕ) (descriptor : NodeDescriptor) :
    List ClusterStep :=
  let log : List Entry :=
    [{ term := 1, index := 1 },
      { term := 1, index := 2, data := (Proposal.registerNode descriptor).encode forms }]
  .propose replica (.registerNode descriptor) true ::
    (log.map .commit ++ [.cycle replica { ready := { committedEntries := log } } fun _ ↦ none])

open ClusterState CommittedReplay RaftNode Replicas in
theorem run_registers (primitives : Primitives) {text : SerdeReader} {forms : TextForms}
    (voters : List ℕ) (stores : ℕ → LocalObjectStore) (transports : ℕ → Libp2pRaftTransport)
    (replica : ℕ) {descriptor : NodeDescriptor}
    (hreadable : (Proposal.registerNode descriptor).Readable text forms) :
    ∃ cluster, run (Replicas.step primitives text forms voters)
        (firstStart voters stores transports) (registers forms replica descriptor) = some cluster ∧
      (cluster.nodes replica).state.nodes.lookup descriptor.nodeId = some descriptor := by
  have hdecode := Proposal.decode_encode hreadable
  have hnonempty : (Proposal.registerNode descriptor).encode forms ≠ [] :=
    Proposal.encode_ne_nil _
  simp [registers, run_cons, run_nil, Replicas.step, committedOf, firstStart, processReady_state,
    applyCommitted, applyEntry, hdecode, hnonempty, RaftNode.new, ClusterState.apply]

theorem handled_registers {text : SerdeReader} {forms : TextForms} (replica : ℕ)
    {descriptor : NodeDescriptor}
    (hreadable : (Proposal.registerNode descriptor).Readable text forms) :
    ∀ label ∈ registers forms replica descriptor, label.Handled text forms := by
  intro label hmem
  simp only [registers, List.map_cons, List.map_nil, List.cons_append, List.nil_append,
    List.mem_cons, List.not_mem_nil, or_false] at hmem
  rcases hmem with rfl | rfl | rfl | rfl
  · exact hreadable
  · exact trivial
  · exact trivial
  · exact List.filterMap_nil

theorem eq_of_submitted_registers {forms : TextForms} {replica : ℕ}
    {registered descriptor : NodeDescriptor}
    (hsubmitted : Replicas.Submitted (registers forms replica registered)
      (.registerNode descriptor)) : descriptor = registered := by
  obtain ⟨node, hmem⟩ := hsubmitted
  have hboth : node = replica ∧ descriptor = registered := by
    simpa [registers] using hmem
  exact hboth.2

def sampleForms : TextForms := textFormsOf [1, 2, 3] ⟨0⟩ ""

def sampleNodeId (peerId : PeerId) : NodeId :=
  if peerId = ⟨[1]⟩ then 1 else if peerId = ⟨[2]⟩ then 2 else 3

/-- Only two peers are voters. -/
def sampleRaftId (peerId : PeerId) : Option UInt64 :=
  if peerId = ⟨[1]⟩ then some 1 else if peerId = ⟨[2]⟩ then some 2 else none

def sampleMembers (peerId : PeerId) : ConfigMembers where
  capabilities := some { projectSandbox := some true }
  raftId := sampleRaftId peerId

def sampleHost (peerId : PeerId) : Host where
  readers := ⟨fun _ ↦ .ok "", fun _ ↦ .ok (sampleMembers peerId), fun _ ↦ .error "invalid length",
    fun address ↦ .ok ⟨address⟩⟩
  newNodeId := sampleNodeId peerId
  os := .linux
  now := ⟨0⟩
  identity _ := .ok peerId
  openStore := .ok ()
  makesProjectExecutor _ _ _ := true
  startSwarm _ _ := .ok ()
  newRaftNode _ _ := .ok ()

def sampleNode (nodeId : NodeId) (raftId : Option ℕ) : NodeDescriptor :=
  ⟨nodeId, .heavy, .linux, ⟨false, false, ["qlean"], 16384, 4, true⟩, [], [], ⟨0⟩, raftId⟩

def sampleStarted (peerId : PeerId) : StartedNode :=
  ⟨peerId, sampleNode (sampleNodeId peerId) ((sampleRaftId peerId).map UInt64.toNat), true,
    ((sampleRaftId peerId).map UInt64.toNat).getD 0⟩

theorem bootstrap_sampleHost (peerId : PeerId) :
    bootstrap (sampleHost peerId) { configPath := "node.yaml" } = .ok (sampleStarted peerId) :=
  bootstrap_eq_ok_iff.mpr ⟨_, _, _, rfl, rfl, rfl, rfl, rfl, rfl, fun _ ↦ rfl⟩

theorem eq_of_raftId_sampleStarted (one other : PeerId) (raftId : ℕ)
    (hone : (sampleStarted one).descriptor.raftId = some raftId)
    (hother : (sampleStarted other).descriptor.raftId = some raftId) : one = other := by
  simp only [sampleStarted, sampleNode, sampleRaftId] at hone hother
  split_ifs at hone hother <;> simp_all <;> omega

def sampleNodes : List NodeDescriptor :=
  [sampleNode 1 (some 1), sampleNode 2 (some 2), sampleNode 3 none]

theorem descriptor_sampleStarted (peerId : PeerId) :
    (sampleStarted peerId).descriptor ∈ sampleNodes := by
  unfold sampleStarted sampleNodeId sampleRaftId
  split_ifs <;> simp [sampleNodes]

def sampleDocuments : List Json :=
  (Wire.proposal sampleForms).encode (.registerNode (sampleNode 2 (some 2))) ::
    announcements sampleForms sampleNodes

theorem pairwise_apart_sampleDocuments : sampleDocuments.Pairwise Apart :=
  List.Pairwise.cons (apart_registration _) (pairwise_apart_announcements (by decide))

theorem announcementReadable_sampleStarted (peerId : PeerId) :
    AnnouncementReadable (textOf sampleDocuments) sampleForms
      (sampleStarted peerId).descriptor := by
  have hmem := descriptor_sampleStarted peerId
  have hread : ∀ document ∈ announcements sampleForms sampleNodes,
      (textOf sampleDocuments).ReadsBack document := fun document hdocument ↦
    readsBack_textOf pairwise_apart_sampleDocuments (List.mem_cons_of_mem _ hdocument)
  refine ⟨?_, ?_, hread _ ?_, hread _ ?_, hread _ ?_⟩
  · apply parseUuid_textFormsOf
    simp only [sampleNodes, List.mem_cons, List.not_mem_nil, or_false] at hmem
    rcases hmem with hnode | hnode | hnode <;> simp [hnode, sampleNode]
  · simp [sampleForms, textFormsOf, sampleStarted, sampleNode]
  · exact List.mem_append_left _ (List.mem_map_of_mem hmem)
  · exact List.mem_append_right _ (List.mem_append_left _ (List.mem_map_of_mem hmem))
  · exact List.mem_append_right _ (List.mem_append_right _ (List.mem_map_of_mem hmem))

theorem fitsAnswer_sampleNodes : ∀ descriptor ∈ sampleNodes, FitsAnswer sampleForms descriptor := by
  simp only [sampleNodes, List.forall_mem_cons, List.not_mem_nil, false_implies, implies_true,
    and_true]
  refine ⟨?_, ?_, ?_⟩ <;> decide +kernel

theorem allReadable_sampleStarted : AllReadable (textOf sampleDocuments) sampleForms fun peerId ↦
    (sampleStarted peerId).descriptor where
  request peerId := (announcementReadable_sampleStarted peerId).requestText
  descriptor peerId := descriptorReadable_of_bootstrap (bootstrap_sampleHost peerId)
    (announcementReadable_sampleStarted peerId)

/-- The light client and one of the voters both connect to the other voter. -/
def meetings : List Mesh.Step := contact ⟨[1]⟩ ⟨[2]⟩ ++ contact ⟨[3]⟩ ⟨[2]⟩

theorem run_meetings : ∃ monitors,
    run (Mesh.step tabulated (textOf sampleDocuments) sampleForms fun peerId ↦
      (sampleStarted peerId).descriptor) (started fun _ ↦ ⟨[], ∅⟩) meetings =
        some (resting [s(⟨[3]⟩, ⟨[2]⟩), s(⟨[1]⟩, ⟨[2]⟩)] monitors [] [] []) := by
  have hfits : ∀ peerId, FitsAnswer sampleForms (sampleStarted peerId).descriptor :=
    fun peerId ↦ fitsAnswer_sampleNodes _ (descriptor_sampleStarted peerId)
  obtain ⟨met, hmeet⟩ : ∃ met, run (Mesh.step tabulated (textOf sampleDocuments) sampleForms
      fun peerId ↦ (sampleStarted peerId).descriptor) (started fun _ ↦ ⟨[], ∅⟩)
        (contact ⟨[1]⟩ ⟨[2]⟩) = some (resting [s(⟨[1]⟩, ⟨[2]⟩)] met [] [] []) :=
    run_contact [] _ tabulated allReadable_sampleStarted (hfits _) (hfits _)
  obtain ⟨monitors, hlight⟩ := run_contact [s(⟨[1]⟩, ⟨[2]⟩)] met tabulated
    allReadable_sampleStarted (hfits ⟨[3]⟩) (hfits ⟨[2]⟩)
  refine ⟨monitors, ?_⟩
  rw [meetings, run_append, hmeet, Option.bind_some]
  exact hlight

end EdgeOrchestrator.Wire.TaskRouting

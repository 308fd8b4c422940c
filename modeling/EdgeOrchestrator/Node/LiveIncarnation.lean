import EdgeOrchestrator.Node.AskedPeers
import EdgeOrchestrator.Node.Routing

/-!
# The live incarnation of a node

A light client keeps the last descriptor of every peer and looks a node up by its node id. A node
that restarted under a new peer id leaves its old entry behind, and which of the two a lookup finds
depends on the order in which the map is read. So the lookup is right exactly when no other peer
has last announced the node id.
-/

namespace EdgeOrchestrator.Node.LiveIncarnation

open AskedPeers P2P Storage

variable (primitives : Primitives)

def knownPeersAfter (fault : Option WriteFault) (now : Instant) (store : LocalObjectStore)
    (received : Received) : HashMap PeerId NodeDescriptor :=
  let monitor := received.foldl (fun (monitor : EventMonitor) entry ↦
    (monitor.handleEvent primitives fault now (.descriptorReceived entry.1 entry.2)).1)
    { cas := { store := store } }
  monitor.knownPeers

def lastDescriptor (received : Received) (peerId : PeerId) : Option NodeDescriptor :=
  (received.reverse.find? fun entry ↦ entry.1 = peerId).map Prod.snd

def lastSender (received : Received) (nodeId : NodeId) : Option PeerId :=
  (received.reverse.find? fun entry ↦ entry.2.nodeId = nodeId).map Prod.fst

variable {primitives}

/-- The table holds the last descriptor of every peer. -/
theorem lookup_knownPeersAfter (fault : Option WriteFault) (now : Instant)
    (store : LocalObjectStore) (received : Received) (peerId : PeerId) :
    (knownPeersAfter primitives fault now store received).lookup peerId =
      lastDescriptor received peerId := by
  induction received using List.reverseRecOn with
  | nil => rfl
  | append_singleton earlier last ih =>
    rcases last with ⟨sender, descriptor⟩
    have hstep : knownPeersAfter primitives fault now store (earlier ++ [(sender, descriptor)]) =
        (knownPeersAfter primitives fault now store earlier).insert sender descriptor := by
      simp only [knownPeersAfter, List.foldl_append, List.foldl_cons, List.foldl_nil]
      rfl
    rw [hstep, lastDescriptor, List.reverse_append]
    simp only [List.reverse_cons, List.reverse_nil, List.nil_append, List.singleton_append,
      List.find?_cons]
    by_cases hsame : sender = peerId
    · simp [hsame]
    · rw [Finmap.lookup_insert_of_ne _ (Ne.symm hsame), ih]
      simp [hsame, lastDescriptor]

/-- A lookup by node id finds a peer exactly when some entry in the order has that node id, and
then the first such peer. -/
theorem resolvePeer_some_eq_ok_iff (selfNodeId nodeId : NodeId)
    {known : HashMap PeerId NodeDescriptor} (order : IterationOrder known) (peer : PeerId) :
    resolvePeer selfNodeId (some nodeId) (.peers known) order = .ok peer ↔
      ∃ descriptor, (order.entries.find? fun entry ↦ entry.2.nodeId == nodeId) =
        some (peer, descriptor) := by
  simp only [resolvePeer, pickPeer]
  cases order.entries.find? fun entry ↦ entry.2.nodeId == nodeId with
  | none => simp
  | some entry =>
    rcases entry with ⟨sender, descriptor⟩
    simp [eq_comm]

/-- Some order makes a lookup find any of the peers that last announced the node id. -/
theorem exists_order_resolvePeer (selfNodeId : NodeId) {known : HashMap PeerId NodeDescriptor}
    {peer : PeerId} {descriptor : NodeDescriptor} (hlookup : known.lookup peer = some descriptor) :
    ∃ order : IterationOrder known,
      resolvePeer selfNodeId (some descriptor.nodeId) (.peers known) order = .ok peer := by
  obtain ⟨order, rest, hentries⟩ := IterationOrder.exists_beginning_with hlookup
  refine ⟨order, (resolvePeer_some_eq_ok_iff selfNodeId descriptor.nodeId order peer).mpr
    ⟨descriptor, ?_⟩⟩
  rw [hentries]
  exact List.find?_cons_of_pos (beq_self_eq_true descriptor.nodeId)

/-- A lookup by node id returns the sender of the last descriptor with that node id, in whatever
order the table is read, exactly when no other peer has last announced the node id. -/
theorem resolvePeer_eq_lastSender_iff (fault : Option WriteFault) (now : Instant)
    (store : LocalObjectStore) (received : Received) (selfNodeId nodeId : NodeId) :
    (∀ (order : IterationOrder (knownPeersAfter primitives fault now store received))
        (peer : PeerId),
      resolvePeer selfNodeId (some nodeId) (.peers _) order = .ok peer →
        lastSender received nodeId = some peer) ↔
      ∀ peer descriptor, lastDescriptor received peer = some descriptor →
        descriptor.nodeId = nodeId → lastSender received nodeId = some peer := by
  constructor
  · intro hresolved peer descriptor hlast hnode
    rw [← lookup_knownPeersAfter fault now store] at hlast
    obtain ⟨order, horder⟩ := exists_order_resolvePeer selfNodeId hlast
    rw [hnode] at horder
    exact hresolved order peer horder
  · intro hannounced order peer hresolved
    obtain ⟨descriptor, hfound⟩ :=
      (resolvePeer_some_eq_ok_iff selfNodeId nodeId order peer).mp hresolved
    have hlookup := (order.mem_iff peer descriptor).mp (List.mem_of_find?_eq_some hfound)
    rw [lookup_knownPeersAfter] at hlookup
    exact hannounced peer descriptor hlookup (by simpa using List.find?_some hfound)

/-- An executor that restarted under a second peer id. -/
def restarted : Received := [(⟨[1]⟩, executor 7 1), (⟨[2]⟩, executor 7 1)]

theorem resolvePeer_ne_lastSender_after_restart :
    ¬ ∀ (primitives : Primitives) (fault : Option WriteFault) (now : Instant)
      (store : LocalObjectStore) (received : Received) (selfNodeId nodeId : NodeId)
      (order : IterationOrder (knownPeersAfter primitives fault now store received))
      (peer : PeerId), resolvePeer selfNodeId (some nodeId) (.peers _) order = .ok peer →
        lastSender received nodeId = some peer := by
  intro hgeneral
  have hold : (knownPeersAfter tabulated none 0 ⟨[], ∅⟩ restarted).lookup ⟨[1]⟩ =
      some (executor 7 1) := by
    rw [lookup_knownPeersAfter]
    decide
  obtain ⟨order, horder⟩ := exists_order_resolvePeer 1 hold
  have hlast := hgeneral tabulated none 0 ⟨[], ∅⟩ restarted 1 7 order ⟨[1]⟩ horder
  exact absurd hlast (by decide)

end EdgeOrchestrator.Node.LiveIncarnation

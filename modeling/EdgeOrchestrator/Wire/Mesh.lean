import EdgeOrchestrator.Foundation.Execution
import EdgeOrchestrator.Node.Backpressure
import EdgeOrchestrator.Wire.Exchanges
import Mathlib.Algebra.BigOperators.Group.List.Basic
import Mathlib.Data.Sym.Sym2

/-!
# How nodes come to know each other

A new connection is reported to the swarm loops of both nodes. Each loop tells its monitor, which
asks the other node for its descriptor and keeps the answer. Between loop and monitor lie the two
bounded channels. Connections come and go in any order, requests get lost, and other traffic runs
between the steps. A node never keeps a descriptor that is not the one of the peer, and once nothing
is queued or on its way, connected nodes know each other unless a request between them got lost
since they last connected. Without new connections or traffic this point is reached after a bounded
number of steps, unless the loop and the monitor of a node come to wait for each other.
-/

namespace EdgeOrchestrator.Wire.Mesh

open Execution Node P2P Raft Serde Storage

/-- What libp2p reports about a connection. -/
inductive Report
  | established (peerId : PeerId)
  | closed (peerId : PeerId)
  deriving DecidableEq, Repr

def Report.event : Report → SwarmEvent
  | .established peerId => .connectionEstablished peerId
  | .closed peerId => .connectionClosed peerId

/-- The monitors of the nodes. Reports that a swarm loop has not taken, the events it is emitting
and its event channel; the commands that a monitor is sending and its command channel. The requests
for descriptors and the answers that are on their way, and the connections. Beside them stands which
requests got lost since the two nodes last connected. -/
structure Network where
  monitors : PeerId → EventMonitor
  reports : List (PeerId × Report)
  emitting : List (PeerId × Event)
  events : List (PeerId × Event)
  sending : List (PeerId × SwarmCommand)
  commands : List (PeerId × SwarmCommand)
  asked : List (PeerId × PeerId)
  answers : List (PeerId × PeerId)
  connections : List (Sym2 PeerId)
  lost : List (PeerId × PeerId)

inductive Step
  | report (node : PeerId) (event : SwarmEvent)
  | submit (node : PeerId) (command : SwarmCommand)
  | dialTick (node : PeerId) (addrs : List Multiaddr)
  | establish (one other : PeerId)
  | close (one other : PeerId)
  | takeReport (node : PeerId)
  | emit (node : PeerId)
  | handleEvent (node : PeerId) (fault : Option WriteFault) (now : Instant)
  | send (node : PeerId)
  | handleCommand (node : PeerId)
  | answer (asker answerer : PeerId)
  | receive (asker answerer : PeerId)
  | lose (asker answerer : PeerId)

/-- The step only works off what is queued or on its way. -/
def Step.Internal : Step → Prop
  | .report _ _ | .submit _ _ | .dialTick _ _ | .establish _ _ | .close _ _ => False
  | _ => True

/-- The answer to a request for a descriptor. -/
def IsAnswer : Event → Bool
  | .descriptorReceived _ _ => true
  | _ => false

def ofNode {Entry : Type} (node : PeerId) (entries : List (PeerId × Entry)) : List Entry :=
  (entries.filter fun entry ↦ entry.1 = node).map Prod.snd

def oldest {Entry : Type} (node : PeerId) (entries : List (PeerId × Entry)) :
    Option (PeerId × Entry) :=
  entries.find? fun entry ↦ entry.1 = node

namespace Network

/-- The event channel and the command channel of a node, and what waits for room in them. -/
def channels (network : Network) (node : PeerId) : CoupledQueues Event SwarmCommand where
  items := ofNode node network.events
  replies := ofNode node network.commands
  emitting := ofNode node network.emitting
  sending := ofNode node network.sending

/-- Events that have not reached the monitors. -/
abbrev eventsUnderWay (network : Network) : List (PeerId × Event) :=
  network.emitting ++ network.events

/-- Commands that have not reached the swarm loops. -/
abbrev commandsUnderWay (network : Network) : List (PeerId × SwarmCommand) :=
  network.sending ++ network.commands

end Network

section Machine

variable (primitives : Primitives) (text : SerdeReader) (forms : TextForms)
  (descriptorOf : PeerId → NodeDescriptor)

def context (node : PeerId) : SwarmContext :=
  swarmContext text forms node (descriptorOf node) none

/-- The events that one event of libp2p makes the loop of a node emit. -/
def queued (node : PeerId) (event : SwarmEvent) : List (PeerId × Event) :=
  ((context text forms descriptorOf node).handleSwarmEvent event).1.map (Prod.mk node)

/-- One step of the network. Two nodes may have several connections. A loop may be brought any event
of libp2p but the answer to a request it did not make, and other tasks of a node may submit any
command. A loop takes nothing while it is emitting, and a monitor nothing while it is sending. -/
def step (network : Network) : Step → Option Network
  | .report node event =>
    let emitted := queued text forms descriptorOf node event
    if (network.channels node).emitting = [] ∧ ∀ entry ∈ emitted, IsAnswer entry.2 = false then
      some { network with emitting := network.emitting ++ emitted }
    else none
  | .submit node command =>
    if (network.channels node).replies.length < commandCapacity then
      some { network with commands := network.commands ++ [(node, command)] }
    else none
  | .dialTick node addrs =>
    if (network.channels node).sending = [] ∧
        (addrs : Multiset Multiaddr) = (network.monitors node).discoveredAddrs then
      some { network with
        sending := network.sending ++ ((network.monitors node).dialTick addrs).map (Prod.mk node) }
    else none
  | .establish one other =>
    some { network with
      reports := network.reports ++ [(one, .established other), (other, .established one)]
      connections := s(one, other) :: network.connections
      lost := network.lost.filter fun pair ↦ pair ≠ (one, other) ∧ pair ≠ (other, one) }
  | .close one other =>
    if s(one, other) ∈ network.connections then
      some { network with
        reports := network.reports ++ [(one, .closed other), (other, .closed one)]
        connections := network.connections.erase s(one, other) }
    else none
  | .takeReport node =>
    if (network.channels node).emitting = [] then
      (oldest node network.reports).map fun entry ↦
        { network with
          reports := network.reports.erase entry
          emitting := network.emitting ++ queued text forms descriptorOf entry.1 entry.2.event }
    else none
  | .emit node =>
    if (network.channels node).items.length < eventCapacity then
      (oldest node network.emitting).map fun entry ↦
        { network with
          emitting := network.emitting.erase entry
          events := network.events ++ [entry] }
    else none
  | .handleEvent node fault now =>
    if (network.channels node).sending = [] then
      (oldest node network.events).map fun entry ↦
        let handled := (network.monitors entry.1).handleEvent primitives fault now entry.2
        { network with
          monitors := Function.update network.monitors entry.1 handled.1
          events := network.events.erase entry
          sending := network.sending ++ handled.2.commands.map (Prod.mk entry.1) }
    else none
  | .send node =>
    if (network.channels node).replies.length < commandCapacity then
      (oldest node network.sending).map fun entry ↦
        { network with
          sending := network.sending.erase entry
          commands := network.commands ++ [entry] }
    else none
  | .handleCommand node =>
    if (network.channels node).emitting = [] then
      (oldest node network.commands).map fun entry ↦
        { network with
          commands := network.commands.erase entry
          asked :=
            match entry.2 with
            | .requestDescriptor peerId => network.asked ++ [(entry.1, peerId)]
            | _ => network.asked }
    else none
  | .answer asker answerer =>
    if (asker, answerer) ∈ network.asked ∧ (network.channels answerer).emitting = [] then
      some { network with
        emitting := network.emitting ++ [(answerer, .descriptorSent asker)]
        asked := network.asked.erase (asker, answerer)
        answers := network.answers ++ [(asker, answerer)] }
    else none
  | .receive asker answerer =>
    if (asker, answerer) ∈ network.answers ∧ (network.channels asker).emitting = [] then
      let answer := requestDescriptor text forms (context text forms descriptorOf asker)
        (context text forms descriptorOf answerer)
      some { network with
        emitting := network.emitting ++ answer.map (Prod.mk asker)
        answers := network.answers.erase (asker, answerer) }
    else none
  | .lose asker answerer =>
    if (asker, answerer) ∈ network.asked then
      some { network with
        asked := network.asked.erase (asker, answerer)
        lost := (asker, answerer) :: network.lost }
    else if (asker, answerer) ∈ network.answers then
      some { network with
        answers := network.answers.erase (asker, answerer)
        lost := (asker, answerer) :: network.lost }
    else none

/-- Nodes that were all just started. -/
def started (stores : PeerId → LocalObjectStore) : Network where
  monitors node := { cas := { store := stores node } }
  reports := []
  emitting := []
  events := []
  sending := []
  commands := []
  asked := []
  answers := []
  connections := []
  lost := []

end Machine

/-- Nothing is queued or on its way. -/
structure Quiet (network : Network) : Prop where
  reports : network.reports = []
  events : network.eventsUnderWay = []
  commands : network.commandsUnderWay = []
  asked : network.asked = []
  answers : network.answers = []

/-- The swarm loop and the monitor of the node wait for each other. -/
def Deadlocked (network : Network) (node : PeerId) : Prop :=
  (network.channels node).CircularWait eventCapacity commandCapacity

/-! ## What a monitor knows -/

section Tables

variable (Announces : PeerId → NodeDescriptor → Prop)

/-- An event brings no descriptor but one that the peer announces. -/
def Truthful (event : Event) : Prop :=
  ∀ peerId descriptor, event = .descriptorReceived peerId descriptor → Announces peerId descriptor

/-- The tables hold what the peers announce, and every announced raft id of a known peer. -/
structure Knowing (monitor : EventMonitor) : Prop where
  known : ∀ peerId descriptor, monitor.knownPeers.lookup peerId = some descriptor →
    Announces peerId descriptor
  claimed : ∀ raftId peerId, monitor.raftRegistry.lookup raftId = some peerId →
    ∃ descriptor, Announces peerId descriptor ∧ descriptor.raftId = some raftId
  registered : ∀ peerId descriptor raftId, monitor.knownPeers.lookup peerId = some descriptor →
    descriptor.raftId = some raftId → raftId ∈ monitor.raftRegistry

variable {Announces} {primitives : Primitives} {fault : Option WriteFault} {now : Instant}

theorem knowing_empty (store : LocalObjectStore) :
    Knowing Announces { cas := { store := store } } where
  known _ _ hlookup := by cases hlookup
  claimed _ _ hlookup := by cases hlookup
  registered _ _ _ hlookup := by cases hlookup

variable (primitives fault now) in
/-- Only an answer changes the tables. -/
theorem handleEvent_tables (monitor : EventMonitor) {event : Event}
    (hother : IsAnswer event = false) :
    (monitor.handleEvent primitives fault now event).1.knownPeers = monitor.knownPeers ∧
      (monitor.handleEvent primitives fault now event).1.raftRegistry = monitor.raftRegistry := by
  cases event with
  | descriptorReceived peerId descriptor => cases hother
  | _ => exact ⟨rfl, rfl⟩

theorem eq_descriptorReceived_of_isAnswer {event : Event} (hanswer : IsAnswer event = true) :
    ∃ peerId descriptor, event = .descriptorReceived peerId descriptor := by
  cases event with
  | descriptorReceived peerId descriptor => exact ⟨peerId, descriptor, rfl⟩
  | _ => cases hanswer

theorem truthful_of_not_isAnswer {event : Event} (hother : IsAnswer event = false) :
    Truthful Announces event := by
  rintro peerId descriptor rfl
  cases hother

theorem Knowing.descriptorReceived {monitor : EventMonitor} (hknowing : Knowing Announces monitor)
    {peerId : PeerId} {descriptor : NodeDescriptor} (hannounces : Announces peerId descriptor) :
    Knowing Announces
      (monitor.handleEvent primitives fault now (.descriptorReceived peerId descriptor)).1 := by
  constructor
  · intro other found hfound
    by_cases hother : other = peerId
    · rw [hother, EventMonitor.handleEvent, Finmap.lookup_insert, Option.some.injEq] at hfound
      rwa [hother, ← hfound]
    · rw [EventMonitor.handleEvent, Finmap.lookup_insert_of_ne _ hother] at hfound
      exact hknowing.known other found hfound
  · intro raftId claimant hclaimant
    cases hraftId : descriptor.raftId with
    | none =>
      simp only [EventMonitor.handleEvent, hraftId] at hclaimant
      exact hknowing.claimed raftId claimant hclaimant
    | some announced =>
      simp only [EventMonitor.handleEvent, hraftId] at hclaimant
      by_cases hsame : raftId = announced
      · rw [hsame, Finmap.lookup_insert, Option.some.injEq] at hclaimant
        rw [← hclaimant, hsame]
        exact ⟨descriptor, hannounces, hraftId⟩
      · rw [Finmap.lookup_insert_of_ne _ hsame] at hclaimant
        exact hknowing.claimed raftId claimant hclaimant
  · intro other found raftId hfound hraftId
    by_cases hother : other = peerId
    · rw [hother, EventMonitor.handleEvent, Finmap.lookup_insert, Option.some.injEq] at hfound
      simp only [EventMonitor.handleEvent, hfound, hraftId, Finmap.mem_insert, true_or]
    · rw [EventMonitor.handleEvent, Finmap.lookup_insert_of_ne _ hother] at hfound
      have hbefore := hknowing.registered other found raftId hfound hraftId
      cases hannounced : descriptor.raftId with
      | none => simpa only [EventMonitor.handleEvent, hannounced] using hbefore
      | some announced =>
        simpa only [EventMonitor.handleEvent, hannounced, Finmap.mem_insert] using Or.inr hbefore

theorem Knowing.handleEvent {monitor : EventMonitor} (hknowing : Knowing Announces monitor)
    {event : Event} (htruthful : Truthful Announces event) :
    Knowing Announces (monitor.handleEvent primitives fault now event).1 := by
  cases hanswer : IsAnswer event with
  | false =>
    obtain ⟨hpeers, hregistry⟩ := handleEvent_tables primitives fault now monitor hanswer
    constructor
    · rw [hpeers]
      exact hknowing.known
    · rw [hregistry]
      exact hknowing.claimed
    · rw [hpeers, hregistry]
      exact hknowing.registered
  | true =>
    obtain ⟨peerId, descriptor, rfl⟩ := eq_descriptorReceived_of_isAnswer hanswer
    exact hknowing.descriptorReceived (htruthful peerId descriptor rfl)

/-- What a monitor knows of a peer that announces nothing else it goes on knowing. -/
theorem lookup_handleEvent {monitor : EventMonitor} {peerId : PeerId} {known : NodeDescriptor}
    {event : Event} (hlookup : monitor.knownPeers.lookup peerId = some known)
    (honly : ∀ descriptor, Announces peerId descriptor → descriptor = known)
    (htruthful : Truthful Announces event) :
    (monitor.handleEvent primitives fault now event).1.knownPeers.lookup peerId = some known := by
  cases hanswer : IsAnswer event with
  | false => rwa [(handleEvent_tables primitives fault now monitor hanswer).1]
  | true =>
    obtain ⟨other, descriptor, rfl⟩ := eq_descriptorReceived_of_isAnswer hanswer
    by_cases hother : peerId = other
    · rw [EventMonitor.handleEvent, hother, Finmap.lookup_insert,
        honly descriptor (hother ▸ htruthful other descriptor rfl)]
    · rwa [EventMonitor.handleEvent, Finmap.lookup_insert_of_ne _ hother]

end Tables

/-! ## What is on its way to a node -/

section Entries

variable {Entry : Type} {node : PeerId} {entry : PeerId × Entry} {entries : List (PeerId × Entry)}

theorem mem_of_oldest (holdest : oldest node entries = some entry) :
    entry ∈ entries ∧ entry.1 = node :=
  ⟨List.mem_of_find?_eq_some holdest, by simpa using List.find?_some holdest⟩

theorem exists_oldest (hsome : ofNode node entries ≠ []) :
    ∃ entry, oldest node entries = some entry := by
  rw [← Option.isSome_iff_exists, oldest, List.find?_isSome]
  obtain ⟨first, hfirst⟩ := List.exists_mem_of_ne_nil _ hsome
  obtain ⟨found, hfound, -⟩ := List.mem_map.mp hfirst
  exact ⟨found, (List.mem_filter.mp hfound).1, (List.mem_filter.mp hfound).2⟩

theorem ofNode_ne_nil (hmem : entry ∈ entries) : ofNode entry.1 entries ≠ [] := by
  apply List.ne_nil_of_mem (a := entry.2)
  exact List.mem_map_of_mem (List.mem_filter.mpr ⟨hmem, decide_eq_true rfl⟩)

theorem ofNode_append (node : PeerId) (earlier later : List (PeerId × Entry)) :
    ofNode node (earlier ++ later) = ofNode node earlier ++ ofNode node later := by
  rw [ofNode, List.filter_append, List.map_append]
  rfl

theorem length_ofNode_erase_le [DecidableEq Entry] (node : PeerId) (entry : PeerId × Entry) :
    (ofNode node (entries.erase entry)).length ≤ (ofNode node entries).length :=
  ((List.erase_sublist.filter _).map Prod.snd).length_le

theorem length_ofNode_singleton (other : PeerId) :
    (ofNode other [entry]).length = if entry.1 = other then 1 else 0 := by
  rw [ofNode, List.filter_singleton]
  split_ifs with hsame <;> simp [hsame]

/-- An entry that moves on from one queue to the next stays where it is in both together. -/
theorem mem_move [DecidableEq Entry] (hmem : entry ∈ entries) (later : List (PeerId × Entry))
    (other : PeerId × Entry) :
    other ∈ entries.erase entry ++ (later ++ [entry]) ↔ other ∈ entries ++ later := by
  rw [List.mem_append, List.mem_append, List.mem_singleton, List.mem_append,
    (List.perm_cons_erase hmem).mem_iff, List.mem_cons]
  tauto

end Entries

section Invariant

/-- Every node can write its request and its descriptor, and the parser reads both back. -/
structure AllReadable (text : SerdeReader) (forms : TextForms)
    (descriptorOf : PeerId → NodeDescriptor) : Prop where
  request : ∀ node,
    text.ReadsBack (descriptorRequest.encode ⟨(descriptorOf node).nodeId.display⟩)
  descriptor : ∀ node, DescriptorReadable text forms (descriptorOf node)

variable (forms : TextForms) (descriptorOf : PeerId → NodeDescriptor)

/-- A peer announces its own descriptor, if the answer keeps to its cap. -/
def Announces (peerId : PeerId) (descriptor : NodeDescriptor) : Prop :=
  descriptor = descriptorOf peerId ∧ FitsAnswer forms descriptor

def Knows (network : Network) (node peerId : PeerId) : Prop :=
  (network.monitors node).knownPeers.lookup peerId = some (descriptorOf peerId)

/-- The node is on the way to know the peer. -/
inductive Pending (network : Network) (node peerId : PeerId) : Prop
  | reported (hmem : (node, .established peerId) ∈ network.reports)
  | connected (hmem : (node, .peerConnected peerId) ∈ network.eventsUnderWay)
  | commanded (hmem : (node, .requestDescriptor peerId) ∈ network.commandsUnderWay)
  | asked (hmem : (node, peerId) ∈ network.asked)
  | answering (hmem : (node, peerId) ∈ network.answers)
  | answered (hmem :
      (node, .descriptorReceived peerId (descriptorOf peerId)) ∈ network.eventsUnderWay)

/-- The monitors know nothing wrong, and a node knows the peers it is connected to or is on the way
to, unless a request of it got lost or the answer would exceed its cap. -/
structure Forming (network : Network) : Prop where
  truthful : ∀ entry ∈ network.eventsUnderWay, Truthful (Announces forms descriptorOf) entry.2
  knowing : ∀ node, Knowing (Announces forms descriptorOf) (network.monitors node)
  progress : ∀ node peerId, s(node, peerId) ∈ network.connections → (node, peerId) ∉ network.lost →
    FitsAnswer forms (descriptorOf peerId) →
      Knows descriptorOf network node peerId ∨ Pending descriptorOf network node peerId

variable {forms descriptorOf} {primitives : Primitives} {text : SerdeReader}

theorem forming_started (stores : PeerId → LocalObjectStore) :
    Forming forms descriptorOf (started stores) where
  truthful _ hmem := by cases hmem
  knowing node := knowing_empty (stores node)
  progress _ _ hconnection := by cases hconnection

/-- What stays under way keeps a node on its way. -/
theorem Pending.mono {network next : Network} {node peerId : PeerId}
    (hpending : Pending descriptorOf network node peerId)
    (hreports : network.reports ⊆ next.reports)
    (hevents : network.eventsUnderWay ⊆ next.eventsUnderWay)
    (hcommands : network.commandsUnderWay ⊆ next.commandsUnderWay)
    (hasked : network.asked ⊆ next.asked) (hanswers : network.answers ⊆ next.answers) :
    Pending descriptorOf next node peerId := by
  cases hpending with
  | reported hmem => exact .reported (hreports hmem)
  | connected hmem => exact .connected (hevents hmem)
  | commanded hmem => exact .commanded (hcommands hmem)
  | asked hmem => exact .asked (hasked hmem)
  | answering hmem => exact .answering (hanswers hmem)
  | answered hmem => exact .answered (hevents hmem)

/-- A step that leaves monitors and connections alone and drops nothing keeps the mesh forming. -/
theorem Forming.mono {network next : Network} (hforming : Forming forms descriptorOf network)
    (htruthful : ∀ entry ∈ next.eventsUnderWay, Truthful (Announces forms descriptorOf) entry.2)
    (hmonitors : next.monitors = network.monitors)
    (hconnections : next.connections ⊆ network.connections) (hlost : next.lost = network.lost)
    (hpending : ∀ node peerId, FitsAnswer forms (descriptorOf peerId) →
      Pending descriptorOf network node peerId → Pending descriptorOf next node peerId) :
    Forming forms descriptorOf next := by
  refine ⟨htruthful, ?_, ?_⟩
  · rw [hmonitors]
    exact hforming.knowing
  · intro node peerId hconnection hnot hfits
    rw [hlost] at hnot
    have hbefore := hforming.progress node peerId (hconnections hconnection) hnot hfits
    apply hbefore.imp _ (hpending node peerId hfits)
    intro hknows
    rwa [Knows, hmonitors]

theorem truthful_emitting {network : Network} (hforming : Forming forms descriptorOf network)
    {emitted : List (PeerId × Event)}
    (htruthful : ∀ entry ∈ emitted, Truthful (Announces forms descriptorOf) entry.2) :
    ∀ entry ∈ network.emitting ++ emitted ++ network.events,
      Truthful (Announces forms descriptorOf) entry.2 := by
  intro entry hmem
  rw [List.append_assoc, List.mem_append, List.mem_append] at hmem
  rcases hmem with hbefore | hnew | hqueued
  · exact hforming.truthful entry (List.mem_append_left _ hbefore)
  · exact htruthful entry hnew
  · exact hforming.truthful entry (List.mem_append_right _ hqueued)

theorem subset_emitting {Entry : Type} (earlier emitted later : List Entry) :
    earlier ++ later ⊆ earlier ++ emitted ++ later := by
  rw [List.append_assoc]
  exact List.append_subset.mpr ⟨List.subset_append_left _ _,
    fun entry hmem ↦ List.mem_append_right _ (List.mem_append_right _ hmem)⟩

theorem Forming.establish {network : Network} (hforming : Forming forms descriptorOf network)
    (one other : PeerId) {next : Network}
    (hstep : step primitives text forms descriptorOf network (.establish one other) = some next) :
    Forming forms descriptorOf next := by
  obtain rfl : _ = next := Option.some.inj hstep
  refine ⟨hforming.truthful, hforming.knowing, ?_⟩
  intro node peerId hconnection hlost hfits
  by_cases hpair : (node, peerId) = (one, other) ∨ (node, peerId) = (other, one)
  · right
    rcases hpair with hpair | hpair
    · obtain ⟨rfl, rfl⟩ := Prod.mk.inj hpair
      exact .reported (List.mem_append_right _ List.mem_cons_self)
    · obtain ⟨rfl, rfl⟩ := Prod.mk.inj hpair
      exact .reported (List.mem_append_right _ (List.mem_cons_of_mem _ List.mem_cons_self))
  · rw [not_or] at hpair
    have hbefore : s(node, peerId) ∈ network.connections := by
      rcases List.mem_cons.mp hconnection with hnew | hbefore
      · rcases Sym2.eq_iff.mp hnew with ⟨rfl, rfl⟩ | ⟨rfl, rfl⟩
        · exact absurd rfl hpair.1
        · exact absurd rfl hpair.2
      · exact hbefore
    have hkept : (node, peerId) ∉ network.lost := by
      intro hmem
      exact hlost (List.mem_filter.mpr ⟨hmem, decide_eq_true hpair⟩)
    refine (hforming.progress node peerId hbefore hkept hfits).imp_right fun hpending ↦ ?_
    exact hpending.mono (List.subset_append_left _ _) (List.Subset.refl _) (List.Subset.refl _)
      (List.Subset.refl _) (List.Subset.refl _)

theorem truthful_of_report {node : PeerId} {report : Report} :
    ∀ entry ∈ queued text forms descriptorOf node report.event,
      Truthful (Announces forms descriptorOf) entry.2 := by
  intro entry hmem
  apply truthful_of_not_isAnswer
  cases report <;> rw [List.mem_singleton.mp hmem] <;> rfl

/-- A loop that takes a report tells its monitor of a connection. -/
theorem Forming.takeReport {network : Network} (hforming : Forming forms descriptorOf network)
    (node : PeerId) {next : Network}
    (hstep : step primitives text forms descriptorOf network (.takeReport node) = some next) :
    Forming forms descriptorOf next := by
  obtain ⟨-, hnext⟩ := Option.ite_none_right_eq_some.mp hstep
  obtain ⟨entry, hfound, rfl⟩ := Option.map_eq_some_iff.mp hnext
  refine hforming.mono (truthful_emitting hforming truthful_of_report) rfl (List.Subset.refl _) rfl ?_
  intro other peerId _ hpending
  have hmore := subset_emitting network.emitting
    (queued text forms descriptorOf entry.1 entry.2.event) network.events
  cases hpending with
  | reported hmem =>
    by_cases hentry : (other, Report.established peerId) = entry
    · subst hentry
      refine .connected (List.mem_append_left _ (List.mem_append_right _ ?_))
      exact List.mem_cons_self
    · exact .reported ((List.mem_erase_of_ne hentry).mpr hmem)
  | connected hmem => exact .connected (hmore hmem)
  | commanded hmem => exact .commanded hmem
  | asked hmem => exact .asked hmem
  | answering hmem => exact .answering hmem
  | answered hmem => exact .answered (hmore hmem)

theorem Forming.emit {network : Network} (hforming : Forming forms descriptorOf network)
    (node : PeerId) {next : Network}
    (hstep : step primitives text forms descriptorOf network (.emit node) = some next) :
    Forming forms descriptorOf next := by
  obtain ⟨-, hnext⟩ := Option.ite_none_right_eq_some.mp hstep
  obtain ⟨entry, hfound, rfl⟩ := Option.map_eq_some_iff.mp hnext
  have hmoved := mem_move (mem_of_oldest hfound).1 network.events
  refine hforming.mono ?_ rfl (List.Subset.refl _) rfl ?_
  · exact fun moved hmem ↦ hforming.truthful moved ((hmoved moved).mp hmem)
  · intro other peerId _ hpending
    exact hpending.mono (List.Subset.refl _) (fun moved hmem ↦ (hmoved moved).mpr hmem)
      (List.Subset.refl _) (List.Subset.refl _) (List.Subset.refl _)

theorem Forming.send {network : Network} (hforming : Forming forms descriptorOf network)
    (node : PeerId) {next : Network}
    (hstep : step primitives text forms descriptorOf network (.send node) = some next) :
    Forming forms descriptorOf next := by
  obtain ⟨-, hnext⟩ := Option.ite_none_right_eq_some.mp hstep
  obtain ⟨entry, hfound, rfl⟩ := Option.map_eq_some_iff.mp hnext
  have hmoved := mem_move (mem_of_oldest hfound).1 network.commands
  refine hforming.mono hforming.truthful rfl (List.Subset.refl _) rfl ?_
  intro other peerId _ hpending
  exact hpending.mono (List.Subset.refl _) (List.Subset.refl _)
    (fun moved hmem ↦ (hmoved moved).mpr hmem) (List.Subset.refl _) (List.Subset.refl _)

theorem Forming.handleEvent {network : Network} (hforming : Forming forms descriptorOf network)
    (node : PeerId) (fault : Option WriteFault) (now : Instant) {next : Network}
    (hstep : step primitives text forms descriptorOf network (.handleEvent node fault now) =
      some next) :
    Forming forms descriptorOf next := by
  obtain ⟨-, hnext⟩ := Option.ite_none_right_eq_some.mp hstep
  obtain ⟨⟨owner, event⟩, hfound, rfl⟩ := Option.map_eq_some_iff.mp hnext
  have hmem := (mem_of_oldest hfound).1
  have htruthful : Truthful (Announces forms descriptorOf) event :=
    hforming.truthful _ (List.mem_append_right _ hmem)
  have hkept : ∀ entry, entry ≠ (owner, event) → entry ∈ network.eventsUnderWay →
      entry ∈ network.emitting ++ network.events.erase (owner, event) := by
    intro entry hne hentry
    rcases List.mem_append.mp hentry with hemitting | hqueued
    · exact List.mem_append_left _ hemitting
    · exact List.mem_append_right _ ((List.mem_erase_of_ne hne).mpr hqueued)
  refine ⟨?_, ?_, ?_⟩
  · intro entry hentry
    apply hforming.truthful entry
    rcases List.mem_append.mp hentry with hemitting | hqueued
    · exact List.mem_append_left _ hemitting
    · exact List.mem_append_right _ (List.mem_of_mem_erase hqueued)
  · intro other
    dsimp only
    by_cases hother : other = owner
    · rw [hother, Function.update_self]
      exact (hforming.knowing owner).handleEvent htruthful
    · rw [Function.update_of_ne hother]
      exact hforming.knowing other
  · intro other peerId hconnection hlost hfits
    rcases hforming.progress other peerId hconnection hlost hfits with hknows | hpending
    · left
      dsimp only [Knows] at hknows ⊢
      by_cases hother : other = owner
      · rw [hother] at hknows
        rw [hother, Function.update_self]
        exact lookup_handleEvent hknows (fun _ hannounces ↦ hannounces.1) htruthful
      · rwa [Function.update_of_ne hother]
    · cases hpending with
      | reported hreported => exact Or.inr (.reported hreported)
      | connected hconnected =>
        right
        by_cases hentry : (other, Event.peerConnected peerId) = (owner, event)
        · obtain ⟨rfl, rfl⟩ := Prod.mk.inj hentry
          refine .commanded (List.mem_append_left _ (List.mem_append_right _ ?_))
          exact List.mem_cons_self
        · exact .connected (hkept _ hentry hconnected)
      | commanded hcommanded =>
        right
        exact .commanded (subset_emitting _ _ _ hcommanded)
      | asked hasked => exact Or.inr (.asked hasked)
      | answering hanswering => exact Or.inr (.answering hanswering)
      | answered hanswered =>
        by_cases hentry : (other, Event.descriptorReceived peerId (descriptorOf peerId)) =
            (owner, event)
        · left
          obtain ⟨rfl, rfl⟩ := Prod.mk.inj hentry
          dsimp only [Knows]
          rw [Function.update_self, EventMonitor.handleEvent, Finmap.lookup_insert]
        · exact Or.inr (.answered (hkept _ hentry hanswered))

theorem Forming.handleCommand {network : Network} (hforming : Forming forms descriptorOf network)
    (node : PeerId) {next : Network}
    (hstep : step primitives text forms descriptorOf network (.handleCommand node) = some next) :
    Forming forms descriptorOf next := by
  obtain ⟨-, hnext⟩ := Option.ite_none_right_eq_some.mp hstep
  obtain ⟨⟨owner, command⟩, hfound, rfl⟩ := Option.map_eq_some_iff.mp hnext
  refine hforming.mono hforming.truthful rfl (List.Subset.refl _) rfl ?_
  intro other peerId _ hpending
  cases hpending with
  | commanded hmem =>
    by_cases hentry : (other, SwarmCommand.requestDescriptor peerId) = (owner, command)
    · obtain ⟨rfl, rfl⟩ := Prod.mk.inj hentry
      exact .asked (List.mem_append_right _ List.mem_cons_self)
    · refine .commanded ?_
      rcases List.mem_append.mp hmem with hsending | hqueued
      · exact List.mem_append_left _ hsending
      · exact List.mem_append_right _ ((List.mem_erase_of_ne hentry).mpr hqueued)
  | asked hmem =>
    refine .asked ?_
    dsimp only
    split
    · exact List.mem_append_left _ hmem
    · exact hmem
  | reported hmem => exact .reported hmem
  | connected hmem => exact .connected hmem
  | answering hmem => exact .answering hmem
  | answered hmem => exact .answered hmem

theorem Forming.answer {network : Network} (hforming : Forming forms descriptorOf network)
    (asker answerer : PeerId) {next : Network}
    (hstep : step primitives text forms descriptorOf network (.answer asker answerer) = some next) :
    Forming forms descriptorOf next := by
  obtain ⟨-, hnext⟩ := Option.ite_none_right_eq_some.mp hstep
  obtain rfl : _ = next := Option.some.inj hnext
  have hmore := subset_emitting network.emitting [(answerer, Event.descriptorSent asker)]
    network.events
  refine hforming.mono ?_ rfl (List.Subset.refl _) rfl ?_
  · apply truthful_emitting hforming
    intro entry hmem
    rw [List.mem_singleton.mp hmem]
    exact truthful_of_not_isAnswer rfl
  · intro node peerId _ hpending
    cases hpending with
    | reported hmem => exact .reported hmem
    | connected hmem => exact .connected (hmore hmem)
    | commanded hmem => exact .commanded hmem
    | asked hmem =>
      by_cases hpair : (node, peerId) = (asker, answerer)
      · exact .answering (List.mem_append_right _ (List.mem_singleton.mpr hpair))
      · exact .asked ((List.mem_erase_of_ne hpair).mpr hmem)
    | answering hmem => exact .answering (List.mem_append_left _ hmem)
    | answered hmem => exact .answered (hmore hmem)

/-- The answer brings the descriptor of the peer, if it keeps to the cap. -/
theorem requestDescriptor_context (hall : AllReadable text forms descriptorOf)
    (asker answerer : PeerId) :
    requestDescriptor text forms (context text forms descriptorOf asker)
        (context text forms descriptorOf answerer) =
      if FitsAnswer forms (descriptorOf answerer) then
        [.descriptorReceived answerer (descriptorOf answerer)]
      else [] :=
  requestDescriptor_eq (hall.request asker) (hall.descriptor answerer)

theorem Forming.receive {network : Network} (hforming : Forming forms descriptorOf network)
    (hall : AllReadable text forms descriptorOf) (asker answerer : PeerId) {next : Network}
    (hstep : step primitives text forms descriptorOf network (.receive asker answerer) =
      some next) :
    Forming forms descriptorOf next := by
  obtain ⟨-, hnext⟩ := Option.ite_none_right_eq_some.mp hstep
  rw [requestDescriptor_context hall] at hnext
  obtain rfl : _ = next := Option.some.inj hnext
  refine hforming.mono ?_ rfl (List.Subset.refl _) rfl ?_
  · apply truthful_emitting hforming
    intro entry hmem
    split_ifs at hmem with hfits
    · rw [List.mem_singleton.mp hmem]
      rintro peerId descriptor hevent
      obtain ⟨rfl, rfl⟩ := Event.descriptorReceived.inj hevent
      exact ⟨rfl, hfits⟩
    · cases hmem
  · intro node peerId hfits hpending
    cases hpending with
    | reported hmem => exact .reported hmem
    | connected hmem => exact .connected (subset_emitting _ _ _ hmem)
    | commanded hmem => exact .commanded hmem
    | asked hmem => exact .asked hmem
    | answering hmem =>
      by_cases hpair : (node, peerId) = (asker, answerer)
      · obtain ⟨rfl, rfl⟩ := Prod.mk.inj hpair
        refine .answered (List.mem_append_left _ (List.mem_append_right _ ?_))
        rw [if_pos hfits]
        exact List.mem_cons_self
      · exact .answering ((List.mem_erase_of_ne hpair).mpr hmem)
    | answered hmem => exact .answered (subset_emitting _ _ _ hmem)

/-- A request or an answer that gets lost stands among the lost ones. -/
theorem Forming.lose {network : Network} (hforming : Forming forms descriptorOf network)
    (asker answerer : PeerId) {next : Network}
    (hstep : step primitives text forms descriptorOf network (.lose asker answerer) = some next) :
    Forming forms descriptorOf next := by
  have hlose : next.monitors = network.monitors ∧ next.reports = network.reports ∧
      next.eventsUnderWay = network.eventsUnderWay ∧
      next.commandsUnderWay = network.commandsUnderWay ∧
      next.connections = network.connections ∧ next.lost = (asker, answerer) :: network.lost ∧
      (∀ pair, pair ≠ (asker, answerer) → pair ∈ network.asked → pair ∈ next.asked) ∧
      ∀ pair, pair ≠ (asker, answerer) → pair ∈ network.answers → pair ∈ next.answers := by
    rw [step] at hstep
    split_ifs at hstep
    · obtain rfl : _ = next := Option.some.inj hstep
      exact ⟨rfl, rfl, rfl, rfl, rfl, rfl,
        fun pair hne hmem ↦ (List.mem_erase_of_ne hne).mpr hmem, fun _ _ hmem ↦ hmem⟩
    · obtain rfl : _ = next := Option.some.inj hstep
      exact ⟨rfl, rfl, rfl, rfl, rfl, rfl, fun _ _ hmem ↦ hmem,
        fun pair hne hmem ↦ (List.mem_erase_of_ne hne).mpr hmem⟩
  obtain ⟨hmonitors, hreports, hevents, hcommands, hconnections, hlost, hasked, hanswers⟩ := hlose
  refine ⟨?_, ?_, ?_⟩
  · rw [hevents]
    exact hforming.truthful
  · rw [hmonitors]
    exact hforming.knowing
  · intro node peerId hconnection hnot hfits
    rw [hlost, List.mem_cons, not_or] at hnot
    rw [hconnections] at hconnection
    rcases hforming.progress node peerId hconnection hnot.2 hfits with hknows | hpending
    · left
      rwa [Knows, hmonitors]
    · right
      cases hpending with
      | reported hmem => exact .reported (hreports ▸ hmem)
      | connected hmem => exact .connected (hevents ▸ hmem)
      | commanded hmem => exact .commanded (hcommands ▸ hmem)
      | asked hmem => exact .asked (hasked _ hnot.1 hmem)
      | answering hmem => exact .answering (hanswers _ hnot.1 hmem)
      | answered hmem => exact .answered (hevents ▸ hmem)

theorem Forming.step {network next : Network} {label : Step}
    (hforming : Forming forms descriptorOf network) (hall : AllReadable text forms descriptorOf)
    (hstep : Mesh.step primitives text forms descriptorOf network label = some next) :
    Forming forms descriptorOf next := by
  cases label with
  | report node event =>
    obtain ⟨⟨-, hother⟩, hnetwork⟩ := Option.ite_none_right_eq_some.mp hstep
    obtain rfl : _ = next := Option.some.inj hnetwork
    have htruthful : ∀ entry ∈ queued text forms descriptorOf node event,
        Truthful (Announces forms descriptorOf) entry.2 :=
      fun entry hmem ↦ truthful_of_not_isAnswer (hother entry hmem)
    refine hforming.mono (truthful_emitting hforming htruthful) rfl (List.Subset.refl _) rfl ?_
    intro one other _ hpending
    exact hpending.mono (List.Subset.refl _) (subset_emitting _ _ _) (List.Subset.refl _)
      (List.Subset.refl _) (List.Subset.refl _)
  | submit node command =>
    obtain ⟨-, hnetwork⟩ := Option.ite_none_right_eq_some.mp hstep
    obtain rfl : _ = next := Option.some.inj hnetwork
    refine hforming.mono hforming.truthful rfl (List.Subset.refl _) rfl ?_
    intro one other _ hpending
    have hmore : network.commandsUnderWay ⊆
        network.sending ++ (network.commands ++ [(node, command)]) := by
      rw [← List.append_assoc]
      exact List.subset_append_left _ _
    exact hpending.mono (List.Subset.refl _) (List.Subset.refl _) hmore (List.Subset.refl _)
      (List.Subset.refl _)
  | dialTick node addrs =>
    obtain ⟨-, hnetwork⟩ := Option.ite_none_right_eq_some.mp hstep
    obtain rfl : _ = next := Option.some.inj hnetwork
    refine hforming.mono hforming.truthful rfl (List.Subset.refl _) rfl ?_
    intro one other _ hpending
    exact hpending.mono (List.Subset.refl _) (List.Subset.refl _) (subset_emitting _ _ _)
      (List.Subset.refl _) (List.Subset.refl _)
  | establish one other => exact hforming.establish one other hstep
  | close one other =>
    obtain ⟨-, hnetwork⟩ := Option.ite_none_right_eq_some.mp hstep
    obtain rfl : _ = next := Option.some.inj hnetwork
    refine hforming.mono hforming.truthful rfl (List.erase_subset) rfl ?_
    intro node peerId _ hpending
    exact hpending.mono (List.subset_append_left _ _) (List.Subset.refl _) (List.Subset.refl _)
      (List.Subset.refl _) (List.Subset.refl _)
  | takeReport node => exact hforming.takeReport node hstep
  | emit node => exact hforming.emit node hstep
  | handleEvent node fault now => exact hforming.handleEvent node fault now hstep
  | send node => exact hforming.send node hstep
  | handleCommand node => exact hforming.handleCommand node hstep
  | answer asker answerer => exact hforming.answer asker answerer hstep
  | receive asker answerer => exact hforming.receive hall asker answerer hstep
  | lose asker answerer => exact hforming.lose asker answerer hstep

/-! ## The bounds of the channels -/

/-- No channel holds more than its capacity. -/
def Bounded (network : Network) : Prop :=
  ∀ node, (network.channels node).Bounded eventCapacity commandCapacity

theorem bounded_started (stores : PeerId → LocalObjectStore) : Bounded (started stores) :=
  fun _ ↦ ⟨Nat.zero_le _, Nat.zero_le _⟩

/-- A channel that is not full takes one entry more. -/
theorem length_ofNode_push_le {Entry : Type} {entries : List (PeerId × Entry)} {capacity : ℕ}
    {entry : PeerId × Entry} (hroom : (ofNode entry.1 entries).length < capacity)
    {node : PeerId} (hbounded : (ofNode node entries).length ≤ capacity) :
    (ofNode node (entries ++ [entry])).length ≤ capacity := by
  rw [ofNode_append, List.length_append, length_ofNode_singleton]
  split_ifs with hsame
  · rw [← hsame]
    exact hroom
  · exact hbounded

theorem Bounded.step {network next : Network} {label : Step} (hbounded : Bounded network)
    (hstep : Mesh.step primitives text forms descriptorOf network label = some next) :
    Bounded next := by
  cases label with
  | submit node command =>
    obtain ⟨hroom, hnetwork⟩ := Option.ite_none_right_eq_some.mp hstep
    obtain rfl : _ = next := Option.some.inj hnetwork
    exact fun other ↦ ⟨(hbounded other).items,
      @length_ofNode_push_le _ network.commands _ (node, command) hroom _
        (hbounded other).replies⟩
  | emit node =>
    obtain ⟨hroom, hnext⟩ := Option.ite_none_right_eq_some.mp hstep
    obtain ⟨entry, hfound, rfl⟩ := Option.map_eq_some_iff.mp hnext
    rw [← (mem_of_oldest hfound).2] at hroom
    exact fun other ↦ ⟨length_ofNode_push_le hroom (hbounded other).items,
      (hbounded other).replies⟩
  | handleEvent node fault now =>
    obtain ⟨-, hnext⟩ := Option.ite_none_right_eq_some.mp hstep
    obtain ⟨entry, hfound, rfl⟩ := Option.map_eq_some_iff.mp hnext
    exact fun other ↦ ⟨(length_ofNode_erase_le other entry).trans (hbounded other).items,
      (hbounded other).replies⟩
  | send node =>
    obtain ⟨hroom, hnext⟩ := Option.ite_none_right_eq_some.mp hstep
    obtain ⟨entry, hfound, rfl⟩ := Option.map_eq_some_iff.mp hnext
    rw [← (mem_of_oldest hfound).2] at hroom
    exact fun other ↦ ⟨(hbounded other).items,
      length_ofNode_push_le hroom (hbounded other).replies⟩
  | handleCommand node =>
    obtain ⟨-, hnext⟩ := Option.ite_none_right_eq_some.mp hstep
    obtain ⟨entry, hfound, rfl⟩ := Option.map_eq_some_iff.mp hnext
    exact fun other ↦ ⟨(hbounded other).items,
      (length_ofNode_erase_le other entry).trans (hbounded other).replies⟩
  | establish one other =>
    obtain rfl : _ = next := Option.some.inj hstep
    exact fun node ↦ ⟨(hbounded node).items, (hbounded node).replies⟩
  | takeReport node =>
    obtain ⟨-, hnext⟩ := Option.ite_none_right_eq_some.mp hstep
    obtain ⟨entry, -, rfl⟩ := Option.map_eq_some_iff.mp hnext
    exact fun other ↦ ⟨(hbounded other).items, (hbounded other).replies⟩
  | lose asker answerer =>
    rw [Mesh.step] at hstep
    split_ifs at hstep <;> obtain rfl : _ = next := Option.some.inj hstep
    all_goals exact fun node ↦ ⟨(hbounded node).items, (hbounded node).replies⟩
  | _ =>
    obtain ⟨-, hnetwork⟩ := Option.ite_none_right_eq_some.mp hstep
    obtain rfl : _ = next := Option.some.inj hnetwork
    exact fun node ↦ ⟨(hbounded node).items, (hbounded node).replies⟩

end Invariant

/-! ## How much is left to do -/

/-- How many steps an event in a channel takes with everything that follows from it, at most. -/
def eventWeight : Event → ℕ
  | .peerConnected _ => 9
  | .peerDiscovered _ _ | .connectionClosed _ => 3
  | _ => 1

def commandWeight : SwarmCommand → ℕ
  | .requestDescriptor _ => 7
  | _ => 1

def reportWeight : Report → ℕ
  | .established _ => 11
  | .closed _ => 5

def total {Entry : Type} (entryWeight : Entry → ℕ) (entries : List (PeerId × Entry)) : ℕ :=
  (entries.map fun entry ↦ entryWeight entry.2).sum

/-- How many steps it takes at most until nothing is queued or on its way. -/
def weight (network : Network) : ℕ :=
  total reportWeight network.reports + total (eventWeight · + 1) network.emitting +
    total eventWeight network.events + total (commandWeight · + 1) network.sending +
    total commandWeight network.commands + 6 * network.asked.length + 3 * network.answers.length

section Weight

variable {primitives : Primitives} {text : SerdeReader} {forms : TextForms}
  {descriptorOf : PeerId → NodeDescriptor} {Entry : Type} {entryWeight : Entry → ℕ}

theorem total_append (earlier later : List (PeerId × Entry)) :
    total entryWeight (earlier ++ later) =
      total entryWeight earlier + total entryWeight later := by
  rw [total, List.map_append, List.sum_append]
  rfl

theorem total_singleton (entry : PeerId × Entry) :
    total entryWeight [entry] = entryWeight entry.2 := Nat.add_zero _

theorem total_map (node : PeerId) (held : List Entry) :
    total entryWeight (held.map (Prod.mk node)) = (held.map entryWeight).sum := by
  rw [total, List.map_map]
  rfl

theorem total_erase [DecidableEq Entry] (entryWeight : Entry → ℕ)
    {entries : List (PeerId × Entry)} {entry : PeerId × Entry} (hmem : entry ∈ entries) :
    total entryWeight entries = entryWeight entry.2 + total entryWeight (entries.erase entry) := by
  rw [total, ((List.perm_cons_erase hmem).map _).sum_eq, List.map_cons, List.sum_cons]
  rfl

theorem commandWeight_pos (command : SwarmCommand) : 0 < commandWeight command := by
  cases command <;> simp [commandWeight]

variable (primitives) in
/-- The commands that an event leads to weigh less than the event, also before they are sent. -/
theorem sum_commandWeight_lt (fault : Option WriteFault) (now : Instant) (monitor : EventMonitor)
    (event : Event) :
    ((monitor.handleEvent primitives fault now event).2.commands.map (commandWeight · + 1)).sum <
      eventWeight event := by
  cases event with
  | connectionClosed peerId =>
    simp only [EventMonitor.handleEvent, List.map_map]
    cases monitor.peerAddrs.lookup peerId <;> simp [eventWeight, commandWeight]
  | _ => simp [EventMonitor.handleEvent, eventWeight, commandWeight]

variable (text forms descriptorOf) in
/-- What a loop emits about a report weighs less than the report. -/
theorem total_queued_lt (node : PeerId) (report : Report) :
    total (eventWeight · + 1) (queued text forms descriptorOf node report.event) <
      reportWeight report := by
  cases report <;> simp [queued, Report.event, SwarmContext.handleSwarmEvent, total, eventWeight,
    reportWeight]

theorem weight_step_lt (hall : AllReadable text forms descriptorOf) {network next : Network}
    {label : Step} (hinternal : label.Internal)
    (hstep : step primitives text forms descriptorOf network label = some next) :
    weight next < weight network := by
  cases label with
  | report node event => exact hinternal.elim
  | submit node command => exact hinternal.elim
  | dialTick node addrs => exact hinternal.elim
  | establish one other => exact hinternal.elim
  | close one other => exact hinternal.elim
  | takeReport node =>
    obtain ⟨-, hnext⟩ := Option.ite_none_right_eq_some.mp hstep
    obtain ⟨entry, hfound, rfl⟩ := Option.map_eq_some_iff.mp hnext
    have hsplit := total_erase reportWeight (mem_of_oldest hfound).1
    have hless := total_queued_lt text forms descriptorOf entry.1 entry.2
    simp only [weight, total_append]
    omega
  | emit node =>
    obtain ⟨-, hnext⟩ := Option.ite_none_right_eq_some.mp hstep
    obtain ⟨entry, hfound, rfl⟩ := Option.map_eq_some_iff.mp hnext
    have hsplit := total_erase (eventWeight · + 1) (mem_of_oldest hfound).1
    simp only [weight, total_append, total_singleton]
    omega
  | handleEvent node fault now =>
    obtain ⟨-, hnext⟩ := Option.ite_none_right_eq_some.mp hstep
    obtain ⟨entry, hfound, rfl⟩ := Option.map_eq_some_iff.mp hnext
    have hsplit := total_erase eventWeight (mem_of_oldest hfound).1
    have hless := sum_commandWeight_lt primitives fault now (network.monitors entry.1) entry.2
    simp only [weight, total_append, total_map]
    omega
  | send node =>
    obtain ⟨-, hnext⟩ := Option.ite_none_right_eq_some.mp hstep
    obtain ⟨entry, hfound, rfl⟩ := Option.map_eq_some_iff.mp hnext
    have hsplit := total_erase (commandWeight · + 1) (mem_of_oldest hfound).1
    simp only [weight, total_append, total_singleton]
    omega
  | handleCommand node =>
    obtain ⟨-, hnext⟩ := Option.ite_none_right_eq_some.mp hstep
    obtain ⟨⟨owner, command⟩, hfound, rfl⟩ := Option.map_eq_some_iff.mp hnext
    have hsplit := total_erase commandWeight (mem_of_oldest hfound).1
    have hpositive := commandWeight_pos command
    simp only [weight]
    cases command with
    | requestDescriptor peerId =>
      have hseven : commandWeight (.requestDescriptor peerId) = 7 := rfl
      simp only [List.length_append, List.length_singleton] at hsplit ⊢
      omega
    | _ =>
      dsimp only at hsplit ⊢
      omega
  | answer asker answerer =>
    obtain ⟨⟨hmem, -⟩, hnetwork⟩ := Option.ite_none_right_eq_some.mp hstep
    obtain rfl : _ = next := Option.some.inj hnetwork
    have hlength := List.length_erase_of_mem hmem
    have hpositive := List.length_pos_of_mem hmem
    have hsent : eventWeight (.descriptorSent asker) = 1 := rfl
    simp only [weight, total_append, total_singleton, List.length_append, List.length_singleton]
    omega
  | receive asker answerer =>
    obtain ⟨⟨hmem, -⟩, hnetwork⟩ := Option.ite_none_right_eq_some.mp hstep
    rw [requestDescriptor_context hall] at hnetwork
    obtain rfl : _ = next := Option.some.inj hnetwork
    have hlength := List.length_erase_of_mem hmem
    have hpositive := List.length_pos_of_mem hmem
    simp only [weight, total_append, total_map]
    split_ifs <;> simp [eventWeight] <;> omega
  | lose asker answerer =>
    rw [step] at hstep
    split_ifs at hstep with hasked hanswers
    · obtain rfl : _ = next := Option.some.inj hstep
      have hlength := List.length_erase_of_mem hasked
      have hpositive := List.length_pos_of_mem hasked
      simp only [weight]
      omega
    · obtain rfl : _ = next := Option.some.inj hstep
      have hlength := List.length_erase_of_mem hanswers
      have hpositive := List.length_pos_of_mem hanswers
      simp only [weight]
      omega

/-- A node with something in its channels, or waiting for room in them, can go on, unless its loop
and its monitor wait for each other. -/
theorem exists_step_of_channels {network : Network} (hbounded : Bounded network) {node : PeerId}
    (hlive : ¬ Deadlocked network node)
    (hbusy : (network.channels node).items ≠ [] ∨ (network.channels node).replies ≠ [] ∨
      (network.channels node).emitting ≠ [] ∨ (network.channels node).sending ≠ []) :
    ∃ label : Step, label.Internal ∧ (∀ asker answerer, label ≠ .lose asker answerer) ∧
      (step primitives text forms descriptorOf network label).isSome := by
  have hroom := hbounded node
  -- one of the four moves is possible
  have hmove : (network.channels node).emitting ≠ [] ∧
        (network.channels node).items.length < eventCapacity ∨
      (network.channels node).sending ≠ [] ∧
        (network.channels node).replies.length < commandCapacity ∨
      (network.channels node).items ≠ [] ∧ (network.channels node).sending = [] ∨
      (network.channels node).replies ≠ [] ∧ (network.channels node).emitting = [] := by
    by_contra hnone
    simp only [not_or, not_and, Nat.not_lt] at hnone
    obtain ⟨hemit, hsend, hevent, hcommand⟩ := hnone
    by_cases hemitting : (network.channels node).emitting = []
    · have hreplies : (network.channels node).replies = [] := by
        by_contra hreplies
        exact hcommand hreplies hemitting
      have hsending : (network.channels node).sending = [] := by
        by_contra hsending
        have hfull := hsend hsending
        rw [hreplies] at hfull
        exact absurd hfull (by decide)
      have hitems : (network.channels node).items = [] := by
        by_contra hitems
        exact hevent hitems hsending
      simp only [hitems, hreplies, hemitting, hsending, ne_eq, not_true, or_self] at hbusy
    · have hfull := hemit hemitting
      have hitems : (network.channels node).items ≠ [] := by
        intro hempty
        rw [hempty] at hfull
        exact absurd hfull (by decide)
      have hsending := hevent hitems
      exact hlive ⟨hemitting, le_antisymm hroom.items hfull, hsending,
        le_antisymm hroom.replies (hsend hsending)⟩
  rcases hmove with ⟨hsome, hfree⟩ | ⟨hsome, hfree⟩ | ⟨hsome, hidle⟩ | ⟨hsome, hidle⟩
  · obtain ⟨entry, hfound⟩ := exists_oldest hsome
    refine ⟨.emit node, trivial, by simp, ?_⟩
    rw [step, if_pos hfree, hfound]
    rfl
  · obtain ⟨entry, hfound⟩ := exists_oldest hsome
    refine ⟨.send node, trivial, by simp, ?_⟩
    rw [step, if_pos hfree, hfound]
    rfl
  · obtain ⟨entry, hfound⟩ := exists_oldest hsome
    refine ⟨.handleEvent node none 0, trivial, by simp, ?_⟩
    rw [step, if_pos hidle, hfound]
    rfl
  · obtain ⟨entry, hfound⟩ := exists_oldest hsome
    refine ⟨.handleCommand node, trivial, by simp, ?_⟩
    rw [step, if_pos hidle, hfound]
    rfl

/-- As long as something is queued or on its way, a step works it off, unless the loop and the
monitor of a node wait for each other. -/
theorem exists_internal_step {network : Network} (hbounded : Bounded network)
    (hlive : ∀ node, ¬ Deadlocked network node) (hbusy : ¬ Quiet network) :
    ∃ label : Step, label.Internal ∧ (∀ asker answerer, label ≠ .lose asker answerer) ∧
      (step primitives text forms descriptorOf network label).isSome := by
  by_cases hchannels : ∃ node, (network.channels node).items ≠ [] ∨
      (network.channels node).replies ≠ [] ∨ (network.channels node).emitting ≠ [] ∨
        (network.channels node).sending ≠ []
  · obtain ⟨node, hnode⟩ := hchannels
    exact exists_step_of_channels hbounded (hlive node) hnode
  · have hempty : ∀ node, (network.channels node).items = [] ∧
        (network.channels node).replies = [] ∧ (network.channels node).emitting = [] ∧
          (network.channels node).sending = [] := by
      intro node
      have hnode := not_exists.mp hchannels node
      simpa only [ne_eq, not_or, not_not] using hnode
    cases hreports : network.reports with
    | cons entry rest =>
      have hsome := ofNode_ne_nil (hreports ▸ List.mem_cons_self : entry ∈ network.reports)
      obtain ⟨found, hfound⟩ := exists_oldest hsome
      refine ⟨.takeReport entry.1, trivial, by simp, ?_⟩
      rw [step, if_pos (hempty entry.1).2.2.1, hfound]
      rfl
    | nil =>
      cases hasked : network.asked with
      | cons pair rest =>
        refine ⟨.answer pair.1 pair.2, trivial, by simp, ?_⟩
        rw [step, if_pos ⟨hasked ▸ List.mem_cons_self, (hempty pair.2).2.2.1⟩]
        rfl
      | nil =>
        cases hanswers : network.answers with
        | cons pair rest =>
          refine ⟨.receive pair.1 pair.2, trivial, by simp, ?_⟩
          rw [step, if_pos ⟨hanswers ▸ List.mem_cons_self, (hempty pair.1).2.2.1⟩]
          rfl
        | nil =>
          have hnothing {Other : Type} {entries : List (PeerId × Other)}
              (hall : ∀ node, ofNode node entries = []) : entries = [] := by
            cases entries with
            | nil => rfl
            | cons first rest => exact absurd (hall first.1) (ofNode_ne_nil List.mem_cons_self)
          have hevents : network.eventsUnderWay = [] := by
            rw [Network.eventsUnderWay, hnothing fun node ↦ (hempty node).2.2.1,
              hnothing fun node ↦ (hempty node).1]
            rfl
          have hcommands : network.commandsUnderWay = [] := by
            rw [Network.commandsUnderWay, hnothing fun node ↦ (hempty node).2.2.2,
              hnothing fun node ↦ (hempty node).2.1]
            rfl
          exact absurd ⟨hreports, hevents, hcommands, hasked, hanswers⟩ hbusy

theorem forming_of_run (stores : PeerId → LocalObjectStore)
    (hall : AllReadable text forms descriptorOf) {steps : List Step} {network : Network}
    (hrun : run (step primitives text forms descriptorOf) (started stores) steps =
      some network) : Forming forms descriptorOf network :=
  invariant_of_run (Forming forms descriptorOf)
    (fun _ _ _ hforming hstep ↦ hforming.step hall hstep) (forming_started stores) hrun

theorem bounded_of_run (stores : PeerId → LocalObjectStore) {steps : List Step} {network : Network}
    (hrun : run (step primitives text forms descriptorOf) (started stores) steps =
      some network) : Bounded network :=
  invariant_of_run Bounded (fun _ _ _ hbounded hstep ↦ hbounded.step hstep)
    (bounded_started stores) hrun

/-- When nothing is left to do, a connected peer is known. -/
theorem knows_of_quiet {network : Network} (hforming : Forming forms descriptorOf network)
    (hquiet : Quiet network) {node peerId : PeerId}
    (hconnection : s(node, peerId) ∈ network.connections) (hlost : (node, peerId) ∉ network.lost)
    (hfits : FitsAnswer forms (descriptorOf peerId)) : Knows descriptorOf network node peerId := by
  rcases hforming.progress node peerId hconnection hlost hfits with hknows | hpending
  · exact hknows
  · cases hpending with
    | reported hmem => simp [hquiet.reports] at hmem
    | connected hmem => simp only [hquiet.events, List.not_mem_nil] at hmem
    | commanded hmem => simp only [hquiet.commands, List.not_mem_nil] at hmem
    | asked hmem => simp [hquiet.asked] at hmem
    | answering hmem => simp [hquiet.answers] at hmem
    | answered hmem => simp only [hquiet.events, List.not_mem_nil] at hmem

/-- In every reachable state of the mesh the monitors hold the descriptors of the peers and no
others. Without new connections or traffic nothing is left to do after a bounded number of steps,
unless the loop and the monitor of a node come to wait for each other. Then a node knows every peer
it is connected to, unless the answer exceeds its cap or a request got lost since they connected. If
no other node claims the raft id of the peer, it leads there. -/
theorem connected_nodes_know_each_other (stores : PeerId → LocalObjectStore)
    (hall : AllReadable text forms descriptorOf) {steps : List Step} {network : Network}
    (hrun : run (step primitives text forms descriptorOf) (started stores) steps = some network) :
    (∀ node peerId descriptor,
      (network.monitors node).knownPeers.lookup peerId = some descriptor →
        descriptor = descriptorOf peerId ∧ FitsAnswer forms descriptor) ∧
    (Quiet network → ∀ node peerId, s(node, peerId) ∈ network.connections →
      (node, peerId) ∉ network.lost → FitsAnswer forms (descriptorOf peerId) →
        Knows descriptorOf network node peerId ∧
        ∀ raftId, (descriptorOf peerId).raftId = some raftId →
          (∀ other, (descriptorOf other).raftId = some raftId → other = peerId) →
            (network.monitors node).raftRegistry.lookup raftId = some peerId) ∧
    (∀ labels final, (∀ label ∈ labels, label.Internal) →
      run (step primitives text forms descriptorOf) network labels = some final →
        labels.length + weight final ≤ weight network) ∧
    (¬ Quiet network → (∃ node, Deadlocked network node) ∨ ∃ label : Step, label.Internal ∧
      (∀ asker answerer, label ≠ .lose asker answerer) ∧
        (step primitives text forms descriptorOf network label).isSome) := by
  have hforming := forming_of_run stores hall hrun
  refine ⟨fun node ↦ (hforming.knowing node).known, ?_, ?_, ?_⟩
  · intro hquiet node peerId hconnection hlost hfits
    have hknows := knows_of_quiet hforming hquiet hconnection hlost hfits
    refine ⟨hknows, fun raftId hraftId honly ↦ ?_⟩
    have hmem := (hforming.knowing node).registered peerId _ raftId hknows hraftId
    obtain ⟨claimant, hclaimant⟩ := Option.isSome_iff_exists.mp (Finmap.lookup_isSome.mpr hmem)
    obtain ⟨descriptor, hannounces, hclaimed⟩ :=
      (hforming.knowing node).claimed raftId claimant hclaimant
    rw [hclaimant, honly claimant (hannounces.1 ▸ hclaimed)]
  · intro labels final hinternal hlater
    exact length_add_le_of_lightening (fun _ ↦ True) (fun _ _ _ _ _ ↦ trivial)
      (fun _ _ _ _ hlabel hstep ↦ weight_step_lt hall hlabel hstep) trivial hinternal hlater
  · intro hbusy
    by_cases hlive : ∃ node, Deadlocked network node
    · exact Or.inl hlive
    · exact Or.inr (exists_internal_step (bounded_of_run stores hrun) (not_exists.mp hlive) hbusy)

end Weight

/-! ## Contacts -/

section Contacts

variable {primitives : Primitives} {text : SerdeReader} {forms : TextForms}
  {descriptorOf : PeerId → NodeDescriptor}

/-- A new connection leads to a request for the descriptor of the peer. -/
def asks (asker : PeerId) : List Step :=
  [.takeReport asker, .emit asker, .handleEvent asker none 0, .send asker, .handleCommand asker]

def answers (asker answerer : PeerId) : List Step :=
  [.answer asker answerer, .emit answerer, .handleEvent answerer none 0]

/-- The answer arrives and is kept. -/
def answerArrives (asker answerer : PeerId) : List Step :=
  [.receive asker answerer, .emit asker, .handleEvent asker none 0]

/-- Two nodes connect and come to know each other. -/
def contact (one other : PeerId) : List Step :=
  .establish one other :: (asks one ++ (asks other ++ (answers one other ++ (answers other one ++
    (answerArrives one other ++ answerArrives other one)))))

/-- Nothing lies in the channels of the nodes. -/
def resting (connections : List (Sym2 PeerId)) (monitors : PeerId → EventMonitor)
    (reports : List (PeerId × Report)) (asked answers : List (PeerId × PeerId)) : Network where
  monitors := monitors
  reports := reports
  emitting := []
  events := []
  sending := []
  commands := []
  asked := asked
  answers := answers
  connections := connections
  lost := []

theorem quiet_resting (connections : List (Sym2 PeerId)) (monitors : PeerId → EventMonitor) :
    Quiet (resting connections monitors [] [] []) :=
  ⟨rfl, rfl, rfl, rfl, rfl⟩

variable (connections : List (Sym2 PeerId)) (monitors : PeerId → EventMonitor)
  (reports : List (PeerId × Report)) (asked answered : List (PeerId × PeerId))

theorem run_asks (primitives : Primitives) (text : SerdeReader) (forms : TextForms)
    (descriptorOf : PeerId → NodeDescriptor) (asker answerer : PeerId) :
    ∃ after, run (step primitives text forms descriptorOf)
      (resting connections monitors ((asker, .established answerer) :: reports) asked answered)
      (asks asker) =
        some (resting connections after reports (asked ++ [(asker, answerer)]) answered) := by
  simp [asks, run_cons, run_nil, step, oldest, queued, Network.channels, ofNode, eventCapacity,
    commandCapacity, resting, SwarmContext.handleSwarmEvent, EventMonitor.handleEvent, Report.event]

theorem run_answers (primitives : Primitives) (text : SerdeReader) (forms : TextForms)
    (descriptorOf : PeerId → NodeDescriptor) (asker answerer : PeerId) :
    ∃ after, run (step primitives text forms descriptorOf)
      (resting connections monitors reports ((asker, answerer) :: asked) answered)
      (answers asker answerer) =
        some (resting connections after reports asked (answered ++ [(asker, answerer)])) := by
  simp [answers, run_cons, run_nil, step, oldest, Network.channels, ofNode, eventCapacity, resting,
    EventMonitor.handleEvent]

theorem step_receive (hall : AllReadable text forms descriptorOf) {network : Network}
    {asker answerer : PeerId} (hfits : FitsAnswer forms (descriptorOf answerer))
    (hmem : (asker, answerer) ∈ network.answers)
    (hidle : (network.channels asker).emitting = []) :
    step primitives text forms descriptorOf network (.receive asker answerer) =
      some { network with
        emitting := network.emitting ++
          [(asker, .descriptorReceived answerer (descriptorOf answerer))]
        answers := network.answers.erase (asker, answerer) } := by
  rw [step, if_pos ⟨hmem, hidle⟩, requestDescriptor_context hall, if_pos hfits]
  rfl

theorem run_answerArrives (primitives : Primitives) (hall : AllReadable text forms descriptorOf)
    (asker : PeerId) {answerer : PeerId} (hfits : FitsAnswer forms (descriptorOf answerer)) :
    ∃ after, run (step primitives text forms descriptorOf)
      (resting connections monitors reports asked ((asker, answerer) :: answered))
      (answerArrives asker answerer) =
        some (resting connections after reports asked answered) := by
  have hmem : (asker, answerer) ∈
      (resting connections monitors reports asked ((asker, answerer) :: answered)).answers :=
    List.mem_cons_self
  rw [answerArrives, run_cons, step_receive hall hfits hmem rfl, Option.bind_some]
  simp [run_cons, run_nil, step, oldest, Network.channels, ofNode, eventCapacity, resting,
    EventMonitor.handleEvent]

theorem run_contact (primitives : Primitives) (hall : AllReadable text forms descriptorOf)
    {one other : PeerId} (hone : FitsAnswer forms (descriptorOf one))
    (hother : FitsAnswer forms (descriptorOf other)) :
    ∃ after, run (step primitives text forms descriptorOf)
      (resting connections monitors [] [] []) (contact one other) =
        some (resting (s(one, other) :: connections) after [] [] []) := by
  have hestablish : step primitives text forms descriptorOf
      (resting connections monitors [] [] []) (.establish one other) =
        some (resting (s(one, other) :: connections) monitors
          [(one, .established other), (other, .established one)] [] []) := rfl
  obtain ⟨asking, hasks⟩ := run_asks (s(one, other) :: connections) monitors
    [(other, .established one)] [] [] primitives text forms descriptorOf one other
  obtain ⟨bothAsking, hotherAsks⟩ := run_asks (s(one, other) :: connections) asking []
    [(one, other)] [] primitives text forms descriptorOf other one
  obtain ⟨answering, hanswers⟩ := run_answers (s(one, other) :: connections) bothAsking []
    [(other, one)] [] primitives text forms descriptorOf one other
  obtain ⟨bothAnswering, hotherAnswers⟩ := run_answers (s(one, other) :: connections) answering [] []
    [(one, other)] primitives text forms descriptorOf other one
  obtain ⟨knowing, harrives⟩ := run_answerArrives (s(one, other) :: connections) bothAnswering [] []
    [(other, one)] primitives hall one hother
  obtain ⟨after, hotherArrives⟩ := run_answerArrives (s(one, other) :: connections) knowing [] []
    [] primitives hall other hone
  refine ⟨after, ?_⟩
  rw [contact, run_cons, hestablish, Option.bind_some, run_append, hasks, Option.bind_some,
    run_append, List.nil_append, hotherAsks, Option.bind_some, run_append, List.singleton_append,
    hanswers, Option.bind_some, run_append, List.nil_append, hotherAnswers, Option.bind_some,
    run_append, List.singleton_append, harrives, Option.bind_some, hotherArrives]

end Contacts

theorem connected_nodes_know_each_other_contact :
    let descriptorOf : PeerId → NodeDescriptor := fun _ ↦ plainNode
    ∃ network, run (step tabulated (textOf plainDocuments) plainForms descriptorOf)
        (started fun _ ↦ ⟨[], ∅⟩) (contact ⟨[1]⟩ ⟨[2]⟩) = some network ∧ Quiet network ∧
      Knows descriptorOf network ⟨[1]⟩ ⟨[2]⟩ ∧ Knows descriptorOf network ⟨[2]⟩ ⟨[1]⟩ := by
  intro descriptorOf
  have hall : AllReadable (textOf plainDocuments) plainForms descriptorOf :=
    ⟨fun _ ↦
        readsBack_textOf pairwise_apart_plainDocuments (by simp [plainDocuments, descriptorOf]),
      fun _ ↦ descriptorReadable_plainNode⟩
  have hfits : FitsAnswer plainForms plainNode := by decide +kernel
  obtain ⟨monitors, hrun⟩ : ∃ monitors, run (step tabulated _ plainForms descriptorOf)
      (started fun _ ↦ ⟨[], ∅⟩) (contact ⟨[1]⟩ ⟨[2]⟩) =
        some (resting [s(⟨[1]⟩, ⟨[2]⟩)] monitors [] [] []) :=
    run_contact [] _ tabulated hall hfits hfits
  obtain ⟨-, hknow, -, -⟩ := connected_nodes_know_each_other (fun _ ↦ ⟨[], ∅⟩) hall hrun
  have hquiet := quiet_resting [s(⟨[1]⟩, ⟨[2]⟩)] monitors
  refine ⟨_, hrun, hquiet, ?_, ?_⟩
  · exact (hknow hquiet _ _ (List.mem_singleton_self _) List.not_mem_nil hfits).1
  · exact (hknow hquiet _ _ (by simp [resting, Sym2.eq_swap]) List.not_mem_nil hfits).1

end EdgeOrchestrator.Wire.Mesh

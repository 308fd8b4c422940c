import EdgeOrchestrator.Raft.Network
import EdgeOrchestrator.Wire.Mesh

/-!
# Raft messages between nodes

A raft node hands its messages to the transport, which looks the peer up in the registry that the
monitor fills and queues a command for the swarm. The swarm writes the message as JSON, the loop of
the peer turns it into an event, and the monitor there passes the bytes on to its raft node. Every
accepted message is in one place: in a queue, on its way, received or lost. So none is received
twice or made up, each goes to a peer that announced the raft id, and whether a message is too long
depends on its bytes.
-/

namespace EdgeOrchestrator.Wire.RaftTraffic

open Execution Mesh Node P2P Raft Serde Storage

/-- A raft message between two peers. -/
structure Message where
  sender : PeerId
  receiver : PeerId
  data : Bytes
  deriving DecidableEq

/-- How the receiver hears of a message. -/
def Message.event (message : Message) : PeerId × Event :=
  (message.receiver, .raftMessageReceived message.sender message.data)

/-- The monitors, the command channels, the requests on their way, the queued events and what the
raft nodes received. Beside them stand the accepted messages with the raft ids they were for, the
messages that were lost with a connection and those that were too long. -/
structure Traffic where
  monitors : PeerId → EventMonitor
  commands : PeerId → List SwarmCommand
  flying : List Message
  events : List (PeerId × Event)
  received : List Message
  accepted : List (ℕ × Message)
  lost : List Message
  refused : List Message

inductive Step
  | report (node : PeerId) (event : Event)
  | submit (node : PeerId) (command : SwarmCommand)
  | send (node : PeerId) (message : RaftMessage)
  | handleCommand (node : PeerId)
  | arrive (message : Message)
  | lose (message : Message)
  | handleEvent (node : PeerId) (fault : Option WriteFault) (now : Instant)

section Machine

variable (primitives : Primitives) (text : SerdeReader) (forms : TextForms)
  (descriptorOf : PeerId → NodeDescriptor)

/-- A peer announces its own descriptor. -/
def Own (peerId : PeerId) (descriptor : NodeDescriptor) : Prop := descriptor = descriptorOf peerId

/-- The event is not of the raft traffic, and a descriptor is the one of the peer it comes from. -/
def Admissible : Event → Bool
  | .raftMessageReceived _ _ => false
  | .descriptorReceived peerId descriptor => descriptor = descriptorOf peerId
  | _ => true

def IsRaftCommand : SwarmCommand → Bool
  | .sendRaftMessage _ _ => true
  | _ => false

/-- What handling an event passes on to the raft node. -/
def passedOn (node : PeerId) (output : MonitorOutput) : Event → List Message
  | .raftMessageReceived sender _ => output.raftIncoming.map (Message.mk sender node)
  | _ => []

/-- One step. The registry and the command channel of a node are those of its raft transport. -/
def step (traffic : Traffic) : Step → Option Traffic
  | .report node event =>
    if Admissible descriptorOf event then
      some { traffic with events := traffic.events ++ [(node, event)] }
    else none
  | .submit node command =>
    if IsRaftCommand command then none
    else some { traffic with
      commands := Function.update traffic.commands node (traffic.commands node ++ [command]) }
  | .send node message =>
    let registry := (traffic.monitors node).raftRegistry
    let sent := Libp2pRaftTransport.send ⟨registry, traffic.commands node⟩ message
    some { traffic with
      commands := Function.update traffic.commands node sent.2.swarmCommands
      accepted :=
        match sent.1, registry.lookup message.recipient with
        | .ok (), some peerId =>
          traffic.accepted ++ [(message.recipient, ⟨node, peerId, message.encoded⟩)]
        | _, _ => traffic.accepted }
  | .handleCommand node =>
    match traffic.commands node with
    | [] => none
    | command :: rest =>
      some { traffic with
        commands := Function.update traffic.commands node rest
        flying :=
          match command with
          | .sendRaftMessage peerId data => traffic.flying ++ [⟨node, peerId, data⟩]
          | _ => traffic.flying }
  | .arrive message =>
    if message ∈ traffic.flying then
      match transfer text forms .raftRequest (⟨message.data⟩ : RaftMessageRequest) with
      | .ok request =>
        let event := .raftExchange (.request message.sender request)
        some { traffic with
          flying := traffic.flying.erase message
          events := traffic.events ++
            queued text forms descriptorOf message.receiver (.behaviour event) }
      | .error _ =>
        some { traffic with
          flying := traffic.flying.erase message
          refused := traffic.refused ++ [message] }
    else none
  | .lose message =>
    if message ∈ traffic.flying then
      some { traffic with
        flying := traffic.flying.erase message
        lost := traffic.lost ++ [message] }
    else none
  | .handleEvent node fault now =>
    (traffic.events.find? fun entry ↦ entry.1 = node).map fun entry ↦
      let handled := (traffic.monitors node).handleEvent primitives fault now entry.2
      { traffic with
        monitors := Function.update traffic.monitors node handled.1
        commands := Function.update traffic.commands node
          (traffic.commands node ++ handled.2.commands)
        events := traffic.events.erase entry
        received := traffic.received ++ passedOn node handled.2 entry.2 }

/-- Nodes that were all just started. -/
def started (stores : PeerId → LocalObjectStore) : Traffic where
  monitors node := { cas := { store := stores node } }
  commands _ := []
  flying := []
  events := []
  received := []
  accepted := []
  lost := []
  refused := []

end Machine

/-! ## How long a message may be -/

theorem length_toVec_raftMessageRequest (data : Bytes) :
    (toVec raftMessageRequest ⟨data⟩).length =
      9 + (utf8 (compact ((vec byte).encode data))).length :=
  length_compact_of_one_member (by decide : IsPlainText "data") ((vec byte).encode data)

variable {primitives : Primitives} {text : SerdeReader} {forms : TextForms}
  {descriptorOf : PeerId → NodeDescriptor}

variable (forms) in
/-- The peer gets a message as it was sent, or does not get it. Up to a quarter of the cap it does,
and from half of the cap on it does not. -/
theorem transfer_raftRequest {data : Bytes}
    (hreads : text.ReadsBack (raftMessageRequest.encode ⟨data⟩)) :
    (transfer text forms .raftRequest (⟨data⟩ : RaftMessageRequest) = .ok ⟨data⟩ ∧
        2 * data.length + 10 ≤ 16 * 1024 * 1024) ∨
      ((∃ error, transfer text forms .raftRequest (⟨data⟩ : RaftMessageRequest) = .error error) ∧
        16 * 1024 * 1024 < 4 * data.length + 11) := by
  have hreadable : Readable text forms .raftRequest (⟨data⟩ : RaftMessageRequest) :=
    ⟨⟨fun _ _ ↦ trivial, trivial⟩, hreads⟩
  have hlength : (toVec (message forms .raftRequest) (⟨data⟩ : RaftMessageRequest)).length =
      9 + (utf8 (compact ((vec byte).encode data))).length := length_toVec_raftMessageRequest data
  have hbytes := length_compact_bytes data
  have hcap : MessageKind.raftRequest.maxSize = 16 * 1024 * 1024 := rfl
  rcases Nat.lt_or_ge MessageKind.raftRequest.maxSize
      (toVec (message forms .raftRequest) (⟨data⟩ : RaftMessageRequest)).length with hlong | hfits
  · refine Or.inr ⟨transfer_of_too_long hreadable hlong, ?_⟩
    omega
  · refine Or.inl ⟨transfer_of_fits hreadable hfits, ?_⟩
    omega

/-! ## Where a message is -/

/-- The items with one of them in front of the others. -/
theorem count_eq_of_mem {Item : Type} [BEq Item] [LawfulBEq Item] {items : List Item} {item : Item}
    (hmem : item ∈ items) (other : Item) :
    items.count other = [item].count other + (items.erase item).count other := by
  rw [(List.perm_cons_erase hmem).count_eq, ← List.count_append, List.singleton_append]

theorem count_event (first second : Message) :
    [first.event].count second.event = [first].count second := by
  by_cases hsame : first = second
  · rw [hsame, List.count_singleton_self, List.count_singleton_self]
  · have hevents : first.event ≠ second.event := by
      rcases first with ⟨sender, receiver, data⟩
      rcases second with ⟨otherSender, otherReceiver, otherData⟩
      simp only [Message.event, ne_eq, Prod.mk.injEq, Event.raftMessageReceived.injEq]
      rintro ⟨rfl, rfl, rfl⟩
      exact hsame rfl
    rw [List.count_eq_zero.mpr (by simpa using hevents.symm),
      List.count_eq_zero.mpr (by simpa using Ne.symm hsame)]

/-- An event of other traffic is not how a message is heard of. -/
theorem count_event_eq_zero {node : PeerId} {event : Event}
    (hother : ∀ sender data, event ≠ .raftMessageReceived sender data) (message : Message) :
    [(node, event)].count message.event = 0 := by
  rw [List.count_eq_zero, List.mem_singleton]
  intro hsame
  exact hother _ _ (Prod.mk.inj hsame).2.symm

/-- How often the commands of a node are for a message. -/
def addressed (node : PeerId) (commands : List SwarmCommand) (message : Message) : ℕ :=
  if message.sender = node then
    commands.count (.sendRaftMessage message.receiver message.data)
  else 0

theorem addressed_sendRaftMessage (node peerId : PeerId) (data : Bytes) (message : Message) :
    addressed node [.sendRaftMessage peerId data] message =
      [Message.mk node peerId data].count message := by
  rcases message with ⟨sender, receiver, content⟩
  by_cases hsame : Message.mk node peerId data = ⟨sender, receiver, content⟩
  · obtain ⟨rfl, rfl, rfl⟩ := Message.mk.inj hsame
    rw [addressed, if_pos rfl, List.count_singleton_self, List.count_singleton_self]
  · rw [List.count_eq_zero.mpr (by simpa using Ne.symm hsame), addressed]
    split_ifs with hsender
    · rw [List.count_eq_zero, List.mem_singleton]
      intro hcommand
      obtain ⟨rfl, rfl⟩ := SwarmCommand.sendRaftMessage.inj hcommand
      exact hsame (hsender ▸ rfl)
    · rfl

theorem addressed_eq_zero (node : PeerId) {commands : List SwarmCommand}
    (hother : ∀ command ∈ commands, IsRaftCommand command = false) (message : Message) :
    addressed node commands message = 0 := by
  rw [addressed]
  split_ifs
  · rw [List.count_eq_zero]
    intro hmem
    cases hother _ hmem
  · rfl

/-- How often a message waits in the command channel of its sender. -/
def waiting (commands : PeerId → List SwarmCommand) (message : Message) : ℕ :=
  (commands message.sender).count (.sendRaftMessage message.receiver message.data)

theorem waiting_update_append (commands : PeerId → List SwarmCommand) (node : PeerId)
    (more : List SwarmCommand) (message : Message) :
    waiting (Function.update commands node (commands node ++ more)) message =
      waiting commands message + addressed node more message := by
  rw [waiting, waiting, addressed, Function.update_apply]
  split_ifs with hsender
  · rw [List.count_append, hsender]
  · rfl

theorem waiting_of_cons {commands : PeerId → List SwarmCommand} {node : PeerId}
    {command : SwarmCommand} {rest : List SwarmCommand}
    (hcommands : commands node = command :: rest) (message : Message) :
    waiting commands message = addressed node [command] message +
      waiting (Function.update commands node rest) message := by
  rw [waiting, waiting, addressed, Function.update_apply]
  split_ifs with hsender
  · rw [hsender, hcommands, ← List.count_append, List.singleton_append]
  · rw [Nat.zero_add]

/-- How often a message is somewhere. -/
def places (traffic : Traffic) (message : Message) : ℕ :=
  waiting traffic.commands message + traffic.flying.count message +
    traffic.events.count message.event + traffic.received.count message +
      traffic.lost.count message + traffic.refused.count message

variable (primitives) in
/-- A monitor does not command raft messages. -/
theorem handleEvent_commands (fault : Option WriteFault) (now : Instant) (monitor : EventMonitor)
    (event : Event) :
    ∀ command ∈ (monitor.handleEvent primitives fault now event).2.commands,
      IsRaftCommand command = false := by
  intro command hmem
  cases event with
  | connectionClosed peerId =>
    obtain ⟨address, -, rfl⟩ := List.mem_map.mp hmem
    rfl
  | peerDiscovered peerId address =>
    rw [List.mem_singleton.mp hmem]
    rfl
  | peerConnected peerId =>
    rw [List.mem_singleton.mp hmem]
    rfl
  | _ => cases hmem

/-- Every accepted message is in one place, was for the raft id that its receiver announces, and the
events and tables of the monitors are those of the peers. -/
structure Conserving (text : SerdeReader) (forms : TextForms)
    (descriptorOf : PeerId → NodeDescriptor) (traffic : Traffic) : Prop where
  conserved : ∀ message, (traffic.accepted.map Prod.snd).count message = places traffic message
  knowing : ∀ node, Knowing (Own descriptorOf) (traffic.monitors node)
  truthful : ∀ entry ∈ traffic.events, Truthful (Own descriptorOf) entry.2
  announced : ∀ entry ∈ traffic.accepted,
    (descriptorOf entry.2.receiver).raftId = some entry.1
  readable : ∀ entry ∈ traffic.accepted,
    text.ReadsBack (raftMessageRequest.encode ⟨entry.2.data⟩)
  refused : ∀ message ∈ traffic.refused, 16 * 1024 * 1024 < 4 * message.data.length + 11
  heard : ∀ message : Message, message.event ∈ traffic.events →
    2 * message.data.length + 10 ≤ 16 * 1024 * 1024
  received : ∀ message ∈ traffic.received, 2 * message.data.length + 10 ≤ 16 * 1024 * 1024

theorem conserving_started (stores : PeerId → LocalObjectStore) :
    Conserving text forms descriptorOf (started stores) where
  conserved _ := rfl
  knowing node := knowing_empty (stores node)
  truthful _ hmem := by cases hmem
  announced _ hmem := by cases hmem
  readable _ hmem := by cases hmem
  refused _ hmem := by cases hmem
  heard _ hmem := by cases hmem
  received _ hmem := by cases hmem

/-- A message on its way was accepted. -/
theorem Conserving.readable_of_mem_flying {traffic : Traffic}
    (hconserving : Conserving text forms descriptorOf traffic) {message : Message}
    (hmem : message ∈ traffic.flying) :
    text.ReadsBack (raftMessageRequest.encode ⟨message.data⟩) := by
  have hconserved := hconserving.conserved message
  have hflying := List.count_pos_iff.mpr hmem
  have haccepted : message ∈ traffic.accepted.map Prod.snd := by
    rw [← List.count_pos_iff, hconserved, places]
    omega
  obtain ⟨entry, hentry, rfl⟩ := List.mem_map.mp haccepted
  exact hconserving.readable entry hentry

theorem Conserving.report {traffic next : Traffic} {node : PeerId} {event : Event}
    (hconserving : Conserving text forms descriptorOf traffic)
    (hstep : step primitives text forms descriptorOf traffic (.report node event) = some next) :
    Conserving text forms descriptorOf next := by
  obtain ⟨hadmissible, htraffic⟩ := Option.ite_none_right_eq_some.mp hstep
  obtain rfl : _ = next := Option.some.inj htraffic
  have hother : ∀ sender data, event ≠ .raftMessageReceived sender data := by
    rintro sender data rfl
    cases hadmissible
  refine { hconserving with conserved := ?_, truthful := ?_, heard := ?_ }
  · intro message
    have hconserved := hconserving.conserved message
    have hevent : [(node, event)].count message.event = 0 := count_event_eq_zero hother message
    dsimp only [places] at hconserved ⊢
    rw [List.count_append, hevent]
    exact hconserved
  · intro entry hmem
    rcases List.mem_append.mp hmem with hbefore | hnew
    · exact hconserving.truthful entry hbefore
    · rw [List.mem_singleton.mp hnew]
      rintro peerId descriptor rfl
      have hown : descriptor = descriptorOf peerId := of_decide_eq_true hadmissible
      exact hown
  · intro message hmem
    rcases List.mem_append.mp hmem with hbefore | hnew
    · exact hconserving.heard message hbefore
    · exact absurd (Prod.mk.inj (List.mem_singleton.mp hnew)).2.symm (hother _ _)

theorem Conserving.submit {traffic next : Traffic} {node : PeerId} {command : SwarmCommand}
    (hconserving : Conserving text forms descriptorOf traffic)
    (hstep : step primitives text forms descriptorOf traffic (.submit node command) = some next) :
    Conserving text forms descriptorOf next := by
  obtain ⟨hcommand, htraffic⟩ := Option.ite_none_left_eq_some.mp hstep
  obtain rfl : _ = next := Option.some.inj htraffic
  refine { hconserving with conserved := ?_ }
  intro message
  have hconserved := hconserving.conserved message
  have hzero : addressed node [command] message = 0 :=
    addressed_eq_zero node
      (fun other hother ↦ by simpa [List.mem_singleton.mp hother] using hcommand) message
  dsimp only [places] at hconserved ⊢
  rw [waiting_update_append, hzero]
  exact hconserved

theorem Conserving.send {traffic next : Traffic} {node : PeerId} {message : RaftMessage}
    (hconserving : Conserving text forms descriptorOf traffic)
    (hreads : text.ReadsBack (raftMessageRequest.encode ⟨message.encoded⟩))
    (hstep : step primitives text forms descriptorOf traffic (.send node message) = some next) :
    Conserving text forms descriptorOf next := by
  have hunchanged : Function.update traffic.commands node (traffic.commands node) =
      traffic.commands := Function.update_eq_self node traffic.commands
  dsimp only [step, Libp2pRaftTransport.send] at hstep
  cases hpeer : (traffic.monitors node).raftRegistry.lookup message.recipient with
  | none =>
    simp only [hpeer, hunchanged] at hstep
    obtain rfl : traffic = next := Option.some.inj hstep
    exact hconserving
  | some peerId =>
    simp only [hpeer] at hstep
    split_ifs at hstep with hroom
    · obtain rfl : _ = next := Option.some.inj hstep
      refine { hconserving with conserved := ?_, announced := ?_, readable := ?_ }
      · intro other
        have hconserved := hconserving.conserved other
        dsimp only [places] at hconserved ⊢
        rw [waiting_update_append, addressed_sendRaftMessage, List.map_append, List.count_append,
          List.map_singleton]
        dsimp only
        omega
      · intro entry hmem
        rcases List.mem_append.mp hmem with hbefore | hnew
        · exact hconserving.announced entry hbefore
        · rw [List.mem_singleton.mp hnew]
          obtain ⟨descriptor, hown, hraftId⟩ :=
            (hconserving.knowing node).claimed message.recipient peerId hpeer
          exact hown ▸ hraftId
      · intro entry hmem
        rcases List.mem_append.mp hmem with hbefore | hnew
        · exact hconserving.readable entry hbefore
        · rwa [List.mem_singleton.mp hnew]
    · simp only [hunchanged] at hstep
      obtain rfl : traffic = next := Option.some.inj hstep
      exact hconserving

theorem Conserving.handleCommand {traffic next : Traffic} {node : PeerId}
    (hconserving : Conserving text forms descriptorOf traffic)
    (hstep : step primitives text forms descriptorOf traffic (.handleCommand node) = some next) :
    Conserving text forms descriptorOf next := by
  dsimp only [step] at hstep
  cases hcommands : traffic.commands node with
  | nil =>
    rw [hcommands] at hstep
    cases hstep
  | cons command rest =>
    rw [hcommands] at hstep
    obtain rfl : _ = next := Option.some.inj hstep
    refine { hconserving with conserved := ?_ }
    intro message
    have hconserved := hconserving.conserved message
    have hwaiting := waiting_of_cons hcommands message
    dsimp only [places] at hconserved ⊢
    cases command with
    | sendRaftMessage peerId data =>
      rw [addressed_sendRaftMessage] at hwaiting
      dsimp only
      rw [List.count_append]
      omega
    | _ =>
      rw [addressed_eq_zero node (by simp [IsRaftCommand])] at hwaiting
      dsimp only
      omega

theorem Conserving.arrive {traffic next : Traffic} {message : Message}
    (hconserving : Conserving text forms descriptorOf traffic)
    (hstep : step primitives text forms descriptorOf traffic (.arrive message) = some next) :
    Conserving text forms descriptorOf next := by
  obtain ⟨hmem, htraffic⟩ := Option.ite_none_right_eq_some.mp hstep
  have hcount := count_eq_of_mem hmem
  rcases transfer_raftRequest forms (hconserving.readable_of_mem_flying hmem) with
    ⟨hgot, hfits⟩ | ⟨⟨error, hrefused⟩, hlong⟩
  · simp only [hgot] at htraffic
    obtain rfl : _ = next := Option.some.inj htraffic
    have hqueued : queued text forms descriptorOf message.receiver
        (.behaviour (.raftExchange (.request message.sender ⟨message.data⟩))) = [message.event] :=
      rfl
    rw [hqueued]
    refine { hconserving with conserved := ?_, truthful := ?_, heard := ?_ }
    · intro other
      have hconserved := hconserving.conserved other
      have hsplit := hcount other
      dsimp only [places] at hconserved ⊢
      rw [List.count_append, count_event]
      omega
    · intro entry hentry
      rcases List.mem_append.mp hentry with hbefore | hnew
      · exact hconserving.truthful entry hbefore
      · rw [List.mem_singleton.mp hnew]
        exact truthful_of_not_isAnswer rfl
    · intro other hother
      rcases List.mem_append.mp hother with hbefore | hnew
      · exact hconserving.heard other hbefore
      · have hsame := count_event message other
        rw [List.count_eq_one_of_mem (List.nodup_singleton _) hnew] at hsame
        have hone : other ∈ [message] := List.count_pos_iff.mp (by omega)
        rwa [List.mem_singleton.mp hone]
  · simp only [hrefused] at htraffic
    obtain rfl : _ = next := Option.some.inj htraffic
    refine { hconserving with conserved := ?_, refused := ?_ }
    · intro other
      have hconserved := hconserving.conserved other
      have hsplit := hcount other
      dsimp only [places] at hconserved ⊢
      rw [List.count_append]
      omega
    · intro other hother
      rcases List.mem_append.mp hother with hbefore | hnew
      · exact hconserving.refused other hbefore
      · rwa [List.mem_singleton.mp hnew]

theorem Conserving.lose {traffic next : Traffic} {message : Message}
    (hconserving : Conserving text forms descriptorOf traffic)
    (hstep : step primitives text forms descriptorOf traffic (.lose message) = some next) :
    Conserving text forms descriptorOf next := by
  obtain ⟨hmem, htraffic⟩ := Option.ite_none_right_eq_some.mp hstep
  obtain rfl : _ = next := Option.some.inj htraffic
  refine { hconserving with conserved := ?_ }
  intro other
  have hconserved := hconserving.conserved other
  have hsplit := count_eq_of_mem hmem other
  dsimp only [places] at hconserved ⊢
  rw [List.count_append]
  omega

variable (primitives) in
/-- What is passed on to the raft node is how the event was heard of. -/
theorem count_passedOn (fault : Option WriteFault) (now : Instant) (monitor : EventMonitor)
    (node : PeerId) (event : Event) (message : Message) :
    (passedOn node (monitor.handleEvent primitives fault now event).2 event).count message =
      [(node, event)].count message.event := by
  cases event with
  | raftMessageReceived sender data => exact (count_event ⟨sender, node, data⟩ message).symm
  | _ => exact (count_event_eq_zero (fun _ _ hevent ↦ by cases hevent) message).symm

theorem Conserving.handleEvent {traffic next : Traffic} {node : PeerId} {fault : Option WriteFault}
    {now : Instant} (hconserving : Conserving text forms descriptorOf traffic)
    (hstep : step primitives text forms descriptorOf traffic (.handleEvent node fault now) =
      some next) :
    Conserving text forms descriptorOf next := by
  obtain ⟨⟨owner, event⟩, hfound, rfl⟩ := Option.map_eq_some_iff.mp hstep
  have hmem : (owner, event) ∈ traffic.events := List.mem_of_find?_eq_some hfound
  obtain rfl : owner = node := by simpa using List.find?_some hfound
  refine { hconserving with
    conserved := ?_, knowing := ?_, truthful := ?_, heard := ?_, received := ?_ }
  · intro message
    have hconserved := hconserving.conserved message
    have hsplit := count_eq_of_mem hmem message.event
    have hpassed := count_passedOn primitives fault now (traffic.monitors owner)
      owner event message
    have hzero := addressed_eq_zero owner
      (handleEvent_commands primitives fault now (traffic.monitors owner) event)
        message
    dsimp only [places] at hconserved ⊢
    rw [waiting_update_append, hzero, List.count_append]
    omega
  · intro other
    dsimp only
    by_cases hother : other = owner
    · rw [hother, Function.update_self]
      exact (hconserving.knowing owner).handleEvent (hconserving.truthful _ hmem)
    · rw [Function.update_of_ne hother]
      exact hconserving.knowing other
  · intro entry hentry
    exact hconserving.truthful entry (List.mem_of_mem_erase hentry)
  · intro message hmessage
    exact hconserving.heard message (List.mem_of_mem_erase hmessage)
  · intro message hmessage
    rcases List.mem_append.mp hmessage with hbefore | hpassed
    · exact hconserving.received message hbefore
    · have hcount := count_passedOn primitives fault now (traffic.monitors owner)
        owner event message
      have hpositive := List.count_pos_iff.mpr hpassed
      rw [hcount, List.count_pos_iff, List.mem_singleton] at hpositive
      exact hconserving.heard message (hpositive ▸ hmem)

theorem Conserving.step {traffic next : Traffic} {label : Step}
    (hconserving : Conserving text forms descriptorOf traffic)
    (hreads : ∀ node message, label = .send node message →
      text.ReadsBack (raftMessageRequest.encode ⟨message.encoded⟩))
    (hstep : RaftTraffic.step primitives text forms descriptorOf traffic label = some next) :
    Conserving text forms descriptorOf next := by
  cases label with
  | report node event => exact hconserving.report hstep
  | submit node command => exact hconserving.submit hstep
  | send node message => exact hconserving.send (hreads node message rfl) hstep
  | handleCommand node => exact hconserving.handleCommand hstep
  | arrive message => exact hconserving.arrive hstep
  | lose message => exact hconserving.lose hstep
  | handleEvent node fault now => exact hconserving.handleEvent hstep

theorem conserving_of_run {traffic final : Traffic} {steps : List Step}
    (hconserving : Conserving text forms descriptorOf traffic)
    (hreads : ∀ node message, .send node message ∈ steps →
      text.ReadsBack (raftMessageRequest.encode ⟨message.encoded⟩))
    (hrun : run (RaftTraffic.step primitives text forms descriptorOf) traffic steps = some final) :
    Conserving text forms descriptorOf final := by
  induction steps generalizing traffic with
  | nil =>
    obtain rfl : traffic = final := Option.some.inj hrun
    exact hconserving
  | cons label rest ih =>
    obtain ⟨next, hstep, hrest⟩ := (run_cons_eq_some _).mp hrun
    apply ih (hconserving.step ?_ hstep) ?_ hrest
    · rintro node message rfl
      exact hreads node message List.mem_cons_self
    · intro node message hmem
      exact hreads node message (List.mem_cons_of_mem label hmem)

/-- In every reachable state each accepted raft message is in one place, as often as it was
accepted, and its receiver announces the raft id it was for. Only messages of more than about four
MiB are refused for their length, and no message of more than about eight MiB is received. -/
theorem raft_messages_are_conserved (stores : PeerId → LocalObjectStore) {steps : List Step}
    {traffic : Traffic}
    (hreads : ∀ node message, .send node message ∈ steps →
      text.ReadsBack (raftMessageRequest.encode ⟨message.encoded⟩))
    (hrun : run (RaftTraffic.step primitives text forms descriptorOf) (started stores) steps =
      some traffic) :
    (∀ message, (traffic.accepted.map Prod.snd).count message =
      waiting traffic.commands message + traffic.flying.count message +
        traffic.events.count message.event + traffic.received.count message +
          traffic.lost.count message + traffic.refused.count message) ∧
    (∀ entry ∈ traffic.accepted, (descriptorOf entry.2.receiver).raftId = some entry.1) ∧
    (∀ message ∈ traffic.refused, 16 * 1024 * 1024 < 4 * message.data.length + 11) ∧
    ∀ message ∈ traffic.received, 2 * message.data.length + 10 ≤ 16 * 1024 * 1024 := by
  have hconserving := conserving_of_run (conserving_started stores) hreads hrun
  exact ⟨hconserving.conserved, hconserving.announced, hconserving.refused, hconserving.received⟩

/-! ## A message sent twice -/

/-- A request for a vote, as far as its bytes go. -/
def ballot : Bytes := [8, 5, 16, 4]

/-- A ballot is sent twice and gets lost once. -/
def twoBallots : List Step :=
  [.report ⟨[1]⟩ (.descriptorReceived ⟨[2]⟩ plainNode), .handleEvent ⟨[1]⟩ none 0,
    .send ⟨[1]⟩ ⟨4, ballot⟩, .send ⟨[1]⟩ ⟨4, ballot⟩, .handleCommand ⟨[1]⟩, .handleCommand ⟨[1]⟩,
    .lose ⟨⟨[1]⟩, ⟨[2]⟩, ballot⟩, .arrive ⟨⟨[1]⟩, ⟨[2]⟩, ballot⟩, .handleEvent ⟨[2]⟩ none 0]

theorem raft_messages_are_conserved_twoBallots :
    let text := textOf [raftMessageRequest.encode ⟨ballot⟩]
    let message : Message := ⟨⟨[1]⟩, ⟨[2]⟩, ballot⟩
    ∃ traffic, run (step tabulated text plainForms fun _ ↦ plainNode) (started fun _ ↦ ⟨[], ∅⟩)
        twoBallots = some traffic ∧
      traffic.accepted = [(4, message), (4, message)] ∧ traffic.lost = [message] ∧
      traffic.received = [message] ∧
      (∀ message, (traffic.accepted.map Prod.snd).count message =
        waiting traffic.commands message + traffic.flying.count message +
          traffic.events.count message.event + traffic.received.count message +
            traffic.lost.count message + traffic.refused.count message) ∧
      (∀ entry ∈ traffic.accepted, plainNode.raftId = some entry.1) ∧
      (∀ message ∈ traffic.refused, 16 * 1024 * 1024 < 4 * message.data.length + 11) ∧
      ∀ message ∈ traffic.received, 2 * message.data.length + 10 ≤ 16 * 1024 * 1024 := by
  intro text message
  have hreads : text.ReadsBack (raftMessageRequest.encode ⟨ballot⟩) :=
    readsBack_textOf (List.pairwise_singleton Apart _) List.mem_cons_self
  have hgot :
      transfer text plainForms .raftRequest (⟨ballot⟩ : RaftMessageRequest) = .ok ⟨ballot⟩ := by
    rcases transfer_raftRequest plainForms hreads with ⟨hgot, -⟩ | ⟨-, hlong⟩
    · exact hgot
    · exact absurd hlong (by decide)
  obtain ⟨traffic, hrun, haccepted, hlost, hreceived⟩ :
      ∃ traffic, run (step tabulated text plainForms fun _ ↦ plainNode)
        (started fun _ ↦ ⟨[], ∅⟩) twoBallots = some traffic ∧
        traffic.accepted = [(4, message), (4, message)] ∧ traffic.lost = [message] ∧
        traffic.received = [message] := by
    simp [twoBallots, run_cons, step, started, Admissible, EventMonitor.handleEvent, plainNode,
      Libp2pRaftTransport.send, commandCapacity, hgot, queued, SwarmContext.handleSwarmEvent,
      SwarmContext.handleBehaviourEvent, SwarmContext.handleRaftExchange, passedOn, message]
  refine ⟨traffic, hrun, haccepted, hlost, hreceived,
    raft_messages_are_conserved (fun _ ↦ ⟨[], ∅⟩) ?_ hrun⟩
  intro node sent hmem
  simp only [twoBallots, List.mem_cons, List.not_mem_nil, or_false, reduceCtorEq, false_or,
    or_self] at hmem
  obtain ⟨-, rfl⟩ := Step.send.inj hmem
  exact hreads

end EdgeOrchestrator.Wire.RaftTraffic

import EdgeOrchestrator.Foundation.CoupledQueues
import EdgeOrchestrator.Node.EventMonitor
import EdgeOrchestrator.P2P.Swarm

/-!
# Backpressure between the swarm loop and the event monitor

The swarm loop waits for room in the event channel while it forwards the events of one libp2p event.
The event monitor waits for room in the command channel while it answers one event or one dial tick.
Neither takes anything from the other while it waits. The two wait for each other forever once both
channels are full, and the schedule can take them there exactly when both have more under way than
their channels hold.
-/

namespace EdgeOrchestrator.Node.Backpressure

open Execution P2P Storage

/-- The two loops with the event channel and the command channel between them. -/
structure Loops where
  monitor : EventMonitor
  channels : CoupledQueues Event SwarmCommand := {}

inductive LoopAction
  | swarmEvent (event : SwarmEvent)
  | takeCommand
  | takeEvent (fault : Option WriteFault) (now : Instant)
  | dialTick (addrs : List Multiaddr)
  | transfer (move : Transfer)

variable (primitives : Primitives) (context : SwarmContext)

/-- One action of a loop. A dial tick is given the addresses of the discovered peers in the order in
which the map yields them. -/
def step (loops : Loops) : LoopAction → Option Loops
  | .swarmEvent event =>
    (loops.channels.startEmitting (context.handleSwarmEvent event).1).map fun channels ↦
      { loops with channels := channels }
  | .takeCommand =>
    loops.channels.takeReply.map fun taken ↦ { loops with channels := taken.2 }
  | .takeEvent fault now =>
    loops.channels.takeItem.bind fun taken ↦
      let handled := loops.monitor.handleEvent primitives fault now taken.1
      (taken.2.startSending handled.2.commands).map fun channels ↦
        { monitor := handled.1, channels := channels }
  | .dialTick addrs =>
    if (addrs : Multiset Multiaddr) = loops.monitor.discoveredAddrs then
      (loops.channels.startSending (loops.monitor.dialTick addrs)).map fun channels ↦
        { loops with channels := channels }
    else none
  | .transfer move =>
    (loops.channels.transfer eventCapacity commandCapacity move).map fun channels ↦
      { loops with channels := channels }

/-- The batch that an action starts leaves one of the loops with no more under way than its channel
holds. -/
def LeavesRoom (loops : Loops) : LoopAction → Prop
  | .swarmEvent event =>
    loops.channels.items.length + (context.handleSwarmEvent event).1.length ≤ eventCapacity ∨
      loops.channels.replyLoad ≤ commandCapacity
  | .takeEvent fault now =>
    ∀ event rest, loops.channels.items = event :: rest →
      rest.length + loops.channels.emitting.length ≤ eventCapacity ∨
        loops.channels.replies.length +
          (loops.monitor.handleEvent primitives fault now event).2.commands.length ≤ commandCapacity
  | .dialTick addrs =>
    loops.channels.itemLoad ≤ eventCapacity ∨
      loops.channels.replies.length + (loops.monitor.dialTick addrs).length ≤ commandCapacity
  | .takeCommand => True
  | .transfer _ => True

/-- The two loops do not wait for each other, and do not come to wait for each other by going on
with their batches. -/
def NoCircularWait (loops : Loops) : Prop :=
  loops.channels.Safe eventCapacity commandCapacity

/-- The channels keep their bounds and one of the loops fits its channel. -/
structure HasRoom (loops : Loops) : Prop where
  bounded : loops.channels.Bounded eventCapacity commandCapacity
  fits : loops.channels.Fits eventCapacity commandCapacity

variable {primitives context}

/-- An event overloads the monitor only when the command channel is full. -/
theorem leavesRoom_takeEvent {loops : Loops} (fault : Option WriteFault) (now : Instant)
    (hfree : loops.channels.replies.length < commandCapacity) :
    LeavesRoom primitives context loops (.takeEvent fault now) := by
  intro event rest hitems
  have hcommands := loops.monitor.length_handleEvent_commands primitives fault now event
  exact Or.inr (by omega)

theorem noCircularWait_of_hasRoom {loops : Loops} (hroom : HasRoom loops) :
    NoCircularWait loops :=
  (CoupledQueues.safe_iff_fits hroom.bounded).mpr hroom.fits

/-- An action keeps the bounds of the channels, and after it one of the loops still fits its channel
exactly when the action left room. -/
theorem step_spec {loops next : Loops} {action : LoopAction} (hroom : HasRoom loops)
    (hstep : step primitives context loops action = some next) :
    next.channels.Bounded eventCapacity commandCapacity ∧
      (next.channels.Fits eventCapacity commandCapacity ↔
        LeavesRoom primitives context loops action) := by
  cases action with
  | swarmEvent event =>
    obtain ⟨channels, hstart, rfl⟩ := Option.map_eq_some_iff.mp hstep
    obtain ⟨hidle, rfl⟩ := CoupledQueues.startEmitting_eq_some.mp hstart
    exact ⟨⟨hroom.bounded.items, hroom.bounded.replies⟩, Iff.rfl⟩
  | takeCommand =>
    obtain ⟨⟨command, channels⟩, htake, rfl⟩ := Option.map_eq_some_iff.mp hstep
    obtain ⟨hbounded, hitems, hreplies⟩ := CoupledQueues.takeReply_spec htake hroom.bounded
    refine ⟨hbounded, iff_of_true ?_ trivial⟩
    exact hroom.fits.imp (fun hload ↦ hitems.le.trans hload) fun hload ↦ hreplies.trans hload
  | takeEvent fault now =>
    obtain ⟨⟨event, channels⟩, htake, hstart⟩ := Option.bind_eq_some_iff.mp hstep
    obtain ⟨rest, hitems, hidle, rfl⟩ := CoupledQueues.takeItem_eq_some.mp htake
    obtain ⟨channels, hsending, rfl⟩ := Option.map_eq_some_iff.mp hstart
    obtain ⟨-, rfl⟩ := CoupledQueues.startSending_eq_some.mp hsending
    have hbound := hroom.bounded.items
    rw [hitems, List.length_cons] at hbound
    refine ⟨⟨Nat.le_of_succ_le hbound, hroom.bounded.replies⟩, ?_⟩
    constructor
    · intro hfits other others hother
      obtain ⟨rfl, rfl⟩ := List.cons.inj (hitems.symm.trans hother)
      exact hfits
    · intro hleaves
      exact hleaves event rest hitems
  | dialTick addrs =>
    rw [step, Option.ite_none_right_eq_some] at hstep
    obtain ⟨channels, hstart, rfl⟩ := Option.map_eq_some_iff.mp hstep.2
    obtain ⟨hidle, rfl⟩ := CoupledQueues.startSending_eq_some.mp hstart
    exact ⟨⟨hroom.bounded.items, hroom.bounded.replies⟩, Iff.rfl⟩
  | transfer move =>
    obtain ⟨channels, hmove, rfl⟩ := Option.map_eq_some_iff.mp hstep
    have hkept := (CoupledQueues.transfer_spec hmove).2.2 hroom.bounded
    exact ⟨hkept, iff_of_true ((CoupledQueues.fits_transfer_iff hmove).mpr hroom.fits) trivial⟩

theorem hasRoom_start (monitor : EventMonitor) : HasRoom { monitor := monitor } :=
  ⟨⟨Nat.zero_le _, Nat.zero_le _⟩, Or.inl (Nat.zero_le _)⟩

/-- From empty channels, no state reached leads the two loops into a circular wait exactly when every
batch that a loop starts leaves room. -/
theorem noCircularWait_throughout_iff (primitives : Primitives) (context : SwarmContext)
    (monitor : EventMonitor) (actions : List LoopAction) :
    Throughout (step primitives context) NoCircularWait { monitor := monitor } actions ↔
      Guarded (step primitives context) (LeavesRoom primitives context) { monitor := monitor }
        actions := by
  apply throughout_iff_guarded HasRoom
  · intro loops hroom
    exact noCircularWait_of_hasRoom hroom
  · intro loops action next hroom hleaves hstep
    obtain ⟨hbounded, hfits⟩ := step_spec hroom hstep
    exact ⟨hbounded, hfits.mpr hleaves⟩
  · intro loops action next hroom hstep hnext
    obtain ⟨hbounded, hfits⟩ := step_spec hroom hstep
    exact hfits.mp ((CoupledQueues.safe_iff_fits hbounded).mp hnext)
  · exact hasRoom_start monitor

/-- Once the loops wait for each other, no action of either is enabled: the node is dead for every
protocol. -/
theorem step_eq_none_of_circularWait {loops : Loops}
    (hwait : loops.channels.CircularWait eventCapacity commandCapacity) (action : LoopAction) :
    step primitives context loops action = none := by
  obtain ⟨htransfer, hemitting, hsending, hreply, hitem⟩ := hwait.stuck
  cases action with
  | swarmEvent event => rw [step, hemitting, Option.map_none]
  | takeCommand => rw [step, hreply, Option.map_none]
  | takeEvent fault now => rw [step, hitem, Option.bind_none]
  | dialTick addrs => rw [step, hsending, Option.map_none, ite_self]
  | transfer move => rw [step, htransfer, Option.map_none]

/-- Transfers of the channels are actions of the loops. -/
theorem run_transfers {loops : Loops} {reached : CoupledQueues Event SwarmCommand}
    {moves : List Transfer}
    (hrun : run (CoupledQueues.transfer eventCapacity commandCapacity) loops.channels moves =
      some reached) :
    run (step primitives context) loops (moves.map .transfer) =
      some { loops with channels := reached } := by
  induction moves generalizing loops with
  | nil =>
    obtain rfl : loops.channels = reached := by simpa using hrun
    rfl
  | cons move rest ih =>
    obtain ⟨channels, hmove, hrest⟩ := (run_cons_eq_some _).mp hrun
    let next : Loops := { loops with channels := channels }
    have hstep : step primitives context loops (.transfer move) = some next := by
      rw [step, hmove, Option.map_some]
    rw [List.map_cons, run_cons, hstep, Option.bind_some]
    exact ih hrest

/-- A node that knows one address of each of sixty-five bootstrap peers. -/
def manyBootstrapPeers : EventMonitor where
  bootstrapAddrs := (List.range 65).map fun host ↦
    { text := "/ip4/10.0.0." ++ toString host ++ "/tcp/4001" }
  cas := { store := ⟨[], ∅⟩ }

/-- A node that decodes no descriptor and serves no blob. -/
def plainContext : SwarmContext where
  selfPeerId := { multihash := [] }
  selfDescriptor :=
    { nodeId := 0, nodeType := .light, os := .linux, capabilities := {},
      advertisedAddresses := [], currentAssignedRoles := [], startedAt := ⟨0⟩, raftId := none }
  descriptorToJson := fun _ ↦ none
  descriptorOfJson := fun _ ↦ none

/-- An mDNS batch of 257 peers. -/
def mdnsBatch : List (PeerId × Multiaddr) :=
  (List.range 257).map fun peer ↦
    ({ multihash := [1, UInt8.ofNat (peer / 256), UInt8.ofNat peer] },
      { text := "/ip4/10.0.1." ++ toString peer ++ "/tcp/4001" })

/-- The first dial tick of a node with sixty-five bootstrap peers and an mDNS batch of 257 peers
make the two loops wait for each other. -/
theorem dialTick_and_mdnsBatch_wait :
    ∃ actions reached,
      run (step tabulated plainContext) { monitor := manyBootstrapPeers }
          (.dialTick [] :: .swarmEvent (.behaviour (.mdnsDiscovered mdnsBatch)) :: actions) =
        some reached ∧
      reached.channels.CircularWait eventCapacity commandCapacity := by
  let ticked : Loops :=
    ⟨manyBootstrapPeers, { sending := manyBootstrapPeers.dialTick [] }⟩
  let events := (plainContext.handleSwarmEvent (.behaviour (.mdnsDiscovered mdnsBatch))).1
  let batched : Loops := ⟨manyBootstrapPeers, { ticked.channels with emitting := events }⟩
  have htick : step tabulated plainContext { monitor := manyBootstrapPeers } (.dialTick []) =
      some ticked := rfl
  have hbatch : step tabulated plainContext ticked
      (.swarmEvent (.behaviour (.mdnsDiscovered mdnsBatch))) = some batched := rfl
  have hcommands : batched.channels.sending.length = 65 := by
    simp [batched, ticked, EventMonitor.dialTick, manyBootstrapPeers]
  have hevents : batched.channels.emitting.length = 257 := by
    have hself : ∀ peer ∈ mdnsBatch, peer.1 ≠ plainContext.selfPeerId := by
      simp [mdnsBatch, plainContext]
    rw [show batched.channels.emitting = events from rfl,
      SwarmContext.length_handleSwarmEvent_mdnsDiscovered hself]
    simp [mdnsBatch]
  have hbounded : batched.channels.Bounded eventCapacity commandCapacity :=
    ⟨Nat.zero_le _, Nat.zero_le _⟩
  have hover : ¬ batched.channels.Fits eventCapacity commandCapacity := by
    simp only [CoupledQueues.Fits, CoupledQueues.itemLoad, CoupledQueues.replyLoad, hcommands,
      hevents, eventCapacity, commandCapacity]
    omega
  obtain ⟨moves, reached, hrun, hwait⟩ := CoupledQueues.exists_circularWait hbounded hover
  refine ⟨moves.map .transfer, { batched with channels := reached }, ?_, hwait⟩
  rw [run_cons, htick, Option.bind_some, run_cons, hbatch, Option.bind_some]
  exact run_transfers hrun

end EdgeOrchestrator.Node.Backpressure

import EdgeOrchestrator.Raft.Network
import EdgeOrchestrator.Storage.Store

/-!
# Fetching blobs from peers

A call of `ensure_blob` that misses the local store registers a waiter under the hash, asks the peers
of the raft registry and waits for the first answer until its timeout. Deliveries wake all waiters
of a hash. Every failing exit of a call removes the whole entry of the hash. The calls run
concurrently, so each is a small machine that takes one step at a time: it may be interrupted
between any two lock acquisitions and at every await.
-/

namespace EdgeOrchestrator.Node

open Raft Storage

/-- The call that a one-shot sender wakes. -/
abbrev Waiter := ℕ

structure BlobFetcher where
  store : LocalObjectStore
  waiters : HashMap Hash (List Waiter) := ∅

namespace BlobFetcher

/-- The waiters of a hash, in the order of their registration. -/
def waitersFor (fetcher : BlobFetcher) (hash : Hash) : List Waiter :=
  (fetcher.waiters.lookup hash).getD []

def pushWaiter (fetcher : BlobFetcher) (hash : Hash) (waiter : Waiter) : BlobFetcher :=
  { fetcher with waiters := fetcher.waiters.insert hash (fetcher.waitersFor hash ++ [waiter]) }

/-- Remove the entry of a hash, with every waiter in it. -/
def dropWaiter (fetcher : BlobFetcher) (hash : Hash) : BlobFetcher :=
  { fetcher with waiters := fetcher.waiters.erase hash }

/-- The response carries data and the data can be stored. -/
def Usable (primitives : Primitives) (fault : Option WriteFault) (fetcher : BlobFetcher)
    (found : Bool) (data : Bytes) : Prop :=
  found = true ∧ data ≠ [] ∧ ¬ fetcher.store.WriteFails primitives fault data

instance (primitives : Primitives) (fault : Option WriteFault) (fetcher : BlobFetcher)
    (found : Bool) (data : Bytes) : Decidable (fetcher.Usable primitives fault found data) :=
  inferInstanceAs (Decidable (_ ∧ _))

/-- Store a delivered blob and take the waiters that it wakes. -/
def onBlobReceived (primitives : Primitives) (fault : Option WriteFault) (fetcher : BlobFetcher)
    (hash : Hash) (found : Bool) (data : Bytes) : Bool × BlobFetcher × List Waiter :=
  if !found || data.isEmpty then (false, fetcher, [])
  else
    match fetcher.store.putBlob primitives fault data with
    | (.ok _, store) =>
      (true, { fetcher with store := store }.dropWaiter hash, fetcher.waitersFor hash)
    | (_, store) => (false, { fetcher with store := store }, [])

@[simp]
theorem waitersFor_pushWaiter_self (fetcher : BlobFetcher) (hash : Hash) (waiter : Waiter) :
    (fetcher.pushWaiter hash waiter).waitersFor hash = fetcher.waitersFor hash ++ [waiter] := by
  rw [waitersFor, pushWaiter, Finmap.lookup_insert]
  rfl

theorem waitersFor_pushWaiter_of_ne {hash other : Hash} (fetcher : BlobFetcher) (waiter : Waiter)
    (hother : other ≠ hash) :
    (fetcher.pushWaiter hash waiter).waitersFor other = fetcher.waitersFor other := by
  rw [waitersFor, pushWaiter, Finmap.lookup_insert_of_ne _ hother, waitersFor]

theorem mem_waitersFor_pushWaiter {fetcher : BlobFetcher} {hash other : Hash}
    {waiter found : Waiter} :
    found ∈ (fetcher.pushWaiter hash waiter).waitersFor other ↔
      found ∈ fetcher.waitersFor other ∨ other = hash ∧ found = waiter := by
  by_cases hother : other = hash
  · rw [hother, waitersFor_pushWaiter_self, List.mem_append, List.mem_singleton]
    simp
  · rw [waitersFor_pushWaiter_of_ne fetcher waiter hother]
    simp [hother]

@[simp]
theorem waitersFor_dropWaiter_self (fetcher : BlobFetcher) (hash : Hash) :
    (fetcher.dropWaiter hash).waitersFor hash = [] := by
  rw [waitersFor, dropWaiter, Finmap.lookup_erase]
  rfl

theorem waitersFor_dropWaiter_of_ne {hash other : Hash} (fetcher : BlobFetcher)
    (hother : other ≠ hash) :
    (fetcher.dropWaiter hash).waitersFor other = fetcher.waitersFor other := by
  rw [waitersFor, dropWaiter, Finmap.lookup_erase_ne hother, waitersFor]

/-- What a usable response does. -/
theorem onBlobReceived_of_usable {primitives : Primitives} {fault : Option WriteFault}
    {fetcher : BlobFetcher} {found : Bool} {data : Bytes}
    (husable : fetcher.Usable primitives fault found data) (hash : Hash) :
    fetcher.onBlobReceived primitives fault hash found data =
      (true, { fetcher with
        store := (fetcher.store.putBlob primitives fault data).2 }.dropWaiter hash,
        fetcher.waitersFor hash) := by
  rcases husable with ⟨hfound, hdata, hwrite⟩
  have hcarries : ¬ (!found || data.isEmpty) = true := by simp [hfound, hdata]
  rw [onBlobReceived, if_neg hcarries, LocalObjectStore.putBlob_of_not_fails hwrite]

/-- Any other response wakes nobody and leaves the waiters alone. -/
theorem onBlobReceived_of_not_usable {primitives : Primitives} {fault : Option WriteFault}
    {fetcher : BlobFetcher} {found : Bool} {data : Bytes}
    (husable : ¬ fetcher.Usable primitives fault found data) (hash : Hash) :
    ∃ store, fetcher.onBlobReceived primitives fault hash found data =
      (false, { fetcher with store := store }, []) := by
  unfold onBlobReceived
  by_cases hcarries : (!found || data.isEmpty) = true
  · exact ⟨fetcher.store, if_pos hcarries⟩
  · rw [if_neg hcarries]
    have hfails : fetcher.store.WriteFails primitives fault data := by
      by_contra hwrite
      apply husable
      simp only [Bool.or_eq_true, Bool.not_eq_true', List.isEmpty_iff, not_or,
        Bool.not_eq_false] at hcarries
      exact ⟨hcarries.1, hcarries.2, hwrite⟩
    rcases LocalObjectStore.putBlob_of_fails hfails with ⟨error, herror⟩
    exact ⟨(fetcher.store.putBlob primitives fault data).2, by rw [herror]⟩

end BlobFetcher

/-- The error of a call that finds no peer to ask. -/
def noPeerError (hash : Hash) : CoreError :=
  .network ("blob " ++ hash ++ " is not in the local CAS and no peer is known to ask " ++
    "(no descriptor exchange completed yet)")

/-- The error of a call whose sender was dropped. -/
def droppedError (hash : Hash) : CoreError :=
  .network ("blob " ++ hash ++ " request was dropped before any peer answered")

/-- The error of a call that got no answer in time. -/
def timeoutError (timeout : Duration) (hash : Hash) (peers : ℕ) : CoreError :=
  .network ("timed out after " ++ toString (Duration.asSecs timeout) ++ "s waiting for blob " ++
    hash ++ " from " ++ toString peers ++ " peer(s); is the node that submitted the project " ++
    "still up?")

/-- The receiving end of a one-shot channel. -/
inductive Channel
  | empty
  | sent (data : Bytes)
  | closed
  deriving DecidableEq, Repr

/-- Where a call of `ensure_blob` stands. -/
inductive Phase
  | started
  | missed
  | registered
  | requesting (remaining : List (ℕ × PeerId)) (peers : ℕ)
  | waiting (deadline : Instant) (peers : ℕ)
  | failing (error : CoreError)
  | returned (outcome : Except CoreError Bytes)
  | lost (loss : Loss)

/-- A call of `ensure_blob`. Whether a usable response came for its hash after it had taken the
list of its peers is recorded beside it. -/
structure Call where
  hash : Hash
  timeout : Duration
  phase : Phase := .started
  channel : Channel := .empty
  answered : Bool := false

/-- The call has registered a waiter and has not reached an exit. -/
def Call.active (call : Call) : Bool :=
  match call.phase with
  | .registered => true
  | .requesting _ _ => true
  | .waiting _ _ => true
  | _ => false

/-- The call has found peers to ask and waits, or is about to wait, for an answer. -/
def Call.awaitsAnswer (call : Call) : Bool :=
  match call.phase with
  | .requesting _ _ => true
  | .waiting _ _ => true
  | _ => false

/-- The calls, the fetcher they share, the registry they read and the commands they queued. -/
structure FetchWorld where
  now : Instant
  fetcher : BlobFetcher
  registry : RaftIdRegistry := ∅
  commands : List P2P.SwarmCommand := []
  calls : ℕ → Option Call := fun _ ↦ none

/-- The atomic steps of a call. -/
inductive CallStep
  | lookup
  | register
  | snapshot
  | request
  | await
  | resolve
  | expire
  | cleanup
  deriving DecidableEq, Repr

inductive FetchAction
  | call (id : ℕ) (hash : Hash) (timeout : Duration)
  | advanceCall (id : ℕ) (callStep : CallStep)
  | deliver (hash : Hash) (found : Bool) (data : Bytes) (fault : Option WriteFault)
  | elapse (duration : Duration)
  | updateRegistry (registry : RaftIdRegistry)

/-- Change the channel of a call that is listed, if it is still open. -/
def signalCall (waiters : List Waiter) (channel : Channel) (id : ℕ) (call : Call) : Call :=
  if id ∈ waiters ∧ call.channel = .empty then { call with channel := channel } else call

/-- Record that a usable response came for a hash. -/
def markAnswered (hash : Hash) (call : Call) : Call :=
  if call.hash = hash ∧ call.awaitsAnswer = true then { call with answered := true } else call

theorem hash_signalCall (waiters : List Waiter) (channel : Channel) (id : ℕ) (call : Call) :
    (signalCall waiters channel id call).hash = call.hash := by
  unfold signalCall
  split_ifs <;> rfl

theorem phase_signalCall (waiters : List Waiter) (channel : Channel) (id : ℕ) (call : Call) :
    (signalCall waiters channel id call).phase = call.phase := by
  unfold signalCall
  split_ifs <;> rfl

theorem hash_markAnswered (answered : Hash) (call : Call) :
    (markAnswered answered call).hash = call.hash := by
  unfold markAnswered
  split_ifs <;> rfl

theorem phase_markAnswered (answered : Hash) (call : Call) :
    (markAnswered answered call).phase = call.phase := by
  unfold markAnswered
  split_ifs <;> rfl

namespace FetchWorld

variable (primitives : Primitives)

def setCall (world : FetchWorld) (id : ℕ) (call : Call) : FetchWorld :=
  { world with calls := Function.update world.calls id (some call) }

def setPhase (world : FetchWorld) (id : ℕ) (call : Call) (phase : Phase) : FetchWorld :=
  world.setCall id { call with phase := phase }

/-- Where the local lookup leads. -/
def phaseAfterLookup (world : FetchWorld) (hash : Hash) : Phase :=
  match world.fetcher.store.getBlob primitives hash with
  | .ok data => .returned (.ok data)
  | .err _ => .missed
  | .lost loss => .lost loss

/-- Where the list of peers leads. -/
def phaseAfterSnapshot (world : FetchWorld) (hash : Hash) : Phase :=
  if RaftIdRegistry.snapshot world.registry = [] then .failing (noPeerError hash)
  else .requesting (RaftIdRegistry.snapshot world.registry)
    (RaftIdRegistry.snapshot world.registry).length

/-- The failing exit of a call: the entry of its hash is removed, and every sender in it dropped. -/
def cleanup (world : FetchWorld) (id : ℕ) (call : Call) (error : CoreError) : FetchWorld :=
  { world with
    fetcher := world.fetcher.dropWaiter call.hash
    calls := fun other ↦ (world.calls other).map
      (signalCall (world.fetcher.waitersFor call.hash) .closed other) }.setPhase id call
    (.returned (.error error))

/-- One step of a call. The timeout is checked after the channel, so it strikes only while the
channel is open. -/
def stepCall (world : FetchWorld) (id : ℕ) (call : Call) (callStep : CallStep) :
    Option FetchWorld :=
  match callStep, call.phase with
  | .lookup, .started => some (world.setPhase id call (world.phaseAfterLookup primitives call.hash))
  | .register, .missed =>
    some { world.setPhase id call .registered with
      fetcher := world.fetcher.pushWaiter call.hash id }
  | .snapshot, .registered => some (world.setPhase id call (world.phaseAfterSnapshot call.hash))
  | .request, .requesting ((_, peerId) :: rest) peers =>
    some { world.setPhase id call (.requesting rest peers) with
      commands := world.commands ++ [.requestBlob peerId call.hash] }
  | .await, .requesting [] peers =>
    some (world.setPhase id call (.waiting (world.now + call.timeout) peers))
  | .resolve, .waiting _ _ =>
    match call.channel with
    | .sent data => some (world.setPhase id call (.returned (.ok data)))
    | .closed => some (world.setPhase id call (.failing (droppedError call.hash)))
    | .empty => none
  | .expire, .waiting deadline peers =>
    if call.channel = .empty ∧ deadline ≤ world.now then
      some (world.setPhase id call (.failing (timeoutError call.timeout call.hash peers)))
    else none
  | .cleanup, .failing error => some (world.cleanup id call error)
  | _, _ => none

/-- Everything a step of a call can do. -/
inductive CallMove (world : FetchWorld) (id : ℕ) (call : Call) : CallStep → FetchWorld → Prop
  | lookup (hphase : call.phase = .started) :
    CallMove world id call .lookup
      (world.setPhase id call (world.phaseAfterLookup primitives call.hash))
  | register (hphase : call.phase = .missed) :
    CallMove world id call .register { world.setPhase id call .registered with
      fetcher := world.fetcher.pushWaiter call.hash id }
  | snapshot (hphase : call.phase = .registered) :
    CallMove world id call .snapshot
      (world.setPhase id call (world.phaseAfterSnapshot call.hash))
  | request {raftId : ℕ} {peerId : PeerId} {rest : List (ℕ × PeerId)} {peers : ℕ}
      (hphase : call.phase = .requesting ((raftId, peerId) :: rest) peers) :
    CallMove world id call .request { world.setPhase id call (.requesting rest peers) with
      commands := world.commands ++ [.requestBlob peerId call.hash] }
  | await {peers : ℕ} (hphase : call.phase = .requesting [] peers) :
    CallMove world id call .await
      (world.setPhase id call (.waiting (world.now + call.timeout) peers))
  | receive {deadline : Instant} {peers : ℕ} {data : Bytes}
      (hphase : call.phase = .waiting deadline peers) (hsent : call.channel = .sent data) :
    CallMove world id call .resolve (world.setPhase id call (.returned (.ok data)))
  | dropped {deadline : Instant} {peers : ℕ} (hphase : call.phase = .waiting deadline peers)
      (hclosed : call.channel = .closed) :
    CallMove world id call .resolve
      (world.setPhase id call (.failing (droppedError call.hash)))
  | expire {deadline : Instant} {peers : ℕ} (hphase : call.phase = .waiting deadline peers)
      (hempty : call.channel = .empty) (hdeadline : deadline ≤ world.now) :
    CallMove world id call .expire
      (world.setPhase id call (.failing (timeoutError call.timeout call.hash peers)))
  | cleanup {error : CoreError} (hphase : call.phase = .failing error) :
    CallMove world id call .cleanup (world.cleanup id call error)

theorem callMove_of_stepCall {primitives : Primitives} {world next : FetchWorld} {id : ℕ}
    {call : Call} {callStep : CallStep}
    (hstep : world.stepCall primitives id call callStep = some next) :
    CallMove primitives world id call callStep next := by
  unfold stepCall at hstep
  split at hstep
  · rw [← Option.some.inj hstep]
    exact .lookup ‹_›
  · rw [← Option.some.inj hstep]
    exact .register ‹_›
  · rw [← Option.some.inj hstep]
    exact .snapshot ‹_›
  · rw [← Option.some.inj hstep]
    exact .request ‹_›
  · rw [← Option.some.inj hstep]
    exact .await ‹_›
  · split at hstep
    · rw [← Option.some.inj hstep]
      exact .receive ‹_› ‹_›
    · rw [← Option.some.inj hstep]
      exact .dropped ‹_› ‹_›
    · cases hstep
  · rw [Option.ite_none_right_eq_some] at hstep
    rw [← Option.some.inj hstep.2]
    exact .expire ‹_› hstep.1.1 hstep.1.2
  · rw [← Option.some.inj hstep]
    exact .cleanup ‹_›
  · cases hstep

theorem stepCall_of_callMove {primitives : Primitives} {world next : FetchWorld} {id : ℕ}
    {call : Call} {callStep : CallStep} (hmove : CallMove primitives world id call callStep next) :
    world.stepCall primitives id call callStep = some next := by
  cases hmove with
  | expire hphase hempty hdeadline =>
    simp only [stepCall, hphase, if_pos (And.intro hempty hdeadline)]
  | _ => simp only [stepCall, *]

/-- A response arrives. -/
def deliver (world : FetchWorld) (hash : Hash) (found : Bool) (data : Bytes)
    (fault : Option WriteFault) : FetchWorld :=
  let (usable, fetcher, woken) :=
    world.fetcher.onBlobReceived primitives fault hash found data
  { world with
    fetcher := fetcher
    calls := fun id ↦ (world.calls id).map fun call ↦
      let signalled := signalCall woken (.sent data) id call
      if usable then markAnswered hash signalled else signalled }

/-- A response leaves the hash and the phase of every call alone. -/
theorem calls_deliver (world : FetchWorld) (hash : Hash) (found : Bool) (data : Bytes)
    (fault : Option WriteFault) :
    ∃ change : ℕ → Call → Call,
      (∀ id, (world.deliver primitives hash found data fault).calls id =
        (world.calls id).map (change id)) ∧
      (∀ id call, (change id call).hash = call.hash) ∧
      ∀ id call, (change id call).phase = call.phase := by
  refine ⟨_, fun id ↦ rfl, ?_, ?_⟩
  · intro id call
    dsimp only
    split_ifs
    · rw [hash_markAnswered, hash_signalCall]
    · rw [hash_signalCall]
  · intro id call
    dsimp only
    split_ifs
    · rw [phase_markAnswered, phase_signalCall]
    · rw [phase_signalCall]

def step (world : FetchWorld) : FetchAction → Option FetchWorld
  | .call id hash timeout =>
    match world.calls id with
    | none => some (world.setCall id { hash := hash, timeout := timeout })
    | some _ => none
  | .advanceCall id callStep =>
    match world.calls id with
    | none => none
    | some call => world.stepCall primitives id call callStep
  | .deliver hash found data fault => some (world.deliver primitives hash found data fault)
  | .elapse duration => some { world with now := world.now + duration }
  | .updateRegistry registry => some { world with registry := registry }

/-- Everything a step of the world can do. -/
inductive Move (world : FetchWorld) : FetchAction → FetchWorld → Prop
  | call {id : ℕ} {hash : Hash} {timeout : Duration} (hnew : world.calls id = none) :
    Move world (.call id hash timeout) (world.setCall id { hash := hash, timeout := timeout })
  | advanceCall {id : ℕ} {call : Call} {callStep : CallStep} {next : FetchWorld}
      (hcall : world.calls id = some call)
      (hmove : CallMove primitives world id call callStep next) :
    Move world (.advanceCall id callStep) next
  | deliver {hash : Hash} {found : Bool} {data : Bytes} {fault : Option WriteFault} :
    Move world (.deliver hash found data fault) (world.deliver primitives hash found data fault)
  | elapse {duration : Duration} :
    Move world (.elapse duration) { world with now := world.now + duration }
  | updateRegistry {registry : RaftIdRegistry} :
    Move world (.updateRegistry registry) { world with registry := registry }

theorem move_of_step {primitives : Primitives} {world next : FetchWorld} {action : FetchAction}
    (hstep : world.step primitives action = some next) : Move primitives world action next := by
  unfold step at hstep
  split at hstep
  · split at hstep
    · rw [← Option.some.inj hstep]
      exact .call ‹_›
    · cases hstep
  · split at hstep
    · cases hstep
    · exact .advanceCall ‹_› (callMove_of_stepCall hstep)
  · rw [← Option.some.inj hstep]
    exact .deliver
  · rw [← Option.some.inj hstep]
    exact .elapse
  · rw [← Option.some.inj hstep]
    exact .updateRegistry

end FetchWorld

end EdgeOrchestrator.Node

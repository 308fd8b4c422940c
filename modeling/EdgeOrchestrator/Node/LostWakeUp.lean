import EdgeOrchestrator.Node.FetchIndependence
import EdgeOrchestrator.Node.SnapshotIntegrity

/-!
# Lost wake-ups

A call looks the blob up first and registers its waiter afterwards. A delivery stores the blob
first, takes the waiters of the hash out of the map afterwards, and then sends them the data one by
one. A call that registers after a delivery has taken the waiters is woken by nobody, although the
blob is there. No wake-up is lost along the interleavings in which a call that registers finds its
blob absent or a delivery that has not taken the waiters yet, and in which no timeout strikes while
a delivery of the blob is on its way to the call.
-/

namespace EdgeOrchestrator.Node.LostWakeUp

open Execution FetchIndependence FetchWorld Raft Storage

/-- The world of the calls, with the deliveries that have stored their blob and not yet taken the
waiters, and the senders that were taken and not yet used. -/
structure DeliveryWorld where
  fetch : FetchWorld
  stored : List (Hash × Bytes) := []
  sending : List (Waiter × Bytes) := []

/-- A step of the calls, or one of the steps of a delivery. -/
inductive DeliveryAction
  | advance (action : FetchAction)
  | receive (hash : Hash) (found : Bool) (data : Bytes)
  | take (hash : Hash) (data : Bytes)
  | send (waiter : Waiter) (data : Bytes)

namespace DeliveryWorld

variable (primitives : Primitives)

/-- `on_blob_received` up to the write of the blob. -/
def receive (world : DeliveryWorld) (hash : Hash) (found : Bool) (data : Bytes) : DeliveryWorld :=
  if !found || data.isEmpty then world
  else
    match world.fetch.fetcher.store.putBlob primitives none data with
    | (.ok _, store) =>
      { world with
        fetch := { world.fetch with fetcher := { world.fetch.fetcher with store := store } }
        stored := (hash, data) :: world.stored }
    | (_, store) =>
      { world with
        fetch := { world.fetch with fetcher := { world.fetch.fetcher with store := store } } }

/-- The waiters of a hash are taken out of the map. -/
def take (world : DeliveryWorld) (hash : Hash) (data : Bytes) : DeliveryWorld where
  fetch := { world.fetch with
    fetcher := world.fetch.fetcher.dropWaiter hash
    calls := fun id ↦ (world.fetch.calls id).map (markAnswered hash) }
  stored := world.stored.erase (hash, data)
  sending := (world.fetch.fetcher.waitersFor hash).map (·, data) ++ world.sending

/-- One of them is sent the data. -/
def send (world : DeliveryWorld) (waiter : Waiter) (data : Bytes) : DeliveryWorld :=
  { world with
    fetch := { world.fetch with
      calls := fun id ↦ (world.fetch.calls id).map (signalCall [waiter] (.sent data) id) }
    sending := world.sending.erase (waiter, data) }

def step (world : DeliveryWorld) : DeliveryAction → Option DeliveryWorld
  | .advance (.deliver _ _ _ _) => none
  | .advance action =>
    (world.fetch.step primitives action).map fun fetch ↦ { world with fetch := fetch }
  | .receive hash found data => some (world.receive primitives hash found data)
  | .take hash data => if (hash, data) ∈ world.stored then some (world.take hash data) else none
  | .send waiter data =>
    if (waiter, data) ∈ world.sending then some (world.send waiter data) else none

/-- Everything a step of the world can do. -/
inductive Move (world : DeliveryWorld) : DeliveryAction → DeliveryWorld → Prop
  | advance {action : FetchAction} {fetch : FetchWorld}
      (hcalls : ∀ hash found data fault, action ≠ .deliver hash found data fault)
      (hstep : world.fetch.step primitives action = some fetch) :
    Move world (.advance action) { world with fetch := fetch }
  | receive {hash : Hash} {found : Bool} {data : Bytes} :
    Move world (.receive hash found data) (world.receive primitives hash found data)
  | take {hash : Hash} {data : Bytes} (hstored : (hash, data) ∈ world.stored) :
    Move world (.take hash data) (world.take hash data)
  | send {waiter : Waiter} {data : Bytes} (hsending : (waiter, data) ∈ world.sending) :
    Move world (.send waiter data) (world.send waiter data)

variable {primitives}

theorem move_of_step {world next : DeliveryWorld} {action : DeliveryAction}
    (hstep : world.step primitives action = some next) : Move primitives world action next := by
  unfold step at hstep
  split at hstep
  · cases hstep
  · rename_i hcalls
    obtain ⟨fetch, hfetch, rfl⟩ := Option.map_eq_some_iff.mp hstep
    exact .advance hcalls hfetch
  · rw [← Option.some.inj hstep]
    exact .receive
  · rw [Option.ite_none_right_eq_some] at hstep
    rw [← Option.some.inj hstep.2]
    exact .take hstep.1
  · rw [Option.ite_none_right_eq_some] at hstep
    rw [← Option.some.inj hstep.2]
    exact .send hstep.1

/-! ### Steps in a row -/

theorem receive_of_usable {data : Bytes} (hdata : data ≠ []) (world : DeliveryWorld)
    (hash : Hash) :
    world.receive primitives hash true data =
      { world with
        fetch := { world.fetch with
          fetcher := { world.fetch.fetcher with
            store := (world.fetch.fetcher.store.putBlob primitives none data).2 } }
        stored := (hash, data) :: world.stored } := by
  have hcarries : ¬ (!true || data.isEmpty) = true := by simp [hdata]
  rw [receive, if_neg hcarries, LocalObjectStore.putBlob_of_not_fails
    (LocalObjectStore.not_writeFails_none primitives _ data)]

/-- Steps of calls in a row. -/
theorem run_advance {actions : List FetchAction}
    (hcalls : ∀ hash found data fault, .deliver hash found data fault ∉ actions)
    (world : DeliveryWorld) :
    run (step primitives) world (actions.map .advance) =
      (run (FetchWorld.step primitives) world.fetch actions).map
        fun fetch ↦ { world with fetch := fetch } := by
  induction actions generalizing world with
  | nil => rfl
  | cons action rest ih =>
    have hrest : ∀ hash found data fault, .deliver hash found data fault ∉ rest :=
      fun hash found data fault hmem ↦ hcalls hash found data fault (List.mem_cons_of_mem _ hmem)
    have hstep : world.step primitives (.advance action) =
        (world.fetch.step primitives action).map fun fetch ↦ { world with fetch := fetch } := by
      cases action with
      | deliver hash found data fault =>
        exact absurd List.mem_cons_self (hcalls hash found data fault)
      | _ => rfl
    rw [List.map_cons, run_cons, run_cons, hstep]
    cases world.fetch.step primitives action with
    | none => rfl
    | some next => exact ih hrest { world with fetch := next }

variable (primitives) in
/-- Sending to a list of waiters one by one signals the calls in the list. -/
theorem run_send (waiters : List Waiter) (data : Bytes) (rest : List (Waiter × Bytes))
    (world : DeliveryWorld) :
    run (step primitives) { world with sending := waiters.map (·, data) ++ rest }
        (waiters.map (.send · data)) =
      some { world with
        fetch := { world.fetch with
          calls := fun id ↦ (world.fetch.calls id).map (signalCall waiters (.sent data) id) }
        sending := rest } := by
  induction waiters generalizing world with
  | nil =>
    have hsame : (fun id ↦ (world.fetch.calls id).map (signalCall [] (.sent data) id)) =
        world.fetch.calls := by
      funext id
      have hid : signalCall [] (.sent data) id = fun call ↦ call := by
        funext call
        exact signalCall_of_not fun hlisted ↦ List.not_mem_nil hlisted.1
      rw [hid, Option.map_id']
    rw [hsame]
    rfl
  | cons waiter waiters ih =>
    have hstep : DeliveryWorld.step primitives
        { world with sending := (waiter :: waiters).map (·, data) ++ rest } (.send waiter data) =
        some { world with
          fetch := { world.fetch with
            calls := fun id ↦ (world.fetch.calls id).map (signalCall [waiter] (.sent data) id) }
          sending := waiters.map (·, data) ++ rest } := by
      simp [step, send]
    -- a call that is listed twice is signalled by the first send and ignores the second
    have hcalls : (fun id ↦ ((world.fetch.calls id).map (signalCall [waiter] (.sent data) id)).map
          (signalCall waiters (.sent data) id)) =
        fun id ↦ (world.fetch.calls id).map (signalCall (waiter :: waiters) (.sent data) id) := by
      funext id
      rw [Option.map_map]
      congr 1
      funext call
      by_cases hopen : call.channel = .empty <;> by_cases hfirst : id = waiter <;>
        simp [signalCall, hopen, hfirst]
    rw [List.map_cons (f := (DeliveryAction.send · data)), run_cons, hstep, Option.bind_some,
      ← hcalls]
    exact ih { world with fetch := { world.fetch with
      calls := fun id ↦ (world.fetch.calls id).map (signalCall [waiter] (.sent data) id) } }

/-- It does not matter whether a call is marked first or signalled first. -/
theorem signalCall_markAnswered (hash : Hash) (waiters : List Waiter) (channel : Channel) (id : ℕ)
    (call : Call) :
    signalCall waiters channel id (markAnswered hash call) =
      markAnswered hash (signalCall waiters channel id call) := by
  by_cases hmarked : call.hash = hash ∧ call.awaitsAnswer = true
  · by_cases hreached : id ∈ waiters ∧ call.channel = .empty
    · have hsignalled : ({ call with channel := channel } : Call).hash = hash ∧
          ({ call with channel := channel } : Call).awaitsAnswer = true := hmarked
      have hopen : id ∈ waiters ∧ ({ call with answered := true } : Call).channel = .empty :=
        hreached
      rw [signalCall, signalCall, markAnswered, if_pos hmarked, if_pos hopen, if_pos hreached,
        markAnswered, if_pos hsignalled]
    · have hopen : ¬ (id ∈ waiters ∧ ({ call with answered := true } : Call).channel = .empty) :=
        hreached
      rw [signalCall, signalCall, markAnswered, if_pos hmarked, if_neg hopen, if_neg hreached,
        markAnswered, if_pos hmarked]
  · by_cases hreached : id ∈ waiters ∧ call.channel = .empty
    · have hsignalled : ¬ (({ call with channel := channel } : Call).hash = hash ∧
          ({ call with channel := channel } : Call).awaitsAnswer = true) := hmarked
      rw [signalCall, signalCall, markAnswered, if_neg hmarked, if_pos hreached, markAnswered,
        if_neg hsignalled]
    · rw [signalCall, signalCall, markAnswered, if_neg hmarked, if_neg hreached, markAnswered,
        if_neg hmarked]

/-- The steps of a delivery, one right after the other, are a delivery in one step. -/
theorem run_delivery {data : Bytes} (hdata : data ≠ []) (world : DeliveryWorld) (hash : Hash) :
    run (step primitives) world (.receive hash true data :: .take hash data ::
        (world.fetch.fetcher.waitersFor hash).map (.send · data)) =
      some { world with fetch := world.fetch.deliver primitives hash true data none } := by
  have husable : world.fetch.fetcher.Usable primitives none true data :=
    ⟨rfl, hdata, LocalObjectStore.not_writeFails_none primitives _ data⟩
  have hreceive : world.step primitives (.receive hash true data) =
      some (world.receive primitives hash true data) := rfl
  have htake : (world.receive primitives hash true data).step primitives (.take hash data) =
      some ((world.receive primitives hash true data).take hash data) := by
    rw [receive_of_usable hdata]
    exact if_pos List.mem_cons_self
  have hsend := run_send primitives (world.fetch.fetcher.waitersFor hash) data
    world.sending { (world.receive primitives hash true data).take hash data with
      sending := world.sending }
  have hcalls : (fun id ↦ ((world.fetch.calls id).map (markAnswered hash)).map
        (signalCall (world.fetch.fetcher.waitersFor hash) (.sent data) id)) =
      fun id ↦ ((world.fetch.calls id).map
        (signalCall (world.fetch.fetcher.waitersFor hash) (.sent data) id)).map
          (markAnswered hash) := by
    funext id
    rw [Option.map_map, Option.map_map]
    congr 1
    funext call
    exact signalCall_markAnswered hash _ _ id call
  rw [run_cons, hreceive, Option.bind_some, run_cons, htake, Option.bind_some,
    deliver_of_usable husable, ← hcalls]
  rw [receive_of_usable hdata] at hsend ⊢
  simp only [take, List.erase_cons_head] at hsend ⊢
  exact hsend

end DeliveryWorld

open DeliveryWorld

/-! ## What is owed to a call -/

section Conditions

variable (primitives : Primitives)

/-- What is delivered is found, not empty, and has the hash it is delivered for. -/
def Honest : DeliveryAction → Prop
  | .receive hash found data => found = true ∧ data ≠ [] ∧ hashBlob primitives data = hash
  | _ => True

/-- What is written for a delivered blob is read back as the blob. -/
def ReadsBack : DeliveryAction → Prop
  | .receive hash _ data => RoundTrips primitives (.blob ⟨hash, data⟩)
  | _ => True

variable (world : DeliveryWorld)

/-- The blob is in the local CAS: it is read under its hash, a digest. -/
def Readable (hash : Hash) : Prop :=
  IsDigest hash ∧ ∃ data, world.fetch.fetcher.store.getBlob primitives hash = .ok data

variable (hash : Hash) (id : ℕ)

/-- A delivery has stored the blob and not yet taken its waiters. -/
def Stored : Prop := ∃ data, (hash, data) ∈ world.stored

/-- A delivery has taken the sender of the call and not yet used it. -/
def Sending : Prop := ∃ data, (id, data) ∈ world.sending

/-- A call that registers finds its blob absent or a delivery that has not taken the waiters yet.
No timeout strikes while a delivery of the blob is on its way to the call. -/
def MeetsDeliveries : CallStep → Prop
  | .register => Readable primitives world hash → Stored world hash
  | .expire => ¬ Stored world hash ∧ ¬ Sending world id
  | _ => True

/-- A step of a call meets the deliveries of its blob, and cuts off no other call. -/
def InTime : DeliveryAction → Prop
  | .advance (.advanceCall id callStep) =>
    CleansUpAlone world.fetch (.advanceCall id callStep) ∧
      ∀ call, world.fetch.calls id = some call →
        MeetsDeliveries primitives world call.hash id callStep
  | _ => True

/-- The step ends the wait of the call with an error. -/
def GivesUp (call : Call) : CallStep → Prop
  | .expire => True
  | .resolve => call.channel = .closed
  | _ => False

/-- A call that gives up waiting does so while its blob is not in the local CAS. -/
def GivesUpInVain : DeliveryAction → Prop
  | .advance (.advanceCall id callStep) => ∀ call, world.fetch.calls id = some call →
    GivesUp call callStep → ¬ Readable primitives world call.hash
  | _ => True

/-- A call that waits while its blob is in the local CAS, and no delivery of it is on its way,
returns data with its remaining steps. -/
def ReturnsStored : Prop :=
  ∀ id call, world.fetch.calls id = some call → call.awaitsAnswer = true →
    Readable primitives world call.hash → ¬ Stored world call.hash → ¬ Sending world id →
    ReturnsData primitives world.fetch id call

end Conditions

/-- The call has not registered. -/
def Fresh (call : Call) : Prop := call.phase = .started ∨ call.phase = .missed

/-- The call is registered and has not been signalled. -/
def Open (call : Call) : Prop := call.active = true ∧ call.channel = .empty

/-- A call that is not signalled is among the waiters or about to be sent its data, and so is its
wake-up once the blob is there. -/
structure CallOwed (primitives : Primitives) (world : DeliveryWorld) (id : ℕ)
    (call : Call) : Prop where
  fresh : Fresh call → call.channel = .empty
  unclosed : call.active = true → call.channel ≠ .closed
  held : Open call → id ∈ world.fetch.fetcher.waitersFor call.hash ∨ Sending world id
  owed : Open call → Readable primitives world call.hash →
    Stored world call.hash ∨ Sending world id

/-- There is such a call, and it has registered. -/
def Registered (world : FetchWorld) (id : ℕ) : Prop :=
  ∃ call, world.calls id = some call ∧ ¬ Fresh call

/-- The senders belong to calls that have registered, and every call gets what it is owed. -/
structure Owed (primitives : Primitives) (world : DeliveryWorld) : Prop where
  listed : ∀ id hash, id ∈ world.fetch.fetcher.waitersFor hash → Registered world.fetch id
  taken : ∀ id, Sending world id → Registered world.fetch id
  calls : ∀ id call, world.fetch.calls id = some call → CallOwed primitives world id call

theorem owed_start (primitives : Primitives) (now : Instant) (store : LocalObjectStore)
    (registry : RaftIdRegistry) :
    Owed primitives
      { fetch := { now := now, fetcher := { store := store }, registry := registry } } where
  listed := by
    intro id hash hmem
    exact absurd hmem List.not_mem_nil
  taken := by
    rintro id ⟨data, hmem⟩
    exact absurd hmem List.not_mem_nil
  calls := by
    intro id call hcall
    cases hcall

theorem not_fresh_of_active {call : Call} (hactive : call.active = true) : ¬ Fresh call := by
  rintro (hphase | hphase) <;>
  · rw [Call.active, hphase] at hactive
    cases hactive

/-- A call that has registered is not set to one that has not. -/
theorem Registered.setCall {world : FetchWorld} {id other : ℕ} {new : Call}
    (hregistered : Registered world other) (hfresh : Registered world id → ¬ Fresh new) :
    Registered (world.setCall id new) other := by
  by_cases hother : other = id
  · rw [hother] at hregistered ⊢
    exact ⟨new, Function.update_self .., hfresh hregistered⟩
  · obtain ⟨found, hfound, hnot⟩ := hregistered
    exact ⟨found, (Function.update_of_ne hother ..).trans hfound, hnot⟩

/-- A change that keeps the phases of the calls keeps them registered. -/
theorem Registered.map {world : FetchWorld} {id : ℕ} (hregistered : Registered world id)
    (fetcher : BlobFetcher) {change : ℕ → Call → Call}
    (hphase : ∀ call, (change id call).phase = call.phase) :
    Registered { world with
      fetcher := fetcher
      calls := fun other ↦ (world.calls other).map (change other) } id := by
  obtain ⟨found, hfound, hnot⟩ := hregistered
  refine ⟨change id found, by dsimp only; rw [hfound]; rfl, ?_⟩
  rwa [Fresh, hphase]

section Steps

variable {primitives : Primitives} {world : DeliveryWorld} {id : ℕ} {call : Call}

/-- The sender of a call that has not registered is nowhere. -/
theorem Fresh.not_registered (hfresh : Fresh call) (hcall : world.fetch.calls id = some call) :
    ¬ Registered world.fetch id := by
  rintro ⟨found, hfound, hnot⟩
  rw [Option.some.inj (hfound.symm.trans hcall)] at hnot
  exact hnot hfresh

/-- The clock, the registry and the commands do not matter. -/
theorem Owed.congr (howed : Owed primitives world) {fetch : FetchWorld}
    (hfetcher : fetch.fetcher = world.fetch.fetcher) (hcalls : fetch.calls = world.fetch.calls) :
    Owed primitives { world with fetch := fetch } := by
  have hregistered : ∀ id, Registered world.fetch id → Registered fetch id := by
    rintro id ⟨call, hcall, hnot⟩
    exact ⟨call, by rwa [hcalls], hnot⟩
  constructor
  · intro id hash hmem
    dsimp only at hmem
    rw [hfetcher] at hmem
    exact hregistered id (howed.listed id hash hmem)
  · exact fun id hsending ↦ hregistered id (howed.taken id hsending)
  · intro id call hcall
    dsimp only at hcall
    rw [hcalls] at hcall
    have hold := howed.calls id call hcall
    refine ⟨hold.fresh, hold.unclosed, ?_, ?_⟩
    · dsimp only
      rw [hfetcher]
      exact hold.held
    · rw [Readable]
      dsimp only
      rw [hfetcher]
      exact hold.owed

/-- A call that has registered and waits no more is owed nothing. -/
theorem callOwed_of_inactive (hfresh : ¬ Fresh call) (hactive : call.active ≠ true) :
    CallOwed primitives world id call where
  fresh := fun h ↦ absurd h hfresh
  unclosed := fun h ↦ absurd h hactive
  held := fun h ↦ absurd h.1 hactive
  owed := fun h ↦ absurd h.1 hactive

/-- One call is set to another that gets what it is owed. -/
theorem Owed.setCall (howed : Owed primitives world)
    (hfresh : Registered world.fetch id → ¬ Fresh call) (hnew : CallOwed primitives world id call) :
    Owed primitives { world with fetch := world.fetch.setCall id call } := by
  constructor
  · exact fun other hash hmem ↦ (howed.listed other hash hmem).setCall hfresh
  · exact fun other hsending ↦ (howed.taken other hsending).setCall hfresh
  · intro other found hfound
    have howing : CallOwed primitives world other found := by
      rcases eq_or_of_update_eq_some hfound with ⟨hother, hcall⟩ | hkept
      · rw [hother, hcall]
        exact hnew
      · exact howed.calls other found hkept
    exact ⟨howing.fresh, howing.unclosed, howing.held, howing.owed⟩

/-- A new call is owed nothing. -/
theorem Owed.newCall (howed : Owed primitives world) (hnew : world.fetch.calls id = none)
    (hash : Hash) (timeout : Duration) :
    Owed primitives { world with
      fetch := world.fetch.setCall id { hash := hash, timeout := timeout } } := by
  apply howed.setCall
  · rintro ⟨found, hfound, -⟩
    cases hnew.symm.trans hfound
  · exact ⟨fun _ ↦ rfl, nofun, nofun, nofun⟩

/-- A call goes on to a phase in which it is owed nothing new. -/
theorem Owed.setPhase (howed : Owed primitives world) (hcall : world.fetch.calls id = some call)
    {phase : Phase} (hfresh : Fresh { call with phase := phase } → Fresh call)
    (hactive : { call with phase := phase }.active = true → call.active = true) :
    Owed primitives { world with fetch := world.fetch.setPhase id call phase } := by
  have hold := howed.calls id call hcall
  apply howed.setCall
  · exact fun hregistered hnext ↦ (hfresh hnext).not_registered hcall hregistered
  · constructor
    · exact fun h ↦ hold.fresh (hfresh h)
    · exact fun h ↦ hold.unclosed (hactive h)
    · exact fun h ↦ hold.held ⟨hactive h.1, h.2⟩
    · exact fun h ↦ hold.owed ⟨hactive h.1, h.2⟩

/-- A call registers before the waiters of its blob are taken. -/
theorem Owed.register (howed : Owed primitives world) (hcall : world.fetch.calls id = some call)
    (hphase : call.phase = .missed)
    (hintime : Readable primitives world call.hash → Stored world call.hash) :
    Owed primitives { world with
      fetch := { world.fetch.setPhase id call .registered with
        fetcher := world.fetch.fetcher.pushWaiter call.hash id } } := by
  have hkept : ∀ other, Registered world.fetch other →
      Registered (world.fetch.setPhase id call .registered) other :=
    fun other hother ↦ hother.setCall fun _ ↦ not_fresh_of_active rfl
  constructor
  · intro other hash hmem
    rcases BlobFetcher.mem_waitersFor_pushWaiter.mp hmem with hearlier | ⟨-, hother⟩
    · exact hkept other (howed.listed other hash hearlier)
    · rw [hother]
      exact ⟨_, Function.update_self .., not_fresh_of_active rfl⟩
  · exact fun other hsending ↦ hkept other (howed.taken other hsending)
  · intro other found hfound
    rcases eq_or_of_update_eq_some hfound with ⟨hother, hnew⟩ | hkept
    · have hempty : call.channel = .empty := (howed.calls id call hcall).fresh (Or.inr hphase)
      rw [hother, hnew]
      constructor
      · exact fun _ ↦ hempty
      · intro _ hclosed
        cases hempty.symm.trans hclosed
      · exact fun _ ↦ Or.inl (BlobFetcher.mem_waitersFor_pushWaiter.mpr (Or.inr ⟨rfl, rfl⟩))
      · exact fun _ hreadable ↦ Or.inl (hintime hreadable)
    · have hold := howed.calls other found hkept
      refine ⟨hold.fresh, hold.unclosed, fun hopen ↦ ?_, hold.owed⟩
      rcases hold.held hopen with hlisted | hsending
      · exact Or.inl (BlobFetcher.mem_waitersFor_pushWaiter.mpr (Or.inl hlisted))
      · exact Or.inr hsending

theorem mem_waitersFor_of_dropWaiter {fetcher : BlobFetcher} {hash other : Hash} {waiter : Waiter}
    (hmem : waiter ∈ (fetcher.dropWaiter hash).waitersFor other) :
    waiter ∈ fetcher.waitersFor other := by
  by_cases hother : other = hash
  · rw [hother, BlobFetcher.waitersFor_dropWaiter_self] at hmem
    exact absurd hmem List.not_mem_nil
  · rwa [BlobFetcher.waitersFor_dropWaiter_of_ne _ hother] at hmem

/-- Senders of calls that are not active are dropped. -/
theorem Owed.drop (howed : Owed primitives world) {hash : Hash}
    (hinactive : ∀ id call, world.fetch.calls id = some call →
      id ∈ world.fetch.fetcher.waitersFor hash → call.active ≠ true) :
    Owed primitives { world with
      fetch := { world.fetch with
        fetcher := world.fetch.fetcher.dropWaiter hash
        calls := fun id ↦ (world.fetch.calls id).map
          (signalCall (world.fetch.fetcher.waitersFor hash) .closed id) } } := by
  constructor
  · intro id other hmem
    exact (howed.listed id other (mem_waitersFor_of_dropWaiter hmem)).map _
      fun call ↦ phase_signalCall _ _ id call
  · exact fun id hsending ↦ (howed.taken id hsending).map _
      fun call ↦ phase_signalCall _ _ id call
  · intro id signalled hsignalled
    obtain ⟨call, hcall, rfl⟩ := Option.map_eq_some_iff.mp hsignalled
    have hold := howed.calls id call hcall
    by_cases hmem : id ∈ world.fetch.fetcher.waitersFor hash
    · -- the sender is dropped, but the call is neither fresh nor active
      apply callOwed_of_inactive
      · intro hfresh
        rw [Fresh, phase_signalCall] at hfresh
        exact Fresh.not_registered hfresh hcall (howed.listed id hash hmem)
      · have hactive := hinactive id call hcall hmem
        rw [Call.active] at hactive ⊢
        rwa [phase_signalCall]
    · rw [signalCall_of_not fun hreached ↦ hmem hreached.1]
      refine ⟨hold.fresh, hold.unclosed, fun hopen ↦ ?_, hold.owed⟩
      rcases hold.held hopen with hlisted | hsending
      · left
        have hother : call.hash ≠ hash := fun hsame ↦ hmem (hsame ▸ hlisted)
        rwa [BlobFetcher.waitersFor_dropWaiter_of_ne _ hother]
      · exact Or.inr hsending

/-- A blob is stored, and its delivery has yet to take the waiters. -/
theorem Owed.receive (howed : Owed primitives world) {hash : Hash} {data : Bytes}
    (hdata : data ≠ []) (hhash : hashBlob primitives data = hash)
    (hroundTrip : RoundTrips primitives (.blob ⟨hash, data⟩)) :
    Owed primitives (world.receive primitives hash true data) := by
  rw [receive_of_usable hdata]
  refine ⟨howed.listed, howed.taken, fun id call hcall ↦ ?_⟩
  have hold := howed.calls id call hcall
  refine ⟨hold.fresh, hold.unclosed, hold.held, ?_⟩
  rintro hopen ⟨hdigest, found, hget⟩
  have hobject : (PutOperation.blob data).object primitives = .blob ⟨hash, data⟩ := by
    rw [← hhash]
    rfl
  rw [← hobject] at hroundTrip
  rcases getBlob_put hroundTrip hdigest hget with hbefore | hnew
  · rcases hold.owed hopen ⟨hdigest, found, hbefore⟩ with ⟨other, hstored⟩ | hsending
    · exact Or.inl ⟨other, List.mem_cons_of_mem _ hstored⟩
    · exact Or.inr hsending
  · rw [hobject, Object.blob.injEq, Blob.mk.injEq] at hnew
    exact Or.inl ⟨data, hnew.1 ▸ List.mem_cons_self⟩

/-- A delivery takes the senders of everyone who waits for its blob. -/
theorem Owed.take (howed : Owed primitives world) (hash : Hash) (data : Bytes) :
    Owed primitives (world.take hash data) := by
  have hsends : ∀ id, Sending world id → Sending (world.take hash data) id := by
    rintro id ⟨other, hsending⟩
    exact ⟨other, List.mem_append_right _ hsending⟩
  have htaken : ∀ id, id ∈ world.fetch.fetcher.waitersFor hash →
      Sending (world.take hash data) id := by
    intro id hmem
    exact ⟨data, List.mem_append_left _ (List.mem_map_of_mem hmem)⟩
  have hkept : ∀ id, Registered world.fetch id → Registered (world.take hash data).fetch id :=
    fun id hid ↦ hid.map _ fun call ↦ phase_markAnswered hash call
  constructor
  · intro id other hmem
    exact hkept id (howed.listed id other (mem_waitersFor_of_dropWaiter hmem))
  · rintro id ⟨other, hsending⟩
    rcases List.mem_append.mp hsending with hnew | hearlier
    · obtain ⟨waiter, hwaiter, heq⟩ := List.mem_map.mp hnew
      rw [← (Prod.mk.inj heq).1]
      exact hkept waiter (howed.listed waiter hash hwaiter)
    · exact hkept id (howed.taken id ⟨other, hearlier⟩)
  · intro id marked hmarked
    obtain ⟨call, hcall, rfl⟩ := Option.map_eq_some_iff.mp hmarked
    have hold := howed.calls id call hcall
    have howing : CallOwed primitives (world.take hash data) id call := by
      refine ⟨hold.fresh, hold.unclosed, fun hopen ↦ ?_, fun hopen hreadable ↦ ?_⟩
      · rcases hold.held hopen with hlisted | hsending
        · by_cases hsame : call.hash = hash
          · rw [hsame] at hlisted
            exact Or.inr (htaken id hlisted)
          · left
            exact (BlobFetcher.waitersFor_dropWaiter_of_ne _ hsame).symm ▸ hlisted
        · exact Or.inr (hsends id hsending)
      · rcases hold.owed hopen hreadable with ⟨other, hstored⟩ | hsending
        · by_cases hsame : call.hash = hash
          · right
            rcases hold.held hopen with hlisted | hsending
            · rw [hsame] at hlisted
              exact htaken id hlisted
            · exact hsends id hsending
          · have hne : (call.hash, other) ≠ (hash, data) := fun heq ↦ hsame (Prod.mk.inj heq).1
            exact Or.inl ⟨other, (List.mem_erase_of_ne hne).mpr hstored⟩
        · exact Or.inr (hsends id hsending)
    rw [Node.markAnswered]
    split_ifs
    · exact ⟨howing.fresh, howing.unclosed, howing.held, howing.owed⟩
    · exact howing

/-- A call is sent its data. -/
theorem Owed.send (howed : Owed primitives world) {waiter : Waiter} {data : Bytes}
    (hsending : (waiter, data) ∈ world.sending) : Owed primitives (world.send waiter data) := by
  have hkept : ∀ id, Registered world.fetch id → Registered (world.send waiter data).fetch id :=
    fun id hid ↦ hid.map _ fun call ↦ phase_signalCall _ _ id call
  constructor
  · exact fun id other hmem ↦ hkept id (howed.listed id other hmem)
  · rintro id ⟨other, hlater⟩
    exact hkept id (howed.taken id ⟨other, List.mem_of_mem_erase hlater⟩)
  · intro id signalled hsignalled
    obtain ⟨call, hcall, rfl⟩ := Option.map_eq_some_iff.mp hsignalled
    have hold := howed.calls id call hcall
    by_cases hreached : id ∈ [waiter] ∧ call.channel = .empty
    · have hfresh : ¬ Fresh call := by
        intro hfresh
        rw [← List.mem_singleton.mp hreached.1] at hsending
        exact hfresh.not_registered hcall (howed.taken id ⟨data, hsending⟩)
      rw [signalCall, if_pos hreached]
      constructor
      · exact fun hphase ↦ absurd hphase hfresh
      · intro _ hclosed
        cases hclosed
      · intro hopen
        cases hopen.2
      · intro hopen
        cases hopen.2
    · rw [signalCall_of_not hreached]
      have hlater : Open call → Sending world id → Sending (world.send waiter data) id := by
        rintro hopen ⟨other, hother⟩
        have hne : (id, other) ≠ (waiter, data) := by
          intro heq
          exact hreached ⟨List.mem_singleton.mpr (Prod.mk.inj heq).1, hopen.2⟩
        exact ⟨other, (List.mem_erase_of_ne hne).mpr hother⟩
      refine ⟨hold.fresh, hold.unclosed, fun hopen ↦ ?_, fun hopen hreadable ↦ ?_⟩
      · exact (hold.held hopen).imp_right (hlater hopen)
      · exact (hold.owed hopen hreadable).imp_right (hlater hopen)

theorem Owed.callMove (howed : Owed primitives world) (hcall : world.fetch.calls id = some call)
    {callStep : CallStep} {next : FetchWorld}
    (halone : CleansUpAlone world.fetch (.advanceCall id callStep))
    (hmeets : MeetsDeliveries primitives world call.hash id callStep)
    (hmove : CallMove primitives world.fetch id call callStep next) :
    Owed primitives { world with fetch := next } := by
  cases hmove with
  | lookup hphase =>
    apply howed.setPhase hcall
    · exact fun _ ↦ Or.inl hphase
    · unfold phaseAfterLookup
      split <;> simp [Call.active]
  | register hphase => exact howed.register hcall hphase hmeets
  | snapshot hphase =>
    apply howed.setPhase hcall
    · unfold phaseAfterSnapshot
      split_ifs <;> simp [Fresh]
    · simp [Call.active, hphase]
  | @request raftId peerId rest peers hphase =>
    have hnext : Owed primitives
        { world with fetch := world.fetch.setPhase id call (.requesting rest peers) } :=
      howed.setPhase hcall (by simp [Fresh]) (by simp [Call.active, hphase])
    exact hnext.congr rfl rfl
  | await hphase =>
    exact howed.setPhase hcall (by simp [Fresh]) (by simp [Call.active, hphase])
  | receive hphase hsent => exact howed.setPhase hcall (by simp [Fresh]) (by simp [Call.active])
  | dropped hphase hclosed => exact howed.setPhase hcall (by simp [Fresh]) (by simp [Call.active])
  | expire hphase hempty hdeadline =>
    exact howed.setPhase hcall (by simp [Fresh]) (by simp [Call.active])
  | @cleanup error hphase =>
    have hdropped := howed.drop fun _ _ hwaiting hmem ↦
      halone.inactive hcall hphase hwaiting hmem
    have hfresh : ¬ Fresh { call with phase := .returned (.error error) } := by simp [Fresh]
    exact hdropped.setCall (fun _ ↦ hfresh) (callOwed_of_inactive hfresh (by simp [Call.active]))

theorem Owed.step (howed : Owed primitives world) {action : DeliveryAction} {next : DeliveryWorld}
    (hhonest : Honest primitives action) (hroundTrip : ReadsBack primitives action)
    (hintime : InTime primitives world action)
    (hstep : world.step primitives action = some next) : Owed primitives next := by
  cases DeliveryWorld.move_of_step hstep with
  | @advance action fetch hcalls hfetch =>
    cases FetchWorld.move_of_step hfetch with
    | call hnew => exact howed.newCall hnew _ _
    | advanceCall hcall hmove =>
      exact howed.callMove hcall hintime.1 (hintime.2 _ hcall) hmove
    | deliver => exact absurd rfl (hcalls _ _ _ _)
    | elapse => exact howed.congr rfl rfl
    | updateRegistry => exact howed.congr rfl rfl
  | @receive hash found data =>
    obtain ⟨hfound, hdata, hhash⟩ := hhonest
    rw [hfound]
    exact howed.receive hdata hhash hroundTrip
  | take hstored => exact howed.take _ _
  | send hsending => exact howed.send hsending

/-- A call gives up waiting only while its blob is not there, or while a delivery of it is on its
way. -/
theorem Owed.givesUpInVain (howed : Owed primitives world) {action : DeliveryAction}
    {next : DeliveryWorld} (hintime : InTime primitives world action)
    (hstep : world.step primitives action = some next) : GivesUpInVain primitives world action := by
  cases DeliveryWorld.move_of_step hstep with
  | @advance action fetch hcalls hfetch =>
    cases FetchWorld.move_of_step hfetch with
    | @advanceCall id call callStep _ hcall hmove =>
      intro found hfound hgivesUp hreadable
      rw [← Option.some.inj (hcall.symm.trans hfound)] at hgivesUp hreadable
      have hold := howed.calls id call hcall
      have hmeets := hintime.2 call hcall
      cases hmove with
      | receive hphase hsent => cases hsent.symm.trans hgivesUp
      | dropped hphase hclosed =>
        have hactive : call.active = true := by rw [Call.active, hphase]
        exact hold.unclosed hactive hclosed
      | expire hphase hempty hdeadline =>
        have hopen : Open call := ⟨by rw [Call.active, hphase], hempty⟩
        rcases hold.owed hopen hreadable with hstored | hsending
        · exact hmeets.1 hstored
        · exact hmeets.2 hsending
      | _ => exact hgivesUp
    | _ => trivial
  | _ => trivial

/-- A call whose blob was delivered has it in its channel. -/
theorem Owed.returnsStored (howed : Owed primitives world) : ReturnsStored primitives world := by
  intro id call hcall hawaits hreadable hstored hsending
  have hold := howed.calls id call hcall
  have hactive := active_of_awaitsAnswer hawaits
  cases hchannel : call.channel with
  | empty =>
    rcases hold.owed ⟨hactive, hchannel⟩ hreadable with hon | hon
    · exact absurd hon hstored
    · exact absurd hon hsending
  | sent data => exact returnsData_of_sent hcall hchannel hawaits
  | closed => exact absurd hchannel (hold.unclosed hactive)

end Steps

/-- In every run whose calls meet the deliveries of their blobs, no call gives up waiting while its
blob is in the local CAS, and a call whose blob is there returns data, unless the delivery is still
on its way. -/
theorem no_lost_wake_up (primitives : Primitives) (now : Instant) (store : LocalObjectStore)
    (registry : RaftIdRegistry) (actions : List DeliveryAction)
    (hhonest : ∀ action ∈ actions, Honest primitives action)
    (hroundTrip : ∀ action ∈ actions, ReadsBack primitives action)
    (hintime : Guarded (DeliveryWorld.step primitives) (InTime primitives)
      { fetch := { now := now, fetcher := { store := store }, registry := registry } } actions) :
    Guarded (DeliveryWorld.step primitives) (GivesUpInVain primitives)
        { fetch := { now := now, fetcher := { store := store }, registry := registry } } actions ∧
      Throughout (DeliveryWorld.step primitives) (ReturnsStored primitives)
        { fetch := { now := now, fetcher := { store := store }, registry := registry } } actions := by
  have hguarded := (hintime.and_of_forall_mem hhonest).and_of_forall_mem hroundTrip
  have hstart := owed_start primitives now store registry
  constructor
  · refine guarded_of_guarded (Owed primitives) ?_ ?_ hstart hguarded
    · rintro world action next howed ⟨⟨hintime, -⟩, -⟩ hstep
      exact howed.givesUpInVain hintime hstep
    · rintro world action next howed ⟨⟨hintime, hhonest⟩, hroundTrip⟩ hstep
      exact howed.step hhonest hroundTrip hintime hstep
  · refine throughout_of_guarded (Owed primitives) ?_ ?_ hstart hguarded
    · exact fun world howed ↦ howed.returnsStored
    · rintro world action next howed ⟨⟨hintime, hhonest⟩, hroundTrip⟩ hstep
      exact howed.step hhonest hroundTrip hintime hstep

/-! ## A delivery between the lookup and the registration -/

/-- A call that missed registers, asks its only peer and waits until its timeout. -/
def waitOut (id : ℕ) (timeout : Duration) : List FetchAction :=
  [.advanceCall id .register, .advanceCall id .snapshot, .advanceCall id .request,
    .advanceCall id .await, .elapse timeout]

theorem run_waitOut (primitives : Primitives) {world : FetchWorld} {id raftId : ℕ}
    {peerId : PeerId} {call : Call} (hcall : world.calls id = some call)
    (hphase : call.phase = .missed)
    (hregistry : world.registry = Finmap.insert raftId peerId ∅) :
    ∃ final, run (FetchWorld.step primitives) world (waitOut id call.timeout) = some final ∧
      final.calls id = some { call with phase := .waiting (world.now + call.timeout) 1 } ∧
      final.now = world.now + call.timeout ∧ final.fetcher.store = world.fetcher.store := by
  have hpeers : RaftIdRegistry.snapshot world.registry = [(raftId, peerId)] := by
    rw [hregistry, RaftIdRegistry.snapshot_singleton]
  simp [waitOut, run_cons, FetchWorld.step, FetchWorld.stepCall, setPhase, setCall, hcall, hphase,
    phaseAfterSnapshot, hpeers, BlobFetcher.pushWaiter]

/-- A call that registers after the delivery of its blob gives up although the blob is there. -/
theorem gives_up_of_late_registration {primitives : Primitives} {world : DeliveryWorld}
    {id raftId : ℕ} {peerId : PeerId} {call : Call} (hcall : world.fetch.calls id = some call)
    (hphase : call.phase = .missed) (hempty : call.channel = .empty)
    (hregistry : world.fetch.registry = Finmap.insert raftId peerId ∅)
    (hreadable : Readable primitives world call.hash) :
    ¬ Guarded (DeliveryWorld.step primitives) (GivesUpInVain primitives) world
      ((waitOut id call.timeout).map .advance ++ [.advance (.advanceCall id .expire)]) := by
  intro hguarded
  obtain ⟨final, hrun, hwaiting, hnow, hstore⟩ :=
    run_waitOut primitives hcall hphase hregistry
  have hcalls : ∀ hash found data fault,
      FetchAction.deliver hash found data fault ∉ waitOut id call.timeout := by
    simp [waitOut]
  have hlate : run (DeliveryWorld.step primitives) world
      ((waitOut id call.timeout).map .advance) = some { world with fetch := final } := by
    rw [run_advance hcalls, hrun]
    rfl
  have hdeadline : world.fetch.now + call.timeout ≤ final.now := hnow.ge
  have hexpire : ∃ next, DeliveryWorld.step primitives { world with fetch := final }
      (.advance (.advanceCall id .expire)) = some next := by
    simp [DeliveryWorld.step, FetchWorld.step, FetchWorld.stepCall, hwaiting, hempty, hdeadline]
  obtain ⟨next, hnext⟩ := hexpire
  have hvain := (((guarded_append hlate).mp hguarded).2 next hnext).1
  apply hvain _ hwaiting trivial
  obtain ⟨data, hget⟩ := hreadable
  exact ⟨data, by rwa [hstore]⟩

def oneSecond : Duration := .fromSecs 1

/-- A world without blobs, whose registry knows one peer. -/
def emptyWorld : DeliveryWorld where
  fetch := { now := 0, fetcher := { store := ⟨[], ∅⟩ }, registry := Finmap.insert 2 ⟨[2]⟩ ∅ }

/-- The blob of a release is delivered between the lookup and the registration of a call. -/
def lateRegistration : List DeliveryAction :=
  [.advance (.call 0 (hexEncode releaseDigest) oneSecond), .advance (.advanceCall 0 .lookup),
    .receive (hexEncode releaseDigest) true releaseJson,
    .take (hexEncode releaseDigest) releaseJson] ++
  ((waitOut 0 oneSecond).map .advance ++ [.advance (.advanceCall 0 .expire)])

theorem readable_after_put {world : DeliveryWorld}
    (hstore : world.fetch.fetcher.store =
      (LocalObjectStore.putBlob releaseTabulated none ⟨[], ∅⟩ releaseJson).2) :
    Readable releaseTabulated world (hexEncode releaseDigest) := by
  refine ⟨⟨releaseDigest, rfl, rfl⟩, releaseJson, ?_⟩
  rw [hstore, ← hash_releaseBlobPut]
  exact blobsReadable_releaseBlobPut releaseJson List.mem_cons_self

theorem honest_receive :
    Honest releaseTabulated (.receive (hexEncode releaseDigest) true releaseJson) ∧
      ReadsBack releaseTabulated (.receive (hexEncode releaseDigest) true releaseJson) := by
  have hhash : hashBlob releaseTabulated releaseJson = hexEncode releaseDigest :=
    hash_releaseBlobPut
  refine ⟨⟨rfl, by decide, hhash⟩, ?_⟩
  rw [ReadsBack, ← hhash]
  exact roundTrips_releaseBlobPut

/-- The call gives up although the blob it was called for is in the local CAS. -/
theorem gives_up_beside_its_blob :
    (∀ action ∈ lateRegistration, Honest releaseTabulated action ∧
        ReadsBack releaseTabulated action) ∧
      ¬ Guarded (DeliveryWorld.step releaseTabulated) (GivesUpInVain releaseTabulated) emptyWorld
        lateRegistration := by
  constructor
  · intro action hmem
    simp only [lateRegistration, waitOut, List.map_cons, List.map_nil, List.cons_append,
      List.nil_append, List.mem_cons, List.not_mem_nil, or_false] at hmem
    rcases hmem with rfl | rfl | rfl | rfl | rfl | rfl | rfl | rfl | rfl | rfl
    case inr.inr.inl => exact honest_receive
    all_goals exact ⟨trivial, trivial⟩
  · have hdata : releaseJson ≠ [] := by decide
    let missedCall : Call :=
      { hash := hexEncode releaseDigest, timeout := oneSecond, phase := .missed }
    let missed : DeliveryWorld :=
      { emptyWorld with fetch := emptyWorld.fetch.setCall 0 missedCall }
    let received := missed.receive releaseTabulated (hexEncode releaseDigest) true releaseJson
    let taken := received.take (hexEncode releaseDigest) releaseJson
    have hreceived : received = { missed with
        fetch := { missed.fetch with fetcher := { missed.fetch.fetcher with
          store := (missed.fetch.fetcher.store.putBlob releaseTabulated none releaseJson).2 } }
        stored := [(hexEncode releaseDigest, releaseJson)] } := receive_of_usable hdata missed _
    have hmissed : run (DeliveryWorld.step releaseTabulated) emptyWorld
        [.advance (.call 0 (hexEncode releaseDigest) oneSecond),
          .advance (.advanceCall 0 .lookup)] = some missed := by
      have hmiss : LocalObjectStore.getBlob releaseTabulated ⟨[], ∅⟩ (hexEncode releaseDigest) =
          .err (.objectNotFound (hexEncode releaseDigest)) := rfl
      simp [run_cons, DeliveryWorld.step, FetchWorld.step, FetchWorld.stepCall, emptyWorld, missed,
        missedCall, setPhase, setCall, phaseAfterLookup, hmiss]
    have htake : received.step releaseTabulated (.take (hexEncode releaseDigest) releaseJson) =
        some taken := by
      rw [DeliveryWorld.step, hreceived]
      exact if_pos List.mem_cons_self
    have hrun : run (DeliveryWorld.step releaseTabulated) emptyWorld
        ([.advance (.call 0 (hexEncode releaseDigest) oneSecond),
          .advance (.advanceCall 0 .lookup)] ++
        [.receive (hexEncode releaseDigest) true releaseJson,
          .take (hexEncode releaseDigest) releaseJson]) = some taken := by
      rw [run_append, hmissed, Option.bind_some]
      apply (run_cons_eq_some _).mpr ⟨received, rfl, _⟩
      exact (run_cons_eq_some _).mpr ⟨taken, htake, rfl⟩
    have hcall : taken.fetch.calls 0 = some missedCall := by
      simp [taken, DeliveryWorld.take, hreceived, missed, setCall, markAnswered, missedCall,
        Call.awaitsAnswer]
    have hstore : taken.fetch.fetcher.store =
        (LocalObjectStore.putBlob releaseTabulated none ⟨[], ∅⟩ releaseJson).2 := by
      simp only [taken, DeliveryWorld.take, hreceived]
      rfl
    have hregistry : taken.fetch.registry = Finmap.insert 2 ⟨[2]⟩ ∅ := by
      simp only [taken, DeliveryWorld.take, hreceived]
      rfl
    intro hguarded
    exact gives_up_of_late_registration hcall rfl rfl hregistry (readable_after_put hstore)
      ((guarded_append hrun).mp hguarded).2

/-- A call registers before its blob is delivered. -/
def timelyRegistration : List DeliveryAction :=
  [.advance (.call 0 (hexEncode releaseDigest) oneSecond), .advance (.advanceCall 0 .lookup),
    .advance (.advanceCall 0 .register), .receive (hexEncode releaseDigest) true releaseJson,
    .take (hexEncode releaseDigest) releaseJson, .send 0 releaseJson]

theorem no_lost_wake_up_timelyRegistration :
    (run (DeliveryWorld.step releaseTabulated) emptyWorld timelyRegistration).isSome = true ∧
      Guarded (DeliveryWorld.step releaseTabulated) (GivesUpInVain releaseTabulated) emptyWorld
        timelyRegistration ∧
      Throughout (DeliveryWorld.step releaseTabulated) (ReturnsStored releaseTabulated) emptyWorld
        timelyRegistration := by
  have hdeliveries : ∀ action ∈ timelyRegistration, Honest releaseTabulated action ∧
      ReadsBack releaseTabulated action := by
    intro action hmem
    simp only [timelyRegistration, List.mem_cons, List.not_mem_nil, or_false] at hmem
    rcases hmem with rfl | rfl | rfl | rfl | rfl | rfl
    case inr.inr.inr.inl => exact honest_receive
    all_goals exact ⟨trivial, trivial⟩
  apply And.intro rfl
  apply no_lost_wake_up releaseTabulated 0 ⟨[], ∅⟩ _ _
    (fun action hmem ↦ (hdeliveries action hmem).1)
    (fun action hmem ↦ (hdeliveries action hmem).2)
  rintro called hcalled
  refine ⟨trivial, ?_⟩
  rintro missed hmissed
  refine ⟨⟨trivial, fun _ _ ↦ trivial⟩, ?_⟩
  rintro registered hregistered
  refine ⟨⟨trivial, fun call hcall ↦ ?_⟩, fun _ _ ↦ ⟨trivial, fun _ _ ↦ ⟨trivial, fun _ _ ↦
    ⟨trivial, trivial⟩⟩⟩⟩
  -- the store is still empty when the call registers
  rintro ⟨hdigest, data, hget⟩
  cases hcalled
  cases hmissed
  obtain ⟨bytes, hfile, -⟩ := LocalObjectStore.getBlob_eq_ok_iff.mp hget
  have hlookup := (LocalObjectStore.holdsFile_iff_of_isDigest hdigest).mp hfile
  exact absurd (Finmap.mem_of_lookup_eq_some hlookup) Finmap.notMem_empty

end EdgeOrchestrator.Node.LostWakeUp

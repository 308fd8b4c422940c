import EdgeOrchestrator.Foundation.Execution
import EdgeOrchestrator.Node.CasFetch

/-!
# The waiters of a blob

A sender enters the map when a call registers, and leaves it with the whole entry of its hash when
a response arrives or some call for the hash fails. Whatever the interleaving, a listed call is
registered or on its way out with an error, and finds its sender untouched.
-/

namespace EdgeOrchestrator.Node.FetchIndependence

open Execution FetchWorld Storage

variable {primitives : Primitives}

/-- The call is on its way out with an error. -/
def Failing (call : Call) : Prop := ∃ error, call.phase = .failing error

/-- A call that may be among the waiters of a hash. -/
def MayWait (hash : Hash) (call : Call) : Prop :=
  call.hash = hash ∧ call.channel = .empty ∧ (call.active = true ∨ Failing call)

theorem MayWait.not_fresh {hash : Hash} {call : Call} (hmay : MayWait hash call) :
    ¬ (call.phase = .started ∨ call.phase = .missed) := by
  rcases hmay with ⟨-, -, hactive | ⟨error, herror⟩⟩
  · rw [Call.active] at hactive
    rintro (hphase | hphase) <;> (rw [hphase] at hactive; cases hactive)
  · rw [herror]
    simp

/-- Every waiter belongs to a call that waits under its hash with an untouched sender. A call that
has not registered has no answer. -/
structure Listed (world : FetchWorld) : Prop where
  fresh : ∀ id call, world.calls id = some call →
    call.phase = .started ∨ call.phase = .missed → call.channel = .empty
  owned : ∀ hash, ∀ id ∈ world.fetcher.waitersFor hash,
    ∃ call, world.calls id = some call ∧ MayWait hash call

theorem listed_start (now : Instant) (store : LocalObjectStore) (registry : Raft.RaftIdRegistry) :
    Listed { now := now, fetcher := { store := store }, registry := registry } where
  fresh := by
    intro id call hcall
    cases hcall
  owned := by
    intro hash id hmem
    exact absurd hmem List.not_mem_nil

theorem waitersFor_congr {fetcher other : BlobFetcher} (hwaiters : other.waiters = fetcher.waiters) :
    other.waitersFor = fetcher.waitersFor := by
  funext hash
  rw [BlobFetcher.waitersFor, hwaiters, BlobFetcher.waitersFor]

theorem signalCall_of_not {waiters : List Waiter} {channel : Channel} {id : ℕ} {call : Call}
    (hunlisted : ¬ (id ∈ waiters ∧ call.channel = .empty)) :
    signalCall waiters channel id call = call := if_neg hunlisted

section Steps

variable {world : FetchWorld} {id : ℕ} {call : Call}

/-- The store, the clock, the registry and the commands do not matter. -/
theorem Listed.congr (hlisted : Listed world) {other : FetchWorld}
    (hwaiters : other.fetcher.waiters = world.fetcher.waiters) (hcalls : other.calls = world.calls) :
    Listed other := by
  constructor
  · rw [hcalls]
    exact hlisted.fresh
  · rw [hcalls, waitersFor_congr hwaiters]
    exact hlisted.owned

/-- A listed call may wait under the hash it is listed under. -/
theorem Listed.mayWait_of_mem (hlisted : Listed world) (hcall : world.calls id = some call)
    {hash : Hash} (hmem : id ∈ world.fetcher.waitersFor hash) : MayWait hash call := by
  obtain ⟨found, hfound, hmay⟩ := hlisted.owned hash id hmem
  rwa [Option.some.inj (hfound.symm.trans hcall)] at hmay

/-- A call that has not registered is not listed. -/
theorem Listed.not_mem_of_fresh (hlisted : Listed world) (hcall : world.calls id = some call)
    (hphase : call.phase = .started ∨ call.phase = .missed) (hash : Hash) :
    id ∉ world.fetcher.waitersFor hash :=
  fun hmem ↦ (hlisted.mayWait_of_mem hcall hmem).not_fresh hphase

/-- Replace one call by one that may wait wherever it is listed. -/
theorem Listed.setCall (hlisted : Listed world)
    (hfresh : call.phase = .started ∨ call.phase = .missed → call.channel = .empty)
    (hwaits : ∀ hash, id ∈ world.fetcher.waitersFor hash → MayWait hash call) :
    Listed (world.setCall id call) where
  fresh := by
    intro other found hfound
    rcases eq_or_of_update_eq_some hfound with ⟨-, hnew⟩ | hkept
    · rw [hnew]
      exact hfresh
    · exact hlisted.fresh other found hkept
  owned := by
    intro hash other hmem
    by_cases hother : other = id
    · rw [hother] at hmem ⊢
      exact ⟨call, Function.update_self .., hwaits hash hmem⟩
    · obtain ⟨found, hfound, hmay⟩ := hlisted.owned hash other hmem
      exact ⟨found, (Function.update_of_ne hother ..).trans hfound, hmay⟩

/-- A call goes on to a phase in which it may still wait, if it could wait before. -/
theorem Listed.setPhase (hlisted : Listed world) (hcall : world.calls id = some call)
    {phase : Phase} (hfresh : phase = .started ∨ phase = .missed → call.channel = .empty)
    (hwaits : MayWait call.hash call → MayWait call.hash { call with phase := phase }) :
    Listed (world.setPhase id call phase) := by
  apply hlisted.setCall hfresh
  intro hash hmem
  have hmay := hlisted.mayWait_of_mem hcall hmem
  have hhash := hmay.1
  rw [← hhash] at hmay ⊢
  exact hwaits hmay

/-- The entry of one hash is removed and the calls in it are signalled. -/
theorem Listed.signal (hlisted : Listed world) (hash : Hash) (channel : Channel) :
    Listed { world with
      fetcher := world.fetcher.dropWaiter hash
      calls := fun id ↦ (world.calls id).map
        (signalCall (world.fetcher.waitersFor hash) channel id) } where
  fresh := by
    intro id signalled hsignalled hphase
    obtain ⟨call, hcall, rfl⟩ := Option.map_eq_some_iff.mp hsignalled
    by_cases hreached : id ∈ world.fetcher.waitersFor hash ∧ call.channel = .empty
    · rw [signalCall, if_pos hreached] at hphase
      exact absurd hphase (hlisted.mayWait_of_mem hcall hreached.1).not_fresh
    · rw [signalCall_of_not hreached] at hphase ⊢
      exact hlisted.fresh id call hcall hphase
  owned := by
    intro other id hmem
    by_cases hother : other = hash
    · rw [hother, BlobFetcher.waitersFor_dropWaiter_self] at hmem
      exact absurd hmem List.not_mem_nil
    · rw [BlobFetcher.waitersFor_dropWaiter_of_ne _ hother] at hmem
      obtain ⟨call, hcall, hmay⟩ := hlisted.owned other id hmem
      have hunreached : ¬ (id ∈ world.fetcher.waitersFor hash ∧ call.channel = .empty) := by
        rintro ⟨hreached, -⟩
        have hhash := (hlisted.mayWait_of_mem hcall hreached).1
        rw [hmay.1] at hhash
        exact hother hhash
      refine ⟨call, ?_, hmay⟩
      dsimp only
      rw [hcall, Option.map_some, signalCall_of_not hunreached]

/-- Recording an answer changes nothing that matters to the waiters. -/
theorem Listed.markAnswered (hlisted : Listed world) (hash : Hash) :
    Listed { world with calls := fun id ↦ (world.calls id).map (markAnswered hash) } where
  fresh := by
    intro id marked hmarked
    obtain ⟨call, hcall, rfl⟩ := Option.map_eq_some_iff.mp hmarked
    unfold Node.markAnswered
    split_ifs <;> exact hlisted.fresh id call hcall
  owned := by
    intro other id hmem
    obtain ⟨call, hcall, hmay⟩ := hlisted.owned other id hmem
    refine ⟨Node.markAnswered hash call, by dsimp only; rw [hcall]; rfl, ?_⟩
    unfold Node.markAnswered
    split_ifs <;> exact hmay

/-- A new call is not listed. -/
theorem Listed.newCall (hlisted : Listed world) (hnew : world.calls id = none) (hash : Hash)
    (timeout : Duration) : Listed (world.setCall id { hash := hash, timeout := timeout }) := by
  apply hlisted.setCall
  · exact fun _ ↦ rfl
  · intro other hmem
    obtain ⟨found, hfound, -⟩ := hlisted.owned other id hmem
    cases hnew.symm.trans hfound

theorem Listed.register (hlisted : Listed world) (hcall : world.calls id = some call)
    (hphase : call.phase = .missed) :
    Listed { world.setPhase id call .registered with
      fetcher := world.fetcher.pushWaiter call.hash id } := by
  have hregistered : Listed (world.setPhase id call .registered) :=
    hlisted.setCall (by simp) fun hash hmem ↦
      absurd hmem (hlisted.not_mem_of_fresh hcall (Or.inr hphase) hash)
  refine ⟨hregistered.fresh, fun hash other hmem ↦ ?_⟩
  rcases BlobFetcher.mem_waitersFor_pushWaiter.mp hmem with hearlier | ⟨hhash, hother⟩
  · exact hregistered.owned hash other hearlier
  · rw [hother]
    exact ⟨_, Function.update_self .., hhash.symm, hlisted.fresh id call hcall (Or.inr hphase),
      Or.inl rfl⟩

/-- A call that fails is no longer listed once it has removed the entry of its hash. -/
theorem Listed.cleanup (hlisted : Listed world) (hcall : world.calls id = some call)
    (error : CoreError) : Listed (world.cleanup id call error) := by
  have hsignalled := hlisted.signal call.hash .closed
  apply hsignalled.setCall
  · simp
  · intro hash hmem
    by_cases hhash : hash = call.hash
    · rw [hhash, BlobFetcher.waitersFor_dropWaiter_self] at hmem
      exact absurd hmem List.not_mem_nil
    · rw [BlobFetcher.waitersFor_dropWaiter_of_ne _ hhash] at hmem
      exact absurd (hlisted.mayWait_of_mem hcall hmem).1.symm hhash

/-- A usable response drops the entry of its hash and sends the data to the calls in it. -/
theorem deliver_of_usable {found : Bool} {data : Bytes} {fault : Option WriteFault}
    (husable : world.fetcher.Usable primitives fault found data) (hash : Hash) :
    world.deliver primitives hash found data fault = { world with
      fetcher := { world.fetcher with
        store := (world.fetcher.store.putBlob primitives fault data).2 }.dropWaiter hash
      calls := fun id ↦ ((world.calls id).map
        (signalCall (world.fetcher.waitersFor hash) (.sent data) id)).map
          (Node.markAnswered hash) } := by
  have hdelivered := BlobFetcher.onBlobReceived_of_usable husable hash
  simp only [FetchWorld.deliver, hdelivered, if_true, Option.map_map]
  rfl

/-- Any other response leaves the waiters and the calls as they are. -/
theorem deliver_of_not_usable {found : Bool} {data : Bytes} {fault : Option WriteFault}
    (husable : ¬ world.fetcher.Usable primitives fault found data) (hash : Hash) :
    (world.deliver primitives hash found data fault).fetcher.waiters = world.fetcher.waiters ∧
      (world.deliver primitives hash found data fault).calls = world.calls := by
  obtain ⟨store, hdelivered⟩ := BlobFetcher.onBlobReceived_of_not_usable husable hash
  constructor
  · simp only [FetchWorld.deliver, hdelivered]
  · funext id
    simp only [FetchWorld.deliver, hdelivered]
    cases world.calls id with
    | none => rfl
    | some call => simp [signalCall]

theorem Listed.deliver (hlisted : Listed world) (hash : Hash) (found : Bool) (data : Bytes)
    (fault : Option WriteFault) : Listed (world.deliver primitives hash found data fault) := by
  by_cases husable : world.fetcher.Usable primitives fault found data
  · rw [deliver_of_usable husable]
    exact ((hlisted.signal hash (.sent data)).markAnswered hash).congr rfl rfl
  · have hsame := deliver_of_not_usable husable hash
    exact hlisted.congr hsame.1 hsame.2

theorem Listed.callMove (hlisted : Listed world) (hcall : world.calls id = some call)
    {callStep : CallStep} {next : FetchWorld}
    (hmove : CallMove primitives world id call callStep next) : Listed next := by
  cases hmove with
  | lookup hphase =>
    apply hlisted.setPhase hcall
    · exact fun _ ↦ hlisted.fresh id call hcall (Or.inl hphase)
    · exact fun hmay ↦ absurd (Or.inl hphase) hmay.not_fresh
  | register hphase => exact hlisted.register hcall hphase
  | snapshot hphase =>
    apply hlisted.setPhase hcall
    · unfold phaseAfterSnapshot
      split_ifs <;> simp
    · intro hmay
      refine ⟨hmay.1, hmay.2.1, ?_⟩
      unfold phaseAfterSnapshot
      split_ifs
      · exact Or.inr ⟨_, rfl⟩
      · exact Or.inl rfl
  | @request raftId peerId rest peers hphase =>
    have hnext : Listed (world.setPhase id call (.requesting rest peers)) :=
      hlisted.setPhase hcall (by simp) fun hmay ↦ ⟨hmay.1, hmay.2.1, Or.inl rfl⟩
    exact hnext.congr rfl rfl
  | await hphase =>
    exact hlisted.setPhase hcall (by simp) fun hmay ↦ ⟨hmay.1, hmay.2.1, Or.inl rfl⟩
  | receive hphase hsent =>
    apply hlisted.setPhase hcall (by simp)
    intro hmay
    cases hsent.symm.trans hmay.2.1
  | dropped hphase hclosed =>
    apply hlisted.setPhase hcall (by simp)
    intro hmay
    cases hclosed.symm.trans hmay.2.1
  | expire hphase hempty hdeadline =>
    exact hlisted.setPhase hcall (by simp) fun hmay ↦ ⟨hmay.1, hmay.2.1, Or.inr ⟨_, rfl⟩⟩
  | cleanup hphase => exact hlisted.cleanup hcall _

theorem Listed.step (hlisted : Listed world) {action : FetchAction} {next : FetchWorld}
    (hstep : world.step primitives action = some next) : Listed next := by
  cases move_of_step hstep with
  | call hnew => exact hlisted.newCall hnew _ _
  | advanceCall hcall hmove => exact hlisted.callMove hcall hmove
  | deliver => exact hlisted.deliver _ _ _ _
  | elapse => exact hlisted.congr rfl rfl
  | updateRegistry => exact hlisted.congr rfl rfl

end Steps

end EdgeOrchestrator.Node.FetchIndependence

import EdgeOrchestrator.Node.Waiters

/-!
# Independence of concurrent fetches

A call that fails removes the whole entry of its hash, so it drops the senders of every other call
that waits for the same blob. Calls are independent along exactly the interleavings in which a
failing call finds nobody but failing calls registered under its hash: then no waiting call is ever
cut off, and a usable response makes every call that waits for it return the data.
-/

namespace EdgeOrchestrator.Node.FetchIndependence

open Execution FetchWorld Raft Storage

variable (primitives : Primitives)

/-- The steps a call has left to take when it waits for nothing but its channel. -/
def remainingSteps (id : ℕ) (call : Call) : List FetchAction :=
  match call.phase with
  | .requesting remaining _ =>
    List.replicate remaining.length (.advanceCall id .request) ++
      [.advanceCall id .await, .advanceCall id .resolve]
  | .waiting _ _ => [.advanceCall id .resolve]
  | _ => []

/-- The call has returned data, or returns data when it takes its remaining steps. -/
def ReturnsData (world : FetchWorld) (id : ℕ) (call : Call) : Prop :=
  ∃ final done data, run (step primitives) world (remainingSteps id call) = some final ∧
    final.calls id = some done ∧ done.phase = .returned (.ok data)

/-- No call that is registered was cut off by another one, and every call for which a usable
response came while it waited returns data. -/
def Independent (world : FetchWorld) : Prop :=
  ∀ id call, world.calls id = some call →
    (call.active = true → call.channel ≠ .closed) ∧
    (call.answered = true → ReturnsData primitives world id call)

/-- A call that cleans up finds no other call registered under its hash, failing ones apart. -/
def CleansUpAlone (world : FetchWorld) : FetchAction → Prop
  | .advanceCall id .cleanup =>
    ∀ call other waiting, world.calls id = some call → other ≠ id →
      other ∈ world.fetcher.waitersFor call.hash → world.calls other = some waiting →
      Failing waiting
  | _ => True

/-- The answer is in the channel, or was returned. -/
def HasAnswer (call : Call) : Prop :=
  call.awaitsAnswer = true ∧ (∃ data, call.channel = .sent data) ∨
    ∃ data, call.phase = .returned (.ok data)

/-- What holds of each call: registered and unanswered calls are among the waiters, and answered
ones have their answer. -/
structure CallSound (fetcher : BlobFetcher) (id : ℕ) (call : Call) : Prop where
  fresh : call.phase = .started ∨ call.phase = .missed → call.channel = .empty
  unclosed : call.active = true → call.channel ≠ .closed
  held : call.active = true → call.channel = .empty → id ∈ fetcher.waitersFor call.hash
  answered : call.answered = true → HasAnswer call

/-- A waiter has no answer yet. -/
theorem MayWait.not_hasAnswer {hash : Hash} {call : Call} (hmay : MayWait hash call) :
    ¬ HasAnswer call := by
  rcases hmay with ⟨-, hopen, hphase⟩
  rintro (⟨-, data, hsent⟩ | ⟨data, hreturned⟩)
  · cases hopen.symm.trans hsent
  · rcases hphase with hactive | ⟨error, herror⟩
    · rw [Call.active, hreturned] at hactive
      cases hactive
    · cases herror.symm.trans hreturned

/-- The waiters are the registered calls that are still unanswered, and failing ones. -/
structure Sound (world : FetchWorld) : Prop where
  calls : ∀ id call, world.calls id = some call → CallSound world.fetcher id call
  waiters : ∀ hash, ∀ id ∈ world.fetcher.waitersFor hash,
    ∃ call, world.calls id = some call ∧ MayWait hash call

/-- A registered call is not cut off and stays listed until it has an answer, which it keeps. -/
structure Served (fetcher : BlobFetcher) (id : ℕ) (call : Call) : Prop where
  unclosed : call.active = true → call.channel ≠ .closed
  held : call.active = true → call.channel = .empty → id ∈ fetcher.waitersFor call.hash
  answered : call.answered = true → HasAnswer call

def AllServed (world : FetchWorld) : Prop :=
  ∀ id call, world.calls id = some call → Served world.fetcher id call

variable {primitives}

theorem sound_iff {world : FetchWorld} : Sound world ↔ Listed world ∧ AllServed world := by
  constructor
  · intro hsound
    refine ⟨⟨fun id call hcall ↦ (hsound.calls id call hcall).fresh, hsound.waiters⟩, ?_⟩
    intro id call hcall
    have hold := hsound.calls id call hcall
    exact ⟨hold.unclosed, hold.held, hold.answered⟩
  · rintro ⟨hlisted, hall⟩
    refine ⟨fun id call hcall ↦ ?_, hlisted.owned⟩
    have hold := hall id call hcall
    exact ⟨hlisted.fresh id call hcall, hold.unclosed, hold.held, hold.answered⟩

theorem sound_start (now : Instant) (store : LocalObjectStore) :
    Sound { now := now, fetcher := { store := store } } := by
  apply sound_iff.mpr
  refine ⟨listed_start now store ∅, fun id call hcall ↦ ?_⟩
  cases hcall

theorem active_of_awaitsAnswer {call : Call} (hawaits : call.awaitsAnswer = true) :
    call.active = true := by
  unfold Call.awaitsAnswer at hawaits
  unfold Call.active
  cases hphase : call.phase <;> simp_all

/-- A call without an answer was not answered. -/
theorem Served.not_answered {fetcher : BlobFetcher} {id : ℕ} {call : Call}
    (hserved : Served fetcher id call) (hanswer : ¬ HasAnswer call) : call.answered ≠ true :=
  fun hanswered ↦ hanswer (hserved.answered hanswered)

/-- A call goes on to a phase in which it is owed what it was owed before. -/
theorem Served.setPhase {fetcher : BlobFetcher} {id : ℕ} {call : Call}
    (hserved : Served fetcher id call) {phase : Phase}
    (hactive : { call with phase := phase }.active = true → call.active = true)
    (hanswered : call.answered = true → HasAnswer { call with phase := phase }) :
    Served fetcher id { call with phase := phase } :=
  ⟨fun h ↦ hserved.unclosed (hactive h), fun h ↦ hserved.held (hactive h), hanswered⟩

/-- A call that waits for its answer goes on waiting. -/
theorem Served.keepWaiting {fetcher : BlobFetcher} {id : ℕ} {call : Call}
    (hserved : Served fetcher id call) {phase : Phase} (hawaits : call.awaitsAnswer = true)
    (hnext : { call with phase := phase }.awaitsAnswer = true) :
    Served fetcher id { call with phase := phase } := by
  apply hserved.setPhase
  · exact fun _ ↦ active_of_awaitsAnswer hawaits
  · intro hanswered
    rcases hserved.answered hanswered with ⟨-, hsent⟩ | ⟨data, hreturned⟩
    · exact Or.inl ⟨hnext, hsent⟩
    · rw [Call.awaitsAnswer, hreturned] at hawaits
      cases hawaits

section Steps

variable {world : FetchWorld} {id : ℕ} {call : Call}

theorem AllServed.congr (hall : AllServed world) {other : FetchWorld}
    (hwaiters : other.fetcher.waiters = world.fetcher.waiters) (hcalls : other.calls = world.calls) :
    AllServed other := by
  intro id call hcall
  rw [hcalls] at hcall
  have hold := hall id call hcall
  exact ⟨hold.unclosed, by rw [waitersFor_congr hwaiters]; exact hold.held, hold.answered⟩

theorem AllServed.setCall (hall : AllServed world) (hserved : Served world.fetcher id call) :
    AllServed (world.setCall id call) := by
  intro other found hfound
  rcases eq_or_of_update_eq_some hfound with ⟨hother, hnew⟩ | hkept
  · rw [hother, hnew]
    exact hserved
  · exact hall other found hkept

/-- Registering a waiter. -/
theorem AllServed.register (hall : AllServed world) (hcall : world.calls id = some call)
    (hphase : call.phase = .missed) (hopen : call.channel = .empty) :
    AllServed { world.setPhase id call .registered with
      fetcher := world.fetcher.pushWaiter call.hash id } := by
  have hanswer : ¬ HasAnswer call := by
    rintro (⟨hawaits, -⟩ | ⟨data, hreturned⟩)
    · rw [Call.awaitsAnswer, hphase] at hawaits
      cases hawaits
    · cases hphase.symm.trans hreturned
  intro other found hfound
  rcases eq_or_of_update_eq_some hfound with ⟨hother, hnew⟩ | hkept
  · rw [hother, hnew]
    refine ⟨fun _ hclosed ↦ ?_, fun _ _ ↦ ?_, fun hanswered ↦ ?_⟩
    · cases hopen.symm.trans hclosed
    · exact BlobFetcher.mem_waitersFor_pushWaiter.mpr (Or.inr ⟨rfl, rfl⟩)
    · exact absurd hanswered ((hall id call hcall).not_answered hanswer)
  · have hold := hall other found hkept
    refine ⟨hold.unclosed, fun hactive hchannel ↦ ?_, hold.answered⟩
    exact BlobFetcher.mem_waitersFor_pushWaiter.mpr (Or.inl (hold.held hactive hchannel))

/-- Empty the entry of one hash and signal the calls in it: no active one may be cut off. -/
theorem AllServed.signal (hall : AllServed world) (hlisted : Listed world) (hash : Hash)
    (channel : Channel)
    (hchannel : ∀ id call, world.calls id = some call → id ∈ world.fetcher.waitersFor hash →
      call.active = true → ∃ data, channel = .sent data) :
    AllServed { world with
      fetcher := world.fetcher.dropWaiter hash
      calls := fun id ↦ (world.calls id).map
        (signalCall (world.fetcher.waitersFor hash) channel id) } := by
  intro id signalled hsignalled
  rcases Option.map_eq_some_iff.mp hsignalled with ⟨call, hcall, rfl⟩
  have hold := hall id call hcall
  by_cases hreached : id ∈ world.fetcher.waitersFor hash ∧ call.channel = .empty
  · rw [signalCall, if_pos hreached]
    have hmay := hlisted.mayWait_of_mem hcall hreached.1
    refine ⟨fun hactive hclosed ↦ ?_, fun hactive hopen ↦ ?_, fun hanswered ↦ ?_⟩
    · rcases hchannel id call hcall hreached.1 hactive with ⟨data, hsent⟩
      cases hsent.symm.trans hclosed
    · rcases hchannel id call hcall hreached.1 hactive with ⟨data, hsent⟩
      cases hsent.symm.trans hopen
    · exact absurd hanswered (hold.not_answered hmay.not_hasAnswer)
  · rw [signalCall_of_not hreached]
    refine ⟨hold.unclosed, fun hactive hopen ↦ ?_, hold.answered⟩
    have hheld := hold.held hactive hopen
    have hother : call.hash ≠ hash := by
      intro hsame
      rw [hsame] at hheld
      exact hreached ⟨hheld, hopen⟩
    rw [BlobFetcher.waitersFor_dropWaiter_of_ne _ hother]
    exact hheld

/-- Once a hash has no waiter left, every call that waits for it has its answer. -/
theorem AllServed.markAnswered (hall : AllServed world) {hash : Hash}
    (hnone : world.fetcher.waitersFor hash = []) :
    AllServed { world with calls := fun id ↦ (world.calls id).map (markAnswered hash) } := by
  intro id marked hmarked
  rcases Option.map_eq_some_iff.mp hmarked with ⟨call, hcall, rfl⟩
  have hold := hall id call hcall
  unfold Node.markAnswered
  by_cases hawaits : call.hash = hash ∧ call.awaitsAnswer = true
  · rw [if_pos hawaits]
    refine ⟨hold.unclosed, hold.held, fun _ ↦ Or.inl ⟨hawaits.2, ?_⟩⟩
    have hactive := active_of_awaitsAnswer hawaits.2
    cases hchannel : call.channel with
    | empty =>
      have hheld := hold.held hactive hchannel
      rw [hawaits.1, hnone] at hheld
      cases hheld
    | sent data => exact ⟨data, rfl⟩
    | closed => exact absurd hchannel (hold.unclosed hactive)
  · rw [if_neg hawaits]
    exact hold

/-- A failing call that cleans up alone finds no active call among the waiters of its hash. -/
theorem CleansUpAlone.inactive (halone : CleansUpAlone world (.advanceCall id .cleanup))
    (hcall : world.calls id = some call) {error : CoreError} (hphase : call.phase = .failing error)
    {other : ℕ} {waiting : Call} (hwaiting : world.calls other = some waiting)
    (hmem : other ∈ world.fetcher.waitersFor call.hash) : waiting.active ≠ true := by
  intro hactive
  have hfailing : Failing waiting := by
    by_cases hother : other = id
    · rw [hother] at hwaiting
      rw [← Option.some.inj (hcall.symm.trans hwaiting)]
      exact ⟨error, hphase⟩
    · exact halone call other waiting hcall hother hmem hwaiting
  rcases hfailing with ⟨other, hfails⟩
  rw [Call.active, hfails] at hactive
  cases hactive

/-- A failing call that cleans up alone cuts nobody off. -/
theorem AllServed.cleanup (hall : AllServed world) (hlisted : Listed world)
    (hcall : world.calls id = some call) {error : CoreError} (hphase : call.phase = .failing error)
    (halone : CleansUpAlone world (.advanceCall id .cleanup)) :
    AllServed (world.cleanup id call error) := by
  have hsignalled := hall.signal hlisted call.hash .closed
    fun other waiting hwaiting hmem hactive ↦
      absurd hactive (halone.inactive hcall hphase hwaiting hmem)
  apply hsignalled.setCall
  refine ⟨by simp [Call.active], by simp [Call.active], fun hanswered ↦ ?_⟩
  simpa [HasAnswer, Call.awaitsAnswer, hphase] using (hall id call hcall).answered hanswered

/-- A delivery wakes every call that waits for the blob. -/
theorem AllServed.deliver (hall : AllServed world) (hlisted : Listed world) (hash : Hash)
    (found : Bool) (data : Bytes) (fault : Option WriteFault) :
    AllServed (world.deliver primitives hash found data fault) := by
  by_cases husable : world.fetcher.Usable primitives fault found data
  · rw [deliver_of_usable husable]
    have hsignalled := hall.signal hlisted hash (.sent data) fun _ _ _ _ _ ↦ ⟨data, rfl⟩
    have hmarked := hsignalled.markAnswered (BlobFetcher.waitersFor_dropWaiter_self _ hash)
    exact hmarked.congr rfl rfl
  · have hsame := deliver_of_not_usable husable hash
    exact hall.congr hsame.1 hsame.2

theorem AllServed.callMove (hall : AllServed world) (hlisted : Listed world)
    (hcall : world.calls id = some call) {callStep : CallStep} {next : FetchWorld}
    (halone : CleansUpAlone world (.advanceCall id callStep))
    (hmove : CallMove primitives world id call callStep next) : AllServed next := by
  have hold := hall id call hcall
  cases hmove with
  | lookup hphase =>
    apply hall.setCall
    apply hold.setPhase
    · unfold phaseAfterLookup
      split <;> simp [Call.active]
    · intro hanswered
      simpa [HasAnswer, Call.awaitsAnswer, hphase] using hold.answered hanswered
  | register hphase =>
    exact hall.register hcall hphase (hlisted.fresh id call hcall (Or.inr hphase))
  | snapshot hphase =>
    apply hall.setCall
    apply hold.setPhase
    · simp [Call.active, hphase]
    · intro hanswered
      simpa [HasAnswer, Call.awaitsAnswer, hphase] using hold.answered hanswered
  | request hphase =>
    have hawaits : call.awaitsAnswer = true := by rw [Call.awaitsAnswer, hphase]
    exact (hall.setCall (hold.keepWaiting hawaits rfl)).congr rfl rfl
  | await hphase =>
    have hawaits : call.awaitsAnswer = true := by rw [Call.awaitsAnswer, hphase]
    exact hall.setCall (hold.keepWaiting hawaits rfl)
  | @receive deadline peers data hphase hsent =>
    apply hall.setCall
    apply hold.setPhase
    · simp [Call.active]
    · exact fun _ ↦ Or.inr ⟨data, rfl⟩
  | dropped hphase hclosed =>
    have hactive : call.active = true := by rw [Call.active, hphase]
    exact absurd hclosed (hold.unclosed hactive)
  | expire hphase hempty hdeadline =>
    have hmay : MayWait call.hash call := ⟨rfl, hempty, Or.inl (by rw [Call.active, hphase])⟩
    apply hall.setCall
    apply hold.setPhase
    · simp [Call.active]
    · exact fun hanswered ↦ absurd hanswered (hold.not_answered hmay.not_hasAnswer)
  | cleanup hphase => exact hall.cleanup hlisted hcall hphase halone

end Steps

theorem Sound.step {world next : FetchWorld} (hsound : Sound world) {action : FetchAction}
    (halone : CleansUpAlone world action) (hstep : world.step primitives action = some next) :
    Sound next := by
  obtain ⟨hlisted, hall⟩ := sound_iff.mp hsound
  apply sound_iff.mpr
  apply And.intro (hlisted.step hstep)
  cases move_of_step hstep with
  | call hnew => exact hall.setCall ⟨nofun, nofun, nofun⟩
  | advanceCall hcall hmove => exact hall.callMove hlisted hcall halone hmove
  | deliver => exact hall.deliver hlisted _ _ _ _
  | elapse => exact hall.congr rfl rfl
  | updateRegistry => exact hall.congr rfl rfl

theorem returnsData_of_returned {world : FetchWorld} {id : ℕ} {call : Call} {data : Bytes}
    (hcall : world.calls id = some call) (hphase : call.phase = .returned (.ok data)) :
    ReturnsData primitives world id call := by
  refine ⟨world, call, data, ?_, hcall, hphase⟩
  rw [remainingSteps, hphase]
  rfl

/-- A call that returns data after its next step returns data. -/
theorem ReturnsData.of_step {world next : FetchWorld} {id : ℕ} {call later : Call}
    {callStep : CallStep} (hlater : ReturnsData primitives next id later)
    (hsteps : remainingSteps id call = .advanceCall id callStep :: remainingSteps id later)
    (hstep : world.step primitives (.advanceCall id callStep) = some next) :
    ReturnsData primitives world id call := by
  obtain ⟨final, done, data, hrun, hdone, hreturned⟩ := hlater
  refine ⟨final, done, data, ?_, hdone, hreturned⟩
  rw [hsteps]
  exact (run_cons_eq_some _).mpr ⟨next, hstep, hrun⟩

/-- A waiting call whose answer is in the channel returns it with its next step. -/
theorem returnsData_of_waiting {world : FetchWorld} {id : ℕ} {call : Call} {data : Bytes}
    (hcall : world.calls id = some call) (hsent : call.channel = .sent data)
    {deadline : Instant} {peers : ℕ} (hphase : call.phase = .waiting deadline peers) :
    ReturnsData primitives world id call := by
  have hreturned : ReturnsData primitives (world.setPhase id call (.returned (.ok data))) id
      { call with phase := .returned (.ok data) } :=
    returnsData_of_returned (Function.update_self ..) rfl
  apply hreturned.of_step
  · rw [remainingSteps, hphase]
    rfl
  · simp only [FetchWorld.step, hcall, FetchWorld.stepCall, hphase, hsent]

/-- A call that still has peers to ask asks them first. -/
theorem returnsData_of_requesting {world : FetchWorld} {id : ℕ} {call : Call} {data : Bytes}
    (hcall : world.calls id = some call) (hsent : call.channel = .sent data)
    {remaining : List (ℕ × PeerId)} {peers : ℕ}
    (hphase : call.phase = .requesting remaining peers) :
    ReturnsData primitives world id call := by
  induction remaining generalizing world call with
  | nil =>
    have hwaiting : ReturnsData primitives
        (world.setPhase id call (.waiting (world.now + call.timeout) peers)) id
        { call with phase := .waiting (world.now + call.timeout) peers } :=
      returnsData_of_waiting (Function.update_self ..) hsent rfl
    apply hwaiting.of_step
    · rw [remainingSteps, hphase]
      rfl
    · simp only [FetchWorld.step, hcall, FetchWorld.stepCall, hphase]
  | cons first rest ih =>
    rcases first with ⟨raftId, peerId⟩
    have hrest : ReturnsData primitives
        { world.setPhase id call (.requesting rest peers) with
          commands := world.commands ++ [.requestBlob peerId call.hash] } id
        { call with phase := .requesting rest peers } :=
      ih (Function.update_self ..) hsent rfl
    apply hrest.of_step
    · rw [remainingSteps, hphase]
      rfl
    · simp only [FetchWorld.step, hcall, FetchWorld.stepCall, hphase]

/-- A call whose answer is in the channel returns it. -/
theorem returnsData_of_sent {world : FetchWorld} {id : ℕ} {call : Call} {data : Bytes}
    (hcall : world.calls id = some call) (hsent : call.channel = .sent data)
    (hawaits : call.awaitsAnswer = true) : ReturnsData primitives world id call := by
  unfold Call.awaitsAnswer at hawaits
  split at hawaits
  · exact returnsData_of_requesting hcall hsent ‹_›
  · exact returnsData_of_waiting hcall hsent ‹_›
  · cases hawaits

theorem Sound.independent {world : FetchWorld} (hsound : Sound world) :
    Independent primitives world := by
  intro id call hcall
  have hold := hsound.calls id call hcall
  refine ⟨hold.unclosed, fun hanswered ↦ ?_⟩
  rcases hold.answered hanswered with ⟨hawaits, data, hsent⟩ | ⟨data, hreturned⟩
  · exact returnsData_of_sent hcall hsent hawaits
  · exact returnsData_of_returned hcall hreturned

/-- A cleanup closes the channel of everyone who still waits for the same blob. -/
theorem cleanup_closes {world : FetchWorld} {id other : ℕ} {call waiting : Call}
    (hother : other ≠ id) (hmem : other ∈ world.fetcher.waitersFor call.hash)
    (hwaiting : world.calls other = some waiting) (hempty : waiting.channel = .empty)
    (error : CoreError) :
    (world.cleanup id call error).calls other = some { waiting with channel := .closed } := by
  apply (Function.update_of_ne hother ..).trans
  dsimp only
  rw [hwaiting, Option.map_some, signalCall, if_pos ⟨hmem, hempty⟩]

theorem cleansUpAlone_of_independent {world next : FetchWorld} (hsound : Sound world)
    {action : FetchAction} (hstep : world.step primitives action = some next)
    (hindependent : Independent primitives next) : CleansUpAlone world action := by
  unfold CleansUpAlone
  split
  · rename_i id
    intro call other waiting hcall hother hmem hwaiting
    rcases hsound.waiters call.hash other hmem with ⟨found, hfound, -, hempty, hphase⟩
    rw [Option.some.inj (hfound.symm.trans hwaiting)] at hempty hphase
    rcases hphase with hactive | hfailing
    · have hstepCall : world.stepCall primitives id call .cleanup = some next := by
        rw [← hstep, FetchWorld.step, hcall]
      cases callMove_of_stepCall hstepCall with
      | cleanup hphase =>
        apply absurd rfl
        exact (hindependent other _ (cleanup_closes hother hmem hwaiting hempty _)).1 hactive
    · exact hfailing
  · trivial

/-- Fetches are independent throughout an interleaving exactly when every failing call cleans up
alone. -/
theorem independent_throughout_iff (now : Instant) (store : LocalObjectStore)
    (actions : List FetchAction) :
    Throughout (step primitives) (Independent primitives)
        { now := now, fetcher := { store := store } } actions ↔
      Guarded (step primitives) CleansUpAlone
        { now := now, fetcher := { store := store } } actions := by
  apply throughout_iff_guarded Sound
  · intro world hsound
    exact hsound.independent
  · intro world action next hsound halone hstep
    exact hsound.step halone hstep
  · intro world action next hsound hstep hindependent
    exact cleansUpAlone_of_independent hsound hstep hindependent
  · exact sound_start now store

/-- The hash of a snapshot that is not in the local store. -/
def snapshotHash : Hash := "2c26b46b68ffc68ff99b453c1d30413413422d706483bfa0f98a5e886266e7ae"

/-- The steps that bring a call to the point where it waits for its only peer. -/
def upToWaiting (id : ℕ) (timeout : Duration) : List FetchAction :=
  [.call id snapshotHash timeout, .advanceCall id .lookup, .advanceCall id .register,
    .advanceCall id .snapshot, .advanceCall id .request, .advanceCall id .await]

/-- A call that began to wait for its only peer. -/
def waitingCall (now : Instant) (timeout : Duration) : Call where
  hash := snapshotHash
  timeout := timeout
  phase := .waiting (now + timeout) 1

/-- The world with this call in it. -/
def withWaiting (world : FetchWorld) (id : ℕ) (timeout : Duration) (peerId : PeerId) : FetchWorld :=
  { world.setCall id (waitingCall world.now timeout) with
    fetcher := world.fetcher.pushWaiter snapshotHash id
    commands := world.commands ++ [.requestBlob peerId snapshotHash] }

theorem run_upToWaiting {world : FetchWorld} {id raftId : ℕ} {peerId : PeerId} {error : CoreError}
    (timeout : Duration) (hnew : world.calls id = none)
    (hmiss : world.fetcher.store.getBlob primitives snapshotHash = .err error)
    (hregistry : world.registry = Finmap.insert raftId peerId ∅) :
    run (step primitives) world (upToWaiting id timeout) =
      some (withWaiting world id timeout peerId) := by
  have hpeers : RaftIdRegistry.snapshot world.registry = [(raftId, peerId)] := by
    rw [hregistry, RaftIdRegistry.snapshot_singleton]
  simp [upToWaiting, run_cons, FetchWorld.step, FetchWorld.stepCall, setPhase, setCall, hnew,
    phaseAfterLookup, phaseAfterSnapshot, hmiss, hpeers, withWaiting, waitingCall]

/-- A call that times out closes the channel of another one that waits for the same blob. -/
theorem run_expire_cleanup {world : FetchWorld} {id other : ℕ} {call waiting : Call}
    {deadline : Instant} {peers : ℕ} (hcall : world.calls id = some call)
    (hphase : call.phase = .waiting deadline peers) (hempty : call.channel = .empty)
    (hdeadline : deadline ≤ world.now) (hother : other ≠ id)
    (hmem : other ∈ world.fetcher.waitersFor call.hash)
    (hwaiting : world.calls other = some waiting) (hunanswered : waiting.channel = .empty) :
    ∃ final, run (step primitives) world [.advanceCall id .expire, .advanceCall id .cleanup] =
      some final ∧ final.calls other = some { waiting with channel := .closed } := by
  let error := timeoutError call.timeout call.hash peers
  let expired := world.setPhase id call (.failing error)
  have hexpire : world.step primitives (.advanceCall id .expire) = some expired := by
    simp only [FetchWorld.step, hcall, FetchWorld.stepCall, hphase, if_pos (And.intro hempty hdeadline)]
    rfl
  have hfailing : expired.calls id = some { call with phase := .failing error } :=
    Function.update_self ..
  have hcleanup : expired.step primitives (.advanceCall id .cleanup) =
      some (expired.cleanup id { call with phase := .failing error } error) := by
    simp only [FetchWorld.step, hfailing, FetchWorld.stepCall]
  have hkept : expired.calls other = some waiting :=
    (Function.update_of_ne hother ..).trans hwaiting
  have hregistered : other ∈ expired.fetcher.waitersFor call.hash := hmem
  refine ⟨expired.cleanup id { call with phase := .failing error } error, ?_,
    cleanup_closes hother hregistered hkept hunanswered error⟩
  rw [run_cons, hexpire, Option.bind_some, run_cons, hcleanup]
  rfl

/-- Two fetches of one snapshot overlap, and the one with the shorter timeout fails. -/
def overlappingFetches : List FetchAction :=
  .updateRegistry (Finmap.insert 2 ⟨[2]⟩ ∅) :: upToWaiting 1 (Duration.fromSecs 1) ++
    upToWaiting 2 (Duration.fromSecs 300) ++
    [.elapse (Duration.fromSecs 1), .advanceCall 1 .expire, .advanceCall 1 .cleanup]

theorem timeout_cancels_other_fetch :
    ¬ ∀ (primitives : Primitives) (now : Instant) (store : LocalObjectStore)
      (actions : List FetchAction) (final : FetchWorld),
      run (step primitives) { now := now, fetcher := { store := store } } actions = some final →
        Independent primitives final := by
  intro hgeneral
  have hmiss : LocalObjectStore.getBlob tabulated ⟨[], ∅⟩ snapshotHash =
      .err (.objectNotFound snapshotHash) := rfl
  let start : FetchWorld :=
    { now := 0, fetcher := { store := ⟨[], ∅⟩ }, registry := Finmap.insert 2 ⟨[2]⟩ ∅ }
  let first := withWaiting start 1 (Duration.fromSecs 1) ⟨[2]⟩
  let second := withWaiting first 2 (Duration.fromSecs 300) ⟨[2]⟩
  have hfirst : run (step tabulated) start (upToWaiting 1 (Duration.fromSecs 1)) = some first :=
    run_upToWaiting (Duration.fromSecs 1) rfl hmiss rfl
  have hsecond : run (step tabulated) first (upToWaiting 2 (Duration.fromSecs 300)) = some second :=
    run_upToWaiting (Duration.fromSecs 300) rfl hmiss rfl
  have hmem : 2 ∈ second.fetcher.waitersFor snapshotHash :=
    BlobFetcher.mem_waitersFor_pushWaiter.mpr (Or.inr ⟨rfl, rfl⟩)
  have hshort : second.calls 1 = some (waitingCall 0 (Duration.fromSecs 1)) := rfl
  have hlong : second.calls 2 = some (waitingCall 0 (Duration.fromSecs 300)) := rfl
  let late : FetchWorld := { second with now := 0 + Duration.fromSecs 1 }
  have htimeout : ∃ final, run (step tabulated) late
      [.advanceCall 1 .expire, .advanceCall 1 .cleanup] = some final ∧
      final.calls 2 = some { waitingCall 0 (Duration.fromSecs 300) with channel := .closed } :=
    run_expire_cleanup hshort rfl rfl (Nat.le_refl _) (by decide) hmem hlong rfl
  rcases htimeout with ⟨final, hcleanup, hclosed⟩
  have hregistry : step tabulated { now := 0, fetcher := { store := ⟨[], ∅⟩ } }
      (.updateRegistry (Finmap.insert 2 ⟨[2]⟩ ∅)) = some start := rfl
  have helapse : step tabulated second (.elapse (Duration.fromSecs 1)) = some late := rfl
  have hrun : run (step tabulated) { now := 0, fetcher := { store := ⟨[], ∅⟩ } }
      overlappingFetches = some final := by
    rw [overlappingFetches, List.cons_append, List.cons_append, run_cons, hregistry,
      Option.bind_some, run_append, run_append, hfirst, Option.bind_some, hsecond,
      Option.bind_some, run_cons, helapse, Option.bind_some]
    exact hcleanup
  have hindependent := hgeneral tabulated 0 ⟨[], ∅⟩ overlappingFetches final hrun
  exact (hindependent 2 _ hclosed).1 rfl rfl

end EdgeOrchestrator.Node.FetchIndependence

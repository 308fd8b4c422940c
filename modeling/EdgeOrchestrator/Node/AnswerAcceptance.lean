import EdgeOrchestrator.Node.Waiters
import EdgeOrchestrator.Storage.PutHistory
import EdgeOrchestrator.Storage.ReadVerification

/-!
# Which answers end a wait

All peers are asked at once, and whoever answers first ends the wait. The fetcher takes an answer
for the content when it is not empty and says that the blob was found; it does not compare the
hash. So an answer is judged rightly exactly when nobody waits for it, when it refuses, or when its
data has the hash that was asked for just in case it is not empty.
-/

namespace EdgeOrchestrator.Node.AnswerAcceptance

open Execution FetchIndependence FetchWorld Storage

variable (primitives : Primitives)

/-- The answer carries the content that was asked for. -/
def Carries (hash : Hash) (found : Bool) (data : Bytes) : Prop :=
  found = true ∧ hashBlob primitives data = hash

/-- Exactly the requested content is handed to the waiters of the hash, who are then removed. After
any other answer they are all still registered. -/
structure AnsweredExactly (fetcher : BlobFetcher) (hash : Hash) (found : Bool) (data : Bytes) :
    Prop where
  handed : Carries primitives hash found data →
    (fetcher.onBlobReceived primitives none hash found data).2.2 = fetcher.waitersFor hash ∧
      (fetcher.onBlobReceived primitives none hash found data).2.1.waitersFor hash = []
  kept : ¬ Carries primitives hash found data →
    (fetcher.onBlobReceived primitives none hash found data).2.2 = [] ∧
      (fetcher.onBlobReceived primitives none hash found data).2.1.waitersFor hash =
        fetcher.waitersFor hash

/-- Nobody waits, the answer refuses, or it is empty exactly when its hash is another one. -/
def JudgedRightly (fetcher : BlobFetcher) (hash : Hash) (found : Bool) (data : Bytes) : Prop :=
  fetcher.waitersFor hash = [] ∨ (found = true → (data ≠ [] ↔ hashBlob primitives data = hash))

variable {primitives} {fetcher : BlobFetcher} {hash : Hash} {found : Bool} {data : Bytes}

/-- Without a fault, a response is usable when it says found and is not empty. -/
theorem usable_none_iff :
    fetcher.Usable primitives none found data ↔ found = true ∧ data ≠ [] := by
  constructor
  · rintro ⟨hfound, hdata, -⟩
    exact ⟨hfound, hdata⟩
  · rintro ⟨hfound, hdata⟩
    exact ⟨hfound, hdata, LocalObjectStore.not_writeFails_none primitives fetcher.store data⟩

variable (primitives fetcher hash) in
/-- What the fetcher takes for the content is handed to all waiters of the hash. -/
theorem handed_of_usable (husable : found = true ∧ data ≠ []) :
    (fetcher.onBlobReceived primitives none hash found data).2.2 = fetcher.waitersFor hash ∧
      (fetcher.onBlobReceived primitives none hash found data).2.1.waitersFor hash = [] := by
  rw [BlobFetcher.onBlobReceived_of_usable (usable_none_iff.mpr husable)]
  exact ⟨rfl, BlobFetcher.waitersFor_dropWaiter_self _ hash⟩

variable (primitives fetcher hash) in
theorem kept_of_not_usable (husable : ¬ (found = true ∧ data ≠ [])) :
    (fetcher.onBlobReceived primitives none hash found data).2.2 = [] ∧
      (fetcher.onBlobReceived primitives none hash found data).2.1.waitersFor hash =
        fetcher.waitersFor hash := by
  obtain ⟨store, hkept⟩ := BlobFetcher.onBlobReceived_of_not_usable
    (mt usable_none_iff.mp husable) hash
  rw [hkept]
  exact ⟨rfl, rfl⟩

/-- An answer is taken exactly for what it is when it is judged rightly. -/
theorem answeredExactly_iff :
    AnsweredExactly primitives fetcher hash found data ↔
      JudgedRightly primitives fetcher hash found data := by
  constructor
  · intro hexact
    by_cases hwaiters : fetcher.waitersFor hash = []
    · exact Or.inl hwaiters
    · right
      intro hfound
      constructor
      · intro hdata
        by_contra hhash
        have hcarries : ¬ Carries primitives hash found data := fun hcarries ↦ hhash hcarries.2
        have hhanded := (handed_of_usable primitives fetcher hash ⟨hfound, hdata⟩).1
        exact hwaiters (hhanded.symm.trans (hexact.kept hcarries).1)
      · rintro hhash hdata
        have hrefused : ¬ (found = true ∧ data ≠ []) := fun husable ↦ husable.2 hdata
        have hkept := (kept_of_not_usable primitives fetcher hash hrefused).1
        exact hwaiters ((hexact.handed ⟨hfound, hhash⟩).1.symm.trans hkept)
  · rintro (hnobody | hjudged)
    · -- with nobody waiting, there is nothing to hand over and nothing to remove
      by_cases husable : found = true ∧ data ≠ []
      · obtain ⟨hhanded, hremoved⟩ := handed_of_usable primitives fetcher hash husable
        exact ⟨fun _ ↦ ⟨hhanded, hremoved⟩,
          fun _ ↦ ⟨hhanded.trans hnobody, hremoved.trans hnobody.symm⟩⟩
      · obtain ⟨hnone, hsame⟩ := kept_of_not_usable primitives fetcher hash husable
        exact ⟨fun _ ↦ ⟨hnone.trans hnobody.symm, hsame.trans hnobody⟩, fun _ ↦ ⟨hnone, hsame⟩⟩
    · constructor
      · rintro ⟨hfound, hhash⟩
        exact handed_of_usable primitives fetcher hash ⟨hfound, (hjudged hfound).mpr hhash⟩
      · intro hcarries
        apply kept_of_not_usable
        rintro ⟨hfound, hdata⟩
        exact hcarries ⟨hfound, (hjudged hfound).mp hdata⟩

/-! ## Runs -/

variable (primitives)

/-- The step meets no fault of the file system. -/
def FaultFree : FetchAction → Prop
  | .deliver _ _ _ fault => fault = none
  | _ => True

/-- A delivery is taken exactly for what it is. -/
def TakenExactly (world : FetchWorld) : FetchAction → Prop
  | .deliver hash found data _ => AnsweredExactly primitives world.fetcher hash found data
  | _ => True

/-- What returns data returns the content that it was called for. -/
def ReturnsGenuine (world : FetchWorld) : Prop :=
  ∀ id call data, world.calls id = some call → call.phase = .returned (.ok data) →
    hashBlob primitives data = call.hash

/-- A blob that is stored under the hash has the hash. -/
def StoredGenuine (store : LocalObjectStore) (hash : Hash) : Prop :=
  ∀ data, store.HoldsAt primitives hash (.blob ⟨hash, data⟩) → hashBlob primitives data = hash

/-- A delivery is judged rightly, and a lookup finds nothing but genuine blobs. -/
def GenuineSources (world : FetchWorld) : FetchAction → Prop
  | .deliver hash found data _ => JudgedRightly primitives world.fetcher hash found data
  | .advanceCall id .lookup =>
    ∀ call, world.calls id = some call → StoredGenuine primitives world.fetcher.store call.hash
  | _ => True

/-- What the call was sent or has returned is the content that it was called for. -/
structure CallGenuine (call : Call) : Prop where
  sent : ∀ data, call.channel = .sent data → hashBlob primitives data = call.hash
  returned : ∀ data, call.phase = .returned (.ok data) → hashBlob primitives data = call.hash

def AllGenuine (world : FetchWorld) : Prop :=
  ∀ id call, world.calls id = some call → CallGenuine primitives call

variable {primitives}

theorem returned_phaseAfterLookup {world : FetchWorld} {hash : Hash} {data : Bytes} :
    world.phaseAfterLookup primitives hash = .returned (.ok data) ↔
      world.fetcher.store.getBlob primitives hash = .ok data := by
  rw [phaseAfterLookup]
  cases world.fetcher.store.getBlob primitives hash with
  | ok found => simp
  | err error => simp
  | lost loss => simp

section Steps

variable {world : FetchWorld} {id : ℕ} {call : Call}

theorem AllGenuine.setCall (hall : AllGenuine primitives world)
    (hgenuine : CallGenuine primitives call) : AllGenuine primitives (world.setCall id call) := by
  intro other found hfound
  rcases eq_or_of_update_eq_some hfound with ⟨-, hnew⟩ | hkept
  · rw [hnew]
    exact hgenuine
  · exact hall other found hkept

/-- A call goes on to a phase in which it has returned nothing but the content. -/
theorem AllGenuine.setPhase (hall : AllGenuine primitives world)
    (hcall : world.calls id = some call) {phase : Phase}
    (hreturned : ∀ data, phase = .returned (.ok data) → hashBlob primitives data = call.hash) :
    AllGenuine primitives (world.setPhase id call phase) :=
  hall.setCall ⟨(hall id call hcall).sent, hreturned⟩

/-- Calls are signalled with the content that they were called for, or without data. -/
theorem AllGenuine.signal (hall : AllGenuine primitives world) (fetcher : BlobFetcher)
    (waiters : List Waiter) (channel : Channel)
    (hchannel : ∀ id call data, world.calls id = some call → id ∈ waiters →
      channel = .sent data → hashBlob primitives data = call.hash) :
    AllGenuine primitives { world with
      fetcher := fetcher
      calls := fun id ↦ (world.calls id).map (signalCall waiters channel id) } := by
  intro id signalled hsignalled
  obtain ⟨call, hcall, rfl⟩ := Option.map_eq_some_iff.mp hsignalled
  have hold := hall id call hcall
  rw [signalCall]
  split_ifs with hreached
  · exact ⟨fun data hsent ↦ hchannel id call data hcall hreached.1 hsent, hold.returned⟩
  · exact hold

theorem AllGenuine.markAnswered (hall : AllGenuine primitives world) (hash : Hash) :
    AllGenuine primitives { world with
      calls := fun id ↦ (world.calls id).map (markAnswered hash) } := by
  intro id marked hmarked
  obtain ⟨call, hcall, rfl⟩ := Option.map_eq_some_iff.mp hmarked
  have hold := hall id call hcall
  rw [Node.markAnswered]
  split_ifs
  · exact ⟨hold.sent, hold.returned⟩
  · exact hold

/-- A delivery that is judged rightly sends nothing but the content. -/
theorem AllGenuine.deliver (hall : AllGenuine primitives world) (hlisted : Listed world)
    {hash : Hash} {found : Bool} {data : Bytes}
    (hjudged : JudgedRightly primitives world.fetcher hash found data) :
    AllGenuine primitives (world.deliver primitives hash found data none) := by
  by_cases husable : world.fetcher.Usable primitives none found data
  · rw [deliver_of_usable husable]
    apply AllGenuine.markAnswered (hall.signal _ _ _ _)
    intro id call sent hcall hmem hsent
    obtain ⟨hfound, hdata⟩ := usable_none_iff.mp husable
    rcases hjudged with hnobody | hright
    · rw [hnobody] at hmem
      cases hmem
    · rw [← Channel.sent.inj hsent, (hlisted.mayWait_of_mem hcall hmem).1]
      exact (hright hfound).mp hdata
  · intro id call hcall
    rw [(deliver_of_not_usable husable hash).2] at hcall
    exact hall id call hcall

theorem AllGenuine.callMove (hall : AllGenuine primitives world)
    (hcall : world.calls id = some call) {callStep : CallStep} {next : FetchWorld}
    (hsources : GenuineSources primitives world (.advanceCall id callStep))
    (hmove : CallMove primitives world id call callStep next) : AllGenuine primitives next := by
  cases hmove with
  | lookup hphase =>
    apply hall.setPhase hcall
    intro data hreturned
    have hget := returned_phaseAfterLookup.mp hreturned
    exact hsources call hcall data (LocalObjectStore.getBlob_eq_ok_iff.mp hget)
  | register hphase => exact hall.setPhase hcall nofun
  | snapshot hphase =>
    apply hall.setPhase hcall
    intro data hreturned
    rw [phaseAfterSnapshot] at hreturned
    split_ifs at hreturned
  | request hphase => exact hall.setPhase hcall nofun
  | await hphase => exact hall.setPhase hcall nofun
  | receive hphase hsent =>
    apply hall.setPhase hcall
    intro data hreturned
    rw [← Except.ok.inj (Phase.returned.inj hreturned)]
    exact (hall id call hcall).sent _ hsent
  | dropped hphase hclosed => exact hall.setPhase hcall nofun
  | expire hphase hempty hdeadline => exact hall.setPhase hcall nofun
  | cleanup hphase =>
    have hclosed := hall.signal (world.fetcher.dropWaiter call.hash)
      (world.fetcher.waitersFor call.hash) .closed nofun
    exact hclosed.setCall ⟨(hall id call hcall).sent, nofun⟩

theorem AllGenuine.step (hall : AllGenuine primitives world) (hlisted : Listed world)
    {action : FetchAction} {next : FetchWorld} (hfault : FaultFree action)
    (hsources : GenuineSources primitives world action)
    (hstep : world.step primitives action = some next) : AllGenuine primitives next := by
  cases move_of_step hstep with
  | call hnew => exact hall.setCall ⟨nofun, nofun⟩
  | advanceCall hcall hmove => exact hall.callMove hcall hsources hmove
  | deliver =>
    rw [show _ = none from hfault]
    exact hall.deliver hlisted hsources
  | elapse => exact hall
  | updateRegistry => exact hall

/-- A lookup that returns the content has found a genuine blob. -/
theorem genuineSources_of_returnsGenuine {action : FetchAction} {next : FetchWorld}
    (hstep : world.step primitives action = some next)
    (htaken : TakenExactly primitives world action)
    (hreturns : ReturnsGenuine primitives next) : GenuineSources primitives world action := by
  cases move_of_step hstep with
  | deliver => exact answeredExactly_iff.mp htaken
  | @advanceCall id call callStep next hcall hmove =>
    cases hmove with
    | lookup hphase =>
      intro found hfound data hholds
      rw [Option.some.inj (hcall.symm.trans hfound)] at hreturns
      apply hreturns id _ data (Function.update_self ..)
      apply returned_phaseAfterLookup.mpr
      exact LocalObjectStore.getBlob_eq_ok_iff.mpr hholds
    | _ => trivial
  | _ => trivial

end Steps

/-- For every state of the fetcher, an answer ends the waits exactly when it carries the content if
and only if it is judged rightly. Along a run without faults that is so at every delivery, and
every call returns nothing but its content, if and only if all deliveries are judged rightly and
all lookups find genuine blobs. -/
theorem answers_exact_iff (primitives : Primitives) :
    (∀ fetcher hash found data, AnsweredExactly primitives fetcher hash found data ↔
        JudgedRightly primitives fetcher hash found data) ∧
      ∀ now store registry (actions : List FetchAction), (∀ action ∈ actions, FaultFree action) →
        (Guarded (step primitives) (TakenExactly primitives)
              { now := now, fetcher := { store := store }, registry := registry } actions ∧
            Throughout (step primitives) (ReturnsGenuine primitives)
              { now := now, fetcher := { store := store }, registry := registry } actions ↔
          Guarded (step primitives) (GenuineSources primitives)
            { now := now, fetcher := { store := store }, registry := registry } actions) := by
  refine ⟨fun _ _ _ _ ↦ answeredExactly_iff, ?_⟩
  intro now store registry actions hfaults
  constructor
  · rintro ⟨htaken, hreturns⟩
    apply guarded_of_throughout _ htaken hreturns
    intro world action next hstep htaken hreturns
    exact genuineSources_of_returnsGenuine hstep htaken hreturns
  · intro hsources
    constructor
    · apply guarded_of_guarded (fun _ ↦ True) _ (fun _ _ _ _ _ _ ↦ trivial) trivial hsources
      intro world action _ _ hsource _
      cases action with
      | deliver hash found data fault => exact answeredExactly_iff.mpr hsource
      | _ => trivial
    · have hclean := hsources.and_of_forall_mem hfaults
      refine throughout_of_guarded (fun world ↦ Listed world ∧ AllGenuine primitives world)
        ?_ ?_ ?_ hclean
      · intro world hgenuine id call data hcall
        exact (hgenuine.2 id call hcall).returned data
      · rintro world action next ⟨hlisted, hall⟩ ⟨hsource, hfault⟩ hstep
        exact ⟨hlisted.step hstep, hall.step hlisted hfault hsource hstep⟩
      · exact ⟨listed_start now store registry, fun id call hcall ↦ nomatch hcall⟩

def emptyBlobHash : Hash := hexEncode emptyBlobDigest

/-- A call waits for the empty blob. -/
def waitingFetcher : BlobFetcher := BlobFetcher.pushWaiter { store := ⟨[], ∅⟩ } emptyBlobHash 0

/-- One byte ends the wait for the empty blob, and the empty blob itself does not. -/
theorem answers_for_empty_blob :
    ¬ AnsweredExactly tabulated waitingFetcher emptyBlobHash true [0] ∧
      ¬ AnsweredExactly tabulated waitingFetcher emptyBlobHash true [] := by
  have hwaiters : waitingFetcher.waitersFor emptyBlobHash = [0] :=
    BlobFetcher.waitersFor_pushWaiter_self _ _ _
  constructor
  · intro hexact
    have hother : hashBlob tabulated [0] ≠ emptyBlobHash := by decide
    have hkept := (hexact.kept fun hcarries ↦ hother hcarries.2).1
    rw [(handed_of_usable _ _ _ ⟨rfl, by decide⟩).1, hwaiters] at hkept
    cases hkept
  · intro hexact
    have hsame : hashBlob tabulated [] = emptyBlobHash := by decide
    have hhanded := (hexact.handed ⟨rfl, hsame⟩).1
    rw [(kept_of_not_usable _ _ _ fun husable ↦ husable.2 rfl).1, hwaiters] at hhanded
    cases hhanded

/-- A call for a blob that is not stored gets it from the first peer. -/
def answeredFetch : List FetchAction :=
  [.call 0 (hexEncode releaseDigest) (.fromSecs 1), .advanceCall 0 .lookup,
    .advanceCall 0 .register, .deliver (hexEncode releaseDigest) true releaseJson none]

theorem answers_exact_answeredFetch :
    (∀ action ∈ answeredFetch, FaultFree action) ∧
      Throughout (step releaseTabulated) (ReturnsGenuine releaseTabulated)
        { now := 0, fetcher := { store := ⟨[], ∅⟩ }, registry := ∅ } answeredFetch := by
  have hfaults : ∀ action ∈ answeredFetch, FaultFree action := by
    intro action hmem
    simp only [answeredFetch, List.mem_cons, List.not_mem_nil, or_false] at hmem
    rcases hmem with rfl | rfl | rfl | rfl <;> trivial
  refine ⟨hfaults, (((answers_exact_iff releaseTabulated).2 0 ⟨[], ∅⟩ ∅ _ hfaults).mpr ?_).2⟩
  intro called hcalled
  refine ⟨trivial, fun missed hmissed ↦ ⟨?_, fun registered hregistered ↦
    ⟨trivial, fun delivered hdelivered ↦ ⟨?_, trivial⟩⟩⟩⟩
  · intro call hcall data hholds
    obtain ⟨bytes, ⟨path, place, -, -, hfile, -⟩, -⟩ := hholds
    cases hcalled
    cases (LocalObjectStore.node_eq_file_iff.mp hfile).2
  · right
    intro _
    have hhash : hashBlob releaseTabulated releaseJson = hexEncode releaseDigest :=
      hash_releaseBlobPut
    exact ⟨fun _ ↦ hhash, fun _ ↦ by decide⟩

end EdgeOrchestrator.Node.AnswerAcceptance

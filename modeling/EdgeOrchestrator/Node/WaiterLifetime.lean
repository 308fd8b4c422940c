import EdgeOrchestrator.Node.Waiters
import EdgeOrchestrator.Storage.PutHistory

/-!
# How long a waiter is kept

A listed call has not come to an end, no call is listed twice, and a list without waiters is not
kept. So the map is empty when no call is under way.
-/

namespace EdgeOrchestrator.Node.WaiterLifetime

open Execution FetchIndependence FetchWorld Storage

variable {primitives : Primitives}

/-- The call has not come to an end. -/
def InProgress (call : Call) : Prop :=
  (∀ outcome, call.phase ≠ .returned outcome) ∧ ∀ loss, call.phase ≠ .lost loss

theorem inProgress_of_mayWait {hash : Hash} {call : Call} (hmay : MayWait hash call) :
    InProgress call := by
  rcases hmay with ⟨-, -, hactive | ⟨error, herror⟩⟩
  · constructor <;>
    · intro ended hended
      rw [Call.active, hended] at hactive
      cases hactive
  · constructor <;>
    · intro ended hended
      cases herror.symm.trans hended

/-- The lists of waiters have no duplicates, and a list without waiters is not kept. -/
structure Tidy (fetcher : BlobFetcher) : Prop where
  nodup : ∀ hash, (fetcher.waitersFor hash).Nodup
  nonempty : ∀ hash, fetcher.waiters.lookup hash ≠ some []

/-- Whoever is listed waits, once, and nothing else is kept. -/
structure Live (world : FetchWorld) : Prop extends Listed world where
  tidy : Tidy world.fetcher

theorem Tidy.pushWaiter {fetcher : BlobFetcher} (htidy : Tidy fetcher) {hash : Hash}
    {waiter : Waiter} (hnew : waiter ∉ fetcher.waitersFor hash) :
    Tidy (fetcher.pushWaiter hash waiter) where
  nodup := by
    intro other
    by_cases hother : other = hash
    · rw [hother, BlobFetcher.waitersFor_pushWaiter_self, ← List.concat_eq_append]
      exact (htidy.nodup hash).concat hnew
    · rw [BlobFetcher.waitersFor_pushWaiter_of_ne fetcher waiter hother]
      exact htidy.nodup other
  nonempty := by
    intro other
    by_cases hother : other = hash
    · rw [hother, BlobFetcher.pushWaiter, Finmap.lookup_insert]
      simp
    · rw [BlobFetcher.pushWaiter, Finmap.lookup_insert_of_ne _ hother]
      exact htidy.nonempty other

theorem Tidy.dropWaiter {fetcher : BlobFetcher} (htidy : Tidy fetcher) (hash : Hash) :
    Tidy (fetcher.dropWaiter hash) where
  nodup := by
    intro other
    by_cases hother : other = hash
    · rw [hother, BlobFetcher.waitersFor_dropWaiter_self]
      exact List.nodup_nil
    · rw [BlobFetcher.waitersFor_dropWaiter_of_ne fetcher hother]
      exact htidy.nodup other
  nonempty := by
    intro other
    by_cases hother : other = hash
    · rw [hother, BlobFetcher.dropWaiter, Finmap.lookup_erase]
      simp
    · rw [BlobFetcher.dropWaiter, Finmap.lookup_erase_ne hother]
      exact htidy.nonempty other

theorem Tidy.congr {fetcher other : BlobFetcher} (htidy : Tidy fetcher)
    (hwaiters : other.waiters = fetcher.waiters) : Tidy other where
  nodup := by
    rw [waitersFor_congr hwaiters]
    exact htidy.nodup
  nonempty := by
    rw [hwaiters]
    exact htidy.nonempty

theorem Tidy.callMove {world next : FetchWorld} {id : ℕ} {call : Call} {callStep : CallStep}
    (htidy : Tidy world.fetcher) (hlisted : Listed world) (hcall : world.calls id = some call)
    (hmove : CallMove primitives world id call callStep next) : Tidy next.fetcher := by
  cases hmove with
  | register hphase =>
    exact htidy.pushWaiter (hlisted.not_mem_of_fresh hcall (Or.inr hphase) call.hash)
  | cleanup hphase => exact htidy.dropWaiter call.hash
  | _ => exact htidy

theorem Tidy.deliver {world : FetchWorld} (htidy : Tidy world.fetcher) (hash : Hash) (found : Bool)
    (data : Bytes) (fault : Option WriteFault) :
    Tidy (world.deliver primitives hash found data fault).fetcher := by
  by_cases husable : world.fetcher.Usable primitives fault found data
  · rw [deliver_of_usable husable]
    exact (htidy.dropWaiter hash).congr rfl
  · exact htidy.congr (deliver_of_not_usable husable hash).1

theorem live_start (now : Instant) (store : LocalObjectStore) (registry : Raft.RaftIdRegistry) :
    Live { now := now, fetcher := { store := store }, registry := registry } := by
  have htidy : Tidy { store := store } :=
    ⟨fun _ ↦ List.nodup_nil, fun _ ↦ Option.some_ne_none [] ∘ Eq.symm⟩
  exact ⟨listed_start now store registry, htidy⟩

theorem Live.step {world next : FetchWorld} (hlive : Live world) {action : FetchAction}
    (hstep : world.step primitives action = some next) : Live next := by
  refine ⟨hlive.toListed.step hstep, ?_⟩
  cases move_of_step hstep with
  | advanceCall hcall hmove => exact hlive.tidy.callMove hlive.toListed hcall hmove
  | deliver => exact hlive.tidy.deliver _ _ _ _
  | _ => exact hlive.tidy

theorem live_of_run {now : Instant} {store : LocalObjectStore} {registry : Raft.RaftIdRegistry}
    {actions : List FetchAction} {final : FetchWorld}
    (hrun : run (step primitives) { now := now, fetcher := { store := store }, registry := registry }
      actions = some final) : Live final :=
  invariant_of_run Live (fun _ _ _ hlive hstep ↦ hlive.step hstep) (live_start now store registry)
    hrun

/-- After every run the map lists calls that have not come to an end, each at most once and under
the hash it asked for. When no call is under way, the map is empty. -/
theorem waiters_are_in_progress (primitives : Primitives) (now : Instant)
    (store : LocalObjectStore) (registry : Raft.RaftIdRegistry) (actions : List FetchAction)
    (final : FetchWorld)
    (hrun : run (step primitives) { now := now, fetcher := { store := store }, registry := registry }
      actions = some final) :
    (∀ hash waiters, final.fetcher.waiters.lookup hash = some waiters →
      waiters.Nodup ∧ ∀ id ∈ waiters, ∃ call, final.calls id = some call ∧ call.hash = hash ∧
        InProgress call) ∧
      ((∀ id call, final.calls id = some call → ¬ InProgress call) →
        final.fetcher.waiters = ∅) := by
  have hlive := live_of_run hrun
  have hlisted : ∀ hash waiters, final.fetcher.waiters.lookup hash = some waiters →
      final.fetcher.waitersFor hash = waiters := by
    intro hash waiters hlookup
    rw [BlobFetcher.waitersFor, hlookup, Option.getD_some]
  constructor
  · intro hash waiters hlookup
    rw [← hlisted hash waiters hlookup]
    refine ⟨hlive.tidy.nodup hash, fun id hmem ↦ ?_⟩
    obtain ⟨call, hcall, hmay⟩ := hlive.owned hash id hmem
    exact ⟨call, hcall, hmay.1, inProgress_of_mayWait hmay⟩
  · intro hidle
    apply Finmap.ext_lookup
    intro hash
    rw [Finmap.lookup_empty]
    by_contra hsome
    obtain ⟨waiters, hlookup⟩ := Option.ne_none_iff_exists'.mp hsome
    have hnonempty : waiters ≠ [] := by
      intro hnil
      rw [hnil] at hlookup
      exact hlive.tidy.nonempty hash hlookup
    obtain ⟨id, hmem⟩ := List.exists_mem_of_ne_nil waiters hnonempty
    rw [← hlisted hash waiters hlookup] at hmem
    obtain ⟨call, hcall, hmay⟩ := hlive.owned hash id hmem
    exact hidle id call hcall (inProgress_of_mayWait hmay)

/-- Two calls wait for one blob and a third for another. -/
def threeCalls (first second : Hash) : List FetchAction :=
  [.call 0 first (.fromSecs 1), .call 1 first (.fromSecs 1), .call 2 second (.fromSecs 1),
    .advanceCall 0 .lookup, .advanceCall 1 .lookup, .advanceCall 2 .lookup,
    .advanceCall 0 .register, .advanceCall 1 .register, .advanceCall 2 .register]

theorem run_threeCalls :
    ∃ waiting, run (step releaseTabulated) { now := 0, fetcher := { store := ⟨[], ∅⟩ } }
        (threeCalls (hexEncode releaseDigest) (hexEncode emptyBlobDigest)) = some waiting ∧
      waiting.fetcher.waitersFor (hexEncode releaseDigest) = [0, 1] ∧
      waiting.fetcher.waitersFor (hexEncode emptyBlobDigest) = [2] := by
  have hne : hexEncode emptyBlobDigest ≠ hexEncode releaseDigest := by decide
  refine ⟨_, rfl, ?_, ?_⟩
  · rw [BlobFetcher.waitersFor_pushWaiter_of_ne _ _ hne.symm,
      BlobFetcher.waitersFor_pushWaiter_self, BlobFetcher.waitersFor_pushWaiter_self]
    rfl
  · rw [BlobFetcher.waitersFor_pushWaiter_self, BlobFetcher.waitersFor_pushWaiter_of_ne _ _ hne,
      BlobFetcher.waitersFor_pushWaiter_of_ne _ _ hne]
    rfl

/-- The first blob arrives and its waiters are taken off the map. -/
theorem waiters_are_in_progress_threeCalls :
    let first := hexEncode releaseDigest
    let second := hexEncode emptyBlobDigest
    ∃ waiting final, run (step releaseTabulated) { now := 0, fetcher := { store := ⟨[], ∅⟩ } }
        (threeCalls first second) = some waiting ∧
      waiting.step releaseTabulated (.deliver first true releaseJson none) = some final ∧
      waiting.fetcher.waitersFor first = [0, 1] ∧ final.fetcher.waitersFor first = [] ∧
      final.fetcher.waitersFor second = [2] ∧
      ∀ hash waiters, final.fetcher.waiters.lookup hash = some waiters →
        waiters.Nodup ∧ ∀ id ∈ waiters, ∃ call, final.calls id = some call ∧ call.hash = hash ∧
          InProgress call := by
  intro first second
  have hne : second ≠ first := by decide
  obtain ⟨waiting, hwaiting, hfirst, hsecond⟩ := run_threeCalls
  have husable : waiting.fetcher.Usable releaseTabulated none true releaseJson :=
    ⟨rfl, by decide, LocalObjectStore.not_writeFails_none _ _ _⟩
  have hdeliver := deliver_of_usable husable first
  have hrun : run (step releaseTabulated) { now := 0, fetcher := { store := ⟨[], ∅⟩ } }
      (threeCalls first second ++ [.deliver first true releaseJson none]) =
        some (waiting.deliver releaseTabulated first true releaseJson none) := by
    rw [run_append, hwaiting]
    rfl
  refine ⟨waiting, _, hwaiting, rfl, hfirst, ?_, ?_,
    (waiters_are_in_progress releaseTabulated 0 ⟨[], ∅⟩ ∅ _ _ hrun).1⟩
  · rw [hdeliver, BlobFetcher.waitersFor_dropWaiter_self]
  · rw [hdeliver, BlobFetcher.waitersFor_dropWaiter_of_ne _ hne, ← hsecond]
    rfl

end EdgeOrchestrator.Node.WaiterLifetime

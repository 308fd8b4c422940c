import EdgeOrchestrator.Node.RemoteHash

/-!
# Inline snapshots

A task may carry the bytes of its snapshot, and the executor unpacks these when it gets so far. It
makes sure of the blob of the snapshot first, though, whether or not it will read it. So a task with
inline bytes is asked for, and given up, like one without.
-/

namespace EdgeOrchestrator.Node

open Execution FetchWorld Storage

/-- Default bound for a blob fetch. -/
def defaultFetchTimeout : Duration := .fromSecs 300

/-- The bytes that `QleanProjectExecutor::run` unpacks, if it comes to that. -/
def QleanProjectExecutor.unpacked (primitives : Primitives)
    (unpackTar : Bytes → Path → Outcome CoreError Unit) (store : LocalObjectStore)
    (task : ProjectTask) (ensured : Except CoreError Bytes) (projectDir : Except String Path) :
    Option Bytes :=
  match ensured, projectDir with
  | .ok _, .ok dest => (extractSnapshot primitives unpackTar store task.snapshot dest).1
  | _, _ => none

/-- A run of the executor that returns a result has unpacked something. -/
theorem QleanProjectExecutor.unpacked_of_run_eq_ok {primitives : Primitives}
    {unpackTar : Bytes → Path → Outcome CoreError Unit} {store : LocalObjectStore}
    {task : ProjectTask} {ensured : Except CoreError Bytes} {projectDir : Except String Path}
    {sandboxed : Except String ProjectResult} {result : ProjectResult}
    (hrun : run primitives unpackTar store task ensured projectDir sandboxed = .ok result) :
    ∃ bytes, unpacked primitives unpackTar store task ensured projectDir = some bytes := by
  unfold run at hrun
  split at hrun
  · cases hrun
  · cases hrun
  · rename_i dest
    cases hbytes : snapshotBytes primitives store task.snapshot with
    | ok bytes => exact ⟨bytes, by rw [unpacked, extractSnapshot, hbytes]⟩
    | err error =>
      rw [extractSnapshot, hbytes] at hrun
      cases hrun
    | lost loss =>
      rw [extractSnapshot, hbytes] at hrun
      cases hrun

/-- What the executor does first: it calls `ensure_blob`, which looks into the local store. -/
def ensureActions (id : ℕ) (task : ProjectTask) : List FetchAction :=
  [.call id task.snapshot.hash defaultFetchTimeout, .advanceCall id .lookup]

/-- However the fetch goes on, it comes to an end without an answer of a peer, and where it has
ended the executor unpacks the inline bytes. -/
def UnpacksInline (primitives : Primitives) (world : FetchWorld) (id : ℕ) (task : ProjectTask) :
    Prop :=
  ∀ later final, run (step primitives) world (ensureActions id task ++ later) = some final →
    CanReturn primitives final id ∧
    ∀ call outcome, final.calls id = some call → call.phase = .returned outcome →
      ∀ (unpackTar : Bytes → Path → Outcome CoreError Unit) (dest : Path),
        QleanProjectExecutor.unpacked primitives unpackTar final.fetcher.store task outcome
          (.ok dest) = some task.snapshot.tarBytes

/-! ## Calls that have ended -/

/-- The call has returned or is lost. -/
def Phase.Ended : Phase → Prop
  | .returned _ | .lost _ => True
  | _ => False

section Ended

variable {primitives : Primitives} {world next : FetchWorld} {id : ℕ} {call : Call}

theorem not_callMove_of_ended (hended : call.phase.Ended) {callStep : CallStep} :
    ¬ CallMove primitives world id call callStep next := by
  intro hmove
  cases hmove <;> simp_all [Phase.Ended]

/-- A step of one call keeps the phase of every other. -/
theorem phase_of_callMove {other : ℕ} {moving : Call} {callStep : CallStep} (hother : id ≠ other)
    (hcall : world.calls id = some call)
    (hmove : CallMove primitives world other moving callStep next) :
    ∃ later, next.calls id = some later ∧ later.phase = call.phase := by
  cases hmove with
  | @cleanup error hphase =>
    refine ⟨signalCall (world.fetcher.waitersFor moving.hash) .closed id call, ?_,
      phase_signalCall ..⟩
    have hkept : (world.cleanup other moving error).calls id =
        (world.calls id).map (signalCall (world.fetcher.waitersFor moving.hash) .closed id) :=
      Function.update_of_ne hother ..
    rw [hkept, hcall, Option.map_some]
  | _ => exact ⟨call, (Function.update_of_ne hother ..).trans hcall, rfl⟩

/-- A call that has ended stays as it is. -/
theorem phase_of_step (hcall : world.calls id = some call) (hended : call.phase.Ended)
    {action : FetchAction} (hstep : world.step primitives action = some next) :
    ∃ later, next.calls id = some later ∧ later.phase = call.phase := by
  cases move_of_step hstep with
  | @call other hash timeout hnew =>
    have hother : id ≠ other := by
      intro hsame
      rw [hsame, hnew] at hcall
      cases hcall
    exact ⟨call, (Function.update_of_ne hother ..).trans hcall, rfl⟩
  | @advanceCall other moving callStep _ hmoving hmove =>
    by_cases hsame : id = other
    · rw [hsame, hmoving, Option.some_inj] at hcall
      rw [← hcall] at hended
      exact absurd hmove (not_callMove_of_ended hended)
    · exact phase_of_callMove hsame hcall hmove
  | @deliver hash found data fault =>
    obtain ⟨change, hcalls, -, hphase⟩ := world.calls_deliver primitives hash found data fault
    exact ⟨change id call, by rw [hcalls, hcall, Option.map_some], hphase id call⟩
  | elapse => exact ⟨call, hcall, rfl⟩
  | updateRegistry => exact ⟨call, hcall, rfl⟩

theorem phase_of_run (hcall : world.calls id = some call) (hended : call.phase.Ended)
    {actions : List FetchAction} (hrun : run (step primitives) world actions = some next) :
    ∃ later, next.calls id = some later ∧ later.phase = call.phase := by
  have hkeep : ∀ world action next,
      (∃ later, world.calls id = some later ∧ later.phase = call.phase) →
        step primitives world action = some next →
          ∃ later, next.calls id = some later ∧ later.phase = call.phase := by
    intro world action next hbefore hstep
    obtain ⟨before, hbefore, hphase⟩ := hbefore
    rw [← hphase] at hended ⊢
    exact phase_of_step hbefore hended hstep
  exact invariant_of_run (fun world ↦ ∃ later, world.calls id = some later ∧
    later.phase = call.phase) hkeep ⟨call, hcall, rfl⟩ hrun

end Ended

/-! ## What the executor needs -/

section Inline

variable {primitives : Primitives} {world : FetchWorld} {id : ℕ} {task : ProjectTask}

/-- The call of the executor when the local lookup has led to the phase. -/
def ensureCall (task : ProjectTask) (phase : Phase) : Call where
  hash := task.snapshot.hash
  timeout := defaultFetchTimeout
  phase := phase

/-- The world after the local lookup. -/
theorem run_ensureActions (hnew : world.calls id = none) :
    ∃ next, run (step primitives) world (ensureActions id task) = some next ∧
      next.calls id = some (ensureCall task
        (world.phaseAfterLookup primitives task.snapshot.hash)) := by
  let started := world.setCall id { hash := task.snapshot.hash, timeout := defaultFetchTimeout }
  have hcall : world.step primitives (.call id task.snapshot.hash defaultFetchTimeout) =
      some started := by
    rw [FetchWorld.step, hnew]
  have hstarted : started.calls id =
      some { hash := task.snapshot.hash, timeout := defaultFetchTimeout } :=
    Function.update_self ..
  let next := started.setPhase id { hash := task.snapshot.hash, timeout := defaultFetchTimeout }
    (world.phaseAfterLookup primitives task.snapshot.hash)
  have hlookup : started.step primitives (.advanceCall id .lookup) = some next := by
    rw [FetchWorld.step, hstarted]
    rfl
  refine ⟨next, ?_, Function.update_self ..⟩
  rw [ensureActions, run_cons, hcall, Option.bind_some, run_cons, hlookup]
  rfl

/-- A task is unpacked from its inline bytes once its blob is there. -/
theorem unpacked_of_inline (hinline : task.snapshot.tarBytes ≠ [])
    (unpackTar : Bytes → Path → Outcome CoreError Unit) (store : LocalObjectStore)
    (data : Bytes) (dest : Path) :
    QleanProjectExecutor.unpacked primitives unpackTar store task (.ok data) (.ok dest) =
      some task.snapshot.tarBytes := by
  rw [QleanProjectExecutor.unpacked, extractSnapshot, snapshotBytes, if_pos hinline]

/-- With its blob in the local store the executor goes straight on to the inline bytes. -/
theorem unpacksInline_of_readable (hnew : world.calls id = none)
    (hinline : task.snapshot.tarBytes ≠ []) {data : Bytes}
    (hreadable : world.fetcher.store.getBlob primitives task.snapshot.hash = .ok data) :
    UnpacksInline primitives world id task := by
  intro later final hrun
  obtain ⟨next, hensured, hcall⟩ := @run_ensureActions primitives world id task hnew
  rw [run_append, hensured, Option.bind_some] at hrun
  have hlookup : world.phaseAfterLookup primitives task.snapshot.hash = .returned (.ok data) := by
    rw [phaseAfterLookup, hreadable]
  rw [hlookup] at hcall
  obtain ⟨done, hdone, hphase⟩ := phase_of_run hcall trivial hrun
  have hreturns : CanReturnWith primitives anyOutcome final id :=
    canReturn_of_returned hdone hphase trivial
  constructor
  · exact hreturns.canReturn
  · intro call outcome hother hreturned unpackTar dest
    rw [hdone, Option.some_inj] at hother
    rw [← hother, hphase] at hreturned
    rw [← Phase.returned.inj hreturned]
    exact unpacked_of_inline hinline unpackTar final.fetcher.store data dest

/-- Without its blob in the local store the executor gives up when no peer answers. -/
theorem readable_of_unpacksInline (hnew : world.calls id = none)
    (hunpacks : UnpacksInline primitives world id task) :
    ∃ data, world.fetcher.store.getBlob primitives task.snapshot.hash = .ok data := by
  obtain ⟨next, hensured, hcall⟩ := @run_ensureActions primitives world id task hnew
  cases hblob : world.fetcher.store.getBlob primitives task.snapshot.hash with
  | ok data => exact ⟨data, rfl⟩
  | lost loss =>
    have hlookup : world.phaseAfterLookup primitives task.snapshot.hash = .lost loss := by
      rw [phaseAfterLookup, hblob]
    rw [hlookup] at hcall
    have hnothing : run (step primitives) world (ensureActions id task ++ []) = some next := by
      rw [List.append_nil, hensured]
    obtain ⟨actions, final, done, outcome, -, hrun, hdone, hreturned⟩ :=
      (hunpacks [] next hnothing).1
    obtain ⟨later, hlater, hphase⟩ := phase_of_run hcall trivial hrun
    rw [hdone, Option.some_inj] at hlater
    rw [← hlater, hreturned] at hphase
    cases hphase
  | err error =>
    have hlookup : world.phaseAfterLookup primitives task.snapshot.hash = .missed := by
      rw [phaseAfterLookup, hblob]
    rw [hlookup] at hcall
    have hempty : ∀ data, (ensureCall task .missed).channel = .sent data →
        ∃ error : CoreError, (.ok data : Except CoreError Bytes) = .error error := by
      intro data hsent
      cases hsent
    have hfails : CanReturnWith primitives (fun outcome ↦ ∃ error, outcome = .error error) next id :=
      canReturn_of_missed (fun error ↦ ⟨error, rfl⟩) hcall rfl hempty
    obtain ⟨actions, final, done, outcome, -, hrun, hdone, hreturned, failure, hfailure⟩ := hfails
    have hwhole : run (step primitives) world (ensureActions id task ++ actions) = some final := by
      rw [run_append, hensured, Option.bind_some, hrun]
    have hnone := (hunpacks actions final hwhole).2 done outcome hdone hreturned
      (fun _ _ ↦ .ok ()) []
    rw [hfailure] at hnone
    cases hnone

/-- The executor unpacks inline bytes, whatever the peers do, exactly when it did not need them: when
the local store has the blob of the snapshot. -/
theorem unpacksInline_iff (hnew : world.calls id = none) (hinline : task.snapshot.tarBytes ≠ []) :
    UnpacksInline primitives world id task ↔
      ∃ data, world.fetcher.store.getBlob primitives task.snapshot.hash = .ok data := by
  constructor
  · exact readable_of_unpacksInline hnew
  · intro hreadable
    obtain ⟨data, hdata⟩ := hreadable
    exact unpacksInline_of_readable hnew hinline hdata

end Inline

/-- A task that carries the bytes of its snapshot. -/
def inlineTask : ProjectTask where
  taskId := 0
  snapshot := ⟨hexEncode releaseDigest, releaseJson⟩
  workDir := "/work"
  buildCmd := []
  runCmd := []
  timeoutMs := 1000
  resourceLimits := {}
  pinnedNode := none

theorem unpacksInline_iff_releaseBlob :
    UnpacksInline releaseTabulated { now := 0, fetcher :=
      { store := .afterHistory releaseTabulated ⟨[], ∅⟩ [releaseBlobPut] } } 0 inlineTask := by
  have hinline : inlineTask.snapshot.tarBytes ≠ [] := by decide
  refine (unpacksInline_iff rfl hinline).mpr ⟨releaseJson, ?_⟩
  rw [inlineTask, ← hash_releaseBlobPut]
  exact blobsReadable_releaseBlobPut releaseJson List.mem_cons_self

/-- An executor that knows no peer gives up beside the bytes. -/
theorem inline_bytes_are_not_enough :
    ¬ ∀ (primitives : Primitives) (world : FetchWorld) (id : ℕ) (task : ProjectTask),
      world.calls id = none → task.snapshot.tarBytes ≠ [] →
        UnpacksInline primitives world id task := by
  intro hgeneral
  let world : FetchWorld := { now := 0, fetcher := { store := ⟨[], ∅⟩ } }
  have hunpacks := hgeneral releaseTabulated world 0 inlineTask rfl (by decide)
  obtain ⟨data, hdata⟩ := readable_of_unpacksInline rfl hunpacks
  have hmissing : world.fetcher.store.getBlob releaseTabulated inlineTask.snapshot.hash =
      .err (.objectNotFound inlineTask.snapshot.hash) := rfl
  have hcontradiction := hdata.symm.trans hmissing
  cases hcontradiction

end EdgeOrchestrator.Node

import EdgeOrchestrator.Sandbox.PhaseBudgets
import EdgeOrchestrator.Sandbox.ReplyOrder
import EdgeOrchestrator.Node.InlineSnapshots
import EdgeOrchestrator.Node.ProjectClient

/-!
# The grace period for results

The request that carries a task is open for a window of half an hour, and the master gives up on the
task after a grace period that is a little longer. The executor first fetches the snapshot, the
sandbox works up to the deadline of the task and a second or two beyond, and the worker may then
boot a machine for the pool before it replies. The timeout of a task is bounded by neither, and an
answer behind the window is dropped: so the three have to add up to less than the window.
-/

namespace EdgeOrchestrator.Node

open Sandbox

/-- The spec that `QleanProjectExecutor::run` hands to the sandbox. -/
def specOf (task : ProjectTask) (projectDir : String) : ProjectSpec where
  snapshotHash := task.snapshot.hash
  localProjectDir := some projectDir
  workDir := task.workDir
  buildCmd := task.buildCmd
  runCmd := task.runCmd
  timeoutMs := task.timeoutMs
  resourceLimits := task.resourceLimits

def deadlineIn (now : Instant) (millis : ℕ) : Instant := now + Duration.fromMillis millis

/-- The job that `run_project` sends to the worker. -/
def jobOf (now : Instant) (spec : ProjectSpec) : Job where
  spec := spec
  deadline := deadlineIn now (max spec.timeoutMs 1000)

/-- Some stage of the job ran out of its budget. -/
def IsTimeout (outcome : Except CoreError ExecutionResult) : Prop :=
  ∃ stage ∈ [Stage.image, .machine, .boot, .upload, .build, .run], ∃ budget, outcome =
    .error (.sandboxExecution
      (stage.slowName ++ " timed out after " ++ secsText budget ++ stage.advice))

/-- An idle worker with an image and a machine that has booted. -/
structure IsReady (worker : Worker) (calls : JobCalls) : Prop where
  image : worker.image = true
  machine : worker.machine ≠ none
  isRunning : calls.isRunning.result = .ok true
  idle : worker.now ≤ calls.receivedAt

/-- The calls without a budget take no time, also after the job. -/
structure TakeNoTimeUntimed (calls : JobCalls) : Prop extends calls.UntimedTakeNoTime where
  shutdown : calls.shutdown.takes = 0

/-- The request that a task makes to the worker when its snapshot is there. -/
def requestOf (task : ProjectTask) (projectDir : String) (calls : JobCalls) : Job × JobCalls :=
  (jobOf calls.receivedAt (specOf task projectDir), calls)

/-- `with_request_timeout` of the `project_exchange` -/
def requestWindow : Duration := Duration.fromSecs 1800

/-- When an answer reaches the master, which with negligible delays is at once. Behind the window
the request has timed out on both sides, and the channel for the answer is closed. -/
def arrivesAt (dispatchedAt answeredAt : Instant) : Option Instant :=
  if answeredAt < dispatchedAt + requestWindow then some answeredAt else none

/-- Every task with this timeout that a ready executor completes without a timeout is answered
within the grace period, and the master does not report it as failed before the answer arrives. -/
def AnswersInTime (plan : PoolPlan) (timeoutMs : ℕ) (fetch : Duration) : Prop :=
  ∀ (worker : Worker) (task : ProjectTask) (projectDir : String) (calls : JobCalls)
    (dispatchedAt : Instant), task.timeoutMs = timeoutMs →
    calls.receivedAt = dispatchedAt + fetch → IsReady worker calls → TakeNoTimeUntimed calls →
    ¬ IsTimeout (worker.outcome (requestOf task projectDir calls)) →
    let answeredAt := (worker.handle plan (requestOf task projectDir calls)).now
    answeredAt ≤ dispatchedAt + resultGrace ∧
      ∀ (client : ProjectClient) (now : Instant),
        (∀ arrival ∈ arrivesAt dispatchedAt answeredAt, now ≤ arrival) →
        client.tasks.lookup task.taskId = some (.dispatched, dispatchedAt) →
        client.taskStatus now task.taskId = .dispatched

theorem not_isTimeout_ok (result : ExecutionResult) : ¬ IsTimeout (.ok result) := by
  rintro ⟨stage, -, budget, herror⟩
  cases herror

/-- How long the worker may need for the refill of the pool, which comes before the reply. -/
def refillTime (plan : PoolPlan) : Duration := if plan.Refills then 2 * bootTimeout else 0

/-- The fetch, the budget of the task, the seconds that the stages behind it get in any case and the
refill take less than the window of the request. -/
def FitsWindow (plan : PoolPlan) (timeoutMs : ℕ) (fetch : Duration) : Prop :=
  let budget := Duration.fromMillis (max timeoutMs 1000)
  fetch + max (budget + Duration.fromSecs 1) (min budget uploadTimeout + Duration.fromSecs 2) +
    refillTime plan < requestWindow

/-! ## No execution takes longer -/

section Upper

variable {guest : Guest} {spec : ProjectSpec} {deadline now : Instant}

/-- A stage ends by the deadline, or a second after it began. -/
theorem await_snd_le_deadline (now deadline : Instant) {Value : Type} (stage : Stage)
    (phase : PhaseBudget) (call : Sandbox.Call Value) :
    (stage.await (phaseBudget now deadline phase) now call).2 ≤
      max deadline (now + Duration.fromSecs 1) := by
  have hawait := stage.await_snd_le (phaseBudget now deadline phase) now call
  have hbudget := phaseBudget_le_remaining now deadline phase
  simp only [Duration, Instant] at *
  omega

theorem uploadProject_snd_le (now deadline : Instant) (guest : Guest) (spec : ProjectSpec) :
    (uploadProject guest spec deadline now).2 ≤ now + phaseBudget now deadline .upload := by
  unfold uploadProject
  split
  · exact Nat.le_add_right _ _
  · split_ifs
    · exact Stage.await_snd_le ..
    · exact Nat.le_add_right _ _

theorem runProject_snd_le (now deadline : Instant) (guest : Guest) (spec : ProjectSpec)
    (began : Instant) (stdout stderr : Bytes) :
    (runProject guest spec deadline began now stdout stderr).2 ≤
      max deadline (now + Duration.fromSecs 1) := by
  have hawait := await_snd_le_deadline now deadline Stage.run .run
    (guest.run (commandIn spec.workDir spec.runCmd))
  unfold runProject
  split <;>
    · rename_i heq
      rw [heq] at hawait
      exact hawait

/-- On a machine, a job ends at most a second after its deadline, or two seconds after what the
upload may take. -/
theorem executeOnVm_snd_le (hcleanup : ∀ command, (guest.cleanup command).takes = 0) :
    (executeOnVm guest spec deadline now).2 ≤
      max (deadline + Duration.fromSecs 1)
        (now + phaseBudget now deadline .upload + Duration.fromSecs 2) := by
  have hupload := uploadProject_snd_le now deadline guest spec
  unfold executeOnVm
  rw [hcleanup, Nat.add_zero]
  dsimp only
  split
  · rename_i uploaded heq
    rw [heq] at hupload
    refine hupload.trans (le_max_of_le_right (Nat.le_add_right _ _))
  · rename_i uploaded heq
    rw [heq] at hupload
    -- a run behind a build that ended in time, and one without a build
    have hrun : ∀ built stdout stderr, built ≤ max deadline (uploaded + Duration.fromSecs 1) →
        (runProject guest spec deadline now built stdout stderr).2 ≤
          max (deadline + Duration.fromSecs 1)
            (now + phaseBudget now deadline .upload + Duration.fromSecs 2) := by
      intro built stdout stderr hbuilt
      have hran := runProject_snd_le built deadline guest spec now stdout stderr
      simp only [Duration.fromSecs, Duration, Instant] at *
      omega
    split_ifs
    · exact hrun uploaded [] [] (le_max_of_le_right (Nat.le_add_right _ _))
    · have hbuild := await_snd_le_deadline uploaded deadline Stage.build .build
        (guest.build (commandIn spec.workDir spec.buildCmd))
      have hended : max deadline (uploaded + Duration.fromSecs 1) ≤
          max (deadline + Duration.fromSecs 1)
            (now + phaseBudget now deadline .upload + Duration.fromSecs 2) := by
        simp only [Duration.fromSecs, Duration, Instant] at *
        omega
      split
      · rename_i heq
        rw [heq] at hbuild
        exact hbuild.trans hended
      · rename_i output built heq
        rw [heq] at hbuild
        split_ifs
        · exact hrun built output.stdout output.stderr hbuild
        · exact hbuild.trans hended

/-- A job whose calls succeed ends when its run does. -/
theorem executeOnVm_of_success {uploaded built ended : Instant} {output last : CommandOutput}
    (hcleanup : (guest.cleanup ("rm -rf " ++ spec.workDir)).takes = 0)
    (hupload : uploadProject guest spec deadline now = (.ok (), uploaded))
    (hrequested : spec.buildCmd.isEmpty = false)
    (hbuild : Stage.build.await (phaseBudget uploaded deadline .build) uploaded
      (guest.build (commandIn spec.workDir spec.buildCmd)) = (.ok output, built))
    (hsuccess : output.status.success = true)
    (hrun : Stage.run.await (phaseBudget built deadline .run) built
      (guest.run (commandIn spec.workDir spec.runCmd)) = (.ok last, ended)) :
    ∃ result, executeOnVm guest spec deadline now = (.ok result, ended) := by
  rw [executeOnVm, hcleanup, Nat.add_zero, hupload]
  dsimp only
  rw [hrequested, hbuild]
  dsimp only
  rw [if_neg Bool.false_ne_true, if_pos hsuccess, runProject, hrun]
  exact ⟨_, rfl⟩

end Upper

/-- A ready worker goes straight to the machine. -/
theorem execute_of_isReady {worker : Worker} {calls : JobCalls} (hready : IsReady worker calls)
    (huntimed : TakeNoTimeUntimed calls) (job : Job) :
    ∃ machine, worker.machine = some machine ∧ worker.execute job calls =
      let (outcome, now) := executeOnVm calls.guest job.spec job.deadline worker.now
      (outcome, { worker.record (.executed machine outcome) with now }) := by
  obtain ⟨machine, hmachine⟩ := Option.ne_none_iff_exists'.mp hready.machine
  refine ⟨machine, hmachine, ?_⟩
  have himage : worker.ensureImage job.deadline calls.image = (.ok (), worker) :=
    if_pos hready.image
  have hrunning : worker.runningMachine calls.isRunning = (some machine, worker) := by
    unfold Worker.runningMachine
    split
    · rename_i hnone
      rw [hnone] at hmachine
      cases hmachine
    · rename_i kept hkept
      rw [hmachine] at hkept
      rw [← Option.some.inj hkept, hready.isRunning, huntimed.isRunning]
      rfl
  have hprepare : worker.prepare job.deadline calls = (.ok machine, worker) := by
    rw [Worker.prepare, himage]
    dsimp only
    rw [hrunning]
  rw [Worker.execute, hprepare]

/-- What comes of a job that a ready worker gets is decided on the machine. -/
theorem ended_of_isReady {worker : Worker} {calls : JobCalls} (hready : IsReady worker calls)
    (huntimed : TakeNoTimeUntimed calls) (job : Job) :
    let executed := executeOnVm calls.guest job.spec job.deadline calls.receivedAt
    worker.outcome (job, calls) = executed.1 ∧ (worker.ended (job, calls)).now = executed.2 ∧
      (worker.ended (job, calls)).image = true := by
  intro executed
  have hreceived : IsReady (worker.received (job, calls)) calls :=
    ⟨hready.image, hready.machine, hready.isRunning, max_le hready.idle le_rfl⟩
  have hnow : (worker.received (job, calls)).now = calls.receivedAt := max_eq_right hready.idle
  obtain ⟨machine, -, hexecute⟩ := execute_of_isReady hreceived huntimed job
  rw [hnow] at hexecute
  refine ⟨congrArg Prod.fst hexecute, ?_, ?_⟩
  · rw [Worker.ended, hexecute]
    cases worker.outcome (job, calls) <;> rfl
  · rw [Worker.ended, hexecute]
    cases worker.outcome (job, calls) <;> exact hready.image

theorem now_bootMachine_le (worker : Worker) (budget : Duration) (why : String)
    (create init : Sandbox.Call Unit) :
    (worker.bootMachine budget why create init).2.now ≤ worker.now + 2 * budget := by
  have hcreate := Stage.machine.await_snd_le budget worker.now create
  unfold Worker.bootMachine
  dsimp only [Worker.record]
  split
  · rename_i created heq
    rw [heq] at hcreate
    simp only [Duration, Instant] at *
    omega
  · rename_i created heq
    rw [heq] at hcreate
    have hinit := Stage.boot.await_snd_le budget created init
    split <;>
      · rename_i heq
        rw [heq] at hinit
        simp only [Duration, Instant] at *
        omega

theorem now_refill_le (calls : JobCalls) (worker : Worker) (target : ℕ) :
    (Worker.perform calls worker (.refill target)).now ≤ worker.now + 2 * bootTimeout := by
  have hboot := now_bootMachine_le worker bootTimeout "pool refill" calls.refillCreate
    calls.refillInit
  rw [Worker.perform]
  split_ifs
  · split <;>
      · rename_i heq
        rw [heq] at hboot
        exact hboot
  · exact Nat.le_add_right _ _

/-- Following the pool plan takes no time but for the refill. -/
theorem now_afterJob_le {calls : JobCalls} (huntimed : TakeNoTimeUntimed calls) (plan : PoolPlan)
    (worker : Worker) :
    (plan.afterJob.foldl (Worker.perform calls) worker).now ≤ worker.now + refillTime plan := by
  have hdiscard : (Worker.perform calls worker .discard).now = worker.now := by
    rw [Worker.perform]
    split
    · rfl
    · exact congrArg (worker.now + ·) huntimed.shutdown
  rw [PoolPlan.afterJob]
  split_ifs with hreuse htarget
  · exact Nat.le_add_right _ _
  · exact hdiscard.trans_le (Nat.le_add_right _ _)
  · have hrefills : plan.Refills := ⟨Bool.eq_false_iff.mpr hreuse, htarget⟩
    rw [refillTime, if_pos hrefills, ← hdiscard]
    exact now_refill_le calls _ plan.target

/-- What a ready worker takes at most to answer. -/
theorem now_handle_le {worker : Worker} {calls : JobCalls} (hready : IsReady worker calls)
    (huntimed : TakeNoTimeUntimed calls) (plan : PoolPlan) (job : Job) :
    (worker.handle plan (job, calls)).now ≤
      max (job.deadline + Duration.fromSecs 1)
        (calls.receivedAt + phaseBudget calls.receivedAt job.deadline .upload +
          Duration.fromSecs 2) + refillTime plan := by
  obtain ⟨-, hended, -⟩ := ended_of_isReady hready huntimed job
  rw [handle_eq_record]
  calc
    _ ≤ (worker.ended (job, calls)).now + refillTime plan := now_afterJob_le huntimed plan _
    _ ≤ _ := by
      rw [hended]
      exact Nat.add_le_add_right (executeOnVm_snd_le huntimed.cleanup) _

/-! ## An execution that uses up its budgets -/

section Exhausting

variable (receivedAt deadline : Instant)

/-- When an upload that uses up its budget is over. -/
def lastUpload : Instant := receivedAt + phaseBudget receivedAt deadline .upload

/-- When a build behind it that uses up its budget is over. -/
def lastBuild : Instant :=
  lastUpload receivedAt deadline + phaseBudget (lastUpload receivedAt deadline) deadline .build

/-- When a run behind both that uses up its budget is over. -/
def lastRun : Instant :=
  lastBuild receivedAt deadline + phaseBudget (lastBuild receivedAt deadline) deadline .run

/-- Calls that succeed at the end of their budgets. -/
def exhaustingCalls : JobCalls where
  receivedAt := receivedAt
  image := ⟨0, .ok ()⟩
  isRunning := ⟨0, .ok true⟩
  create := ⟨0, .ok ()⟩
  init := ⟨0, .ok ()⟩
  guest :=
    { cleanup := fun _ ↦ ⟨0, .ok ⟨⟨some 0, none⟩, [], []⟩⟩
      localDirExists := fun _ ↦ true
      upload := fun _ _ ↦ ⟨phaseBudget receivedAt deadline .upload, .ok ()⟩
      build := fun _ ↦ ⟨phaseBudget (lastUpload receivedAt deadline) deadline .build,
        .ok ⟨⟨some 0, none⟩, [], []⟩⟩
      run := fun _ ↦ ⟨phaseBudget (lastBuild receivedAt deadline) deadline .run,
        .ok ⟨⟨some 0, none⟩, [], []⟩⟩ }
  shutdown := ⟨0, .ok ()⟩
  refillCreate := ⟨bootTimeout, .ok ()⟩
  refillInit := ⟨bootTimeout, .ok ()⟩

/-- A task with a build and a run. -/
def slowTask (timeoutMs : ℕ) : ProjectTask where
  taskId := 1
  snapshot := ⟨"", []⟩
  workDir := "/root/project"
  buildCmd := ["make"]
  runCmd := ["./app"]
  timeoutMs := timeoutMs
  resourceLimits := {}
  pinnedNode := none

/-- A worker with a machine that is waiting for a job. -/
def readyWorker : Worker where
  image := true
  machine := some 0
  created := 1

theorem Stage.await_of_exhausting {Value : Type} (stage : Stage) (budget : Duration)
    (now : Instant) (value : Value) :
    stage.await budget now ⟨budget, .ok value⟩ = (.ok value, now + budget) := by
  rw [Stage.await, timeout, if_pos le_rfl]

theorem executeOnVm_exhausting (timeoutMs : ℕ) (projectDir : String) :
    ∃ result, executeOnVm (exhaustingCalls receivedAt deadline).guest
      (specOf (slowTask timeoutMs) projectDir) deadline receivedAt =
        (.ok result, lastRun receivedAt deadline) := by
  have hupload : uploadProject (exhaustingCalls receivedAt deadline).guest
      (specOf (slowTask timeoutMs) projectDir) deadline receivedAt =
        (.ok (), lastUpload receivedAt deadline) :=
    Stage.await_of_exhausting Stage.upload _ receivedAt ()
  exact executeOnVm_of_success rfl hupload rfl
    (Stage.await_of_exhausting Stage.build _ _ _) rfl (Stage.await_of_exhausting Stage.run _ _ _)

/-- Within the caps, using up the budgets ends a second behind the deadline, or two seconds behind
the upload. -/
theorem le_lastRun {budget : Duration} (hfloor : Duration.fromSecs 1 ≤ budget) :
    receivedAt + min (max (budget + Duration.fromSecs 1)
        (min budget uploadTimeout + Duration.fromSecs 2)) (Duration.fromSecs 2101) ≤
      lastRun receivedAt (receivedAt + budget) := by
  have hupload : lastUpload receivedAt (receivedAt + budget) =
      receivedAt + min budget uploadTimeout := by
    simp only [lastUpload, phaseBudget, uploadTimeout, Duration.fromSecs, Duration, Instant] at *
    omega
  have hrun := second_le_phaseBudget (lastBuild receivedAt (receivedAt + budget))
    (receivedAt + budget) .run
  rw [lastRun]
  by_cases hcapped : budget ≤ uploadTimeout
  · -- nothing is left behind the upload
    have hbuild := second_le_phaseBudget (lastUpload receivedAt (receivedAt + budget))
      (receivedAt + budget) .build
    rw [lastBuild] at hrun ⊢
    rw [hupload] at hbuild hrun ⊢
    rw [min_eq_left hcapped] at *
    simp only [Duration.fromSecs, Duration, Instant] at *
    omega
  · have hbuilt : receivedAt + min (max budget (uploadTimeout + Duration.fromSecs 1))
        (Duration.fromSecs 2100) ≤ lastBuild receivedAt (receivedAt + budget) := by
      rw [lastBuild, hupload, min_eq_right (le_of_not_ge hcapped)]
      simp only [phaseBudget, uploadTimeout, Duration.fromSecs, Duration, Instant] at hcapped ⊢
      omega
    rw [min_eq_right (le_of_not_ge hcapped)]
    simp only [uploadTimeout, Duration.fromSecs, Duration, Instant] at hcapped hbuilt hrun ⊢
    omega

theorem now_afterJob_exhausting (plan : PoolPlan) {worker : Worker}
    (himage : worker.image = true) :
    (plan.afterJob.foldl (Worker.perform (exhaustingCalls receivedAt deadline)) worker).now =
      worker.now + refillTime plan := by
  have hdiscard : ∀ calls : JobCalls, calls.shutdown.takes = 0 →
      (Worker.perform calls worker .discard).now = worker.now ∧
        (Worker.perform calls worker .discard).image = true := by
    intro calls hshutdown
    rw [Worker.perform]
    split
    · exact ⟨rfl, himage⟩
    · exact ⟨congrArg (worker.now + ·) hshutdown, himage⟩
  obtain ⟨hnow, hkept⟩ := hdiscard (exhaustingCalls receivedAt deadline) rfl
  rw [PoolPlan.afterJob, refillTime]
  split_ifs with hreuse hrefills htarget hrefills hrefills
  · exact absurd hreuse (Bool.eq_false_iff.mp hrefills.1)
  · rfl
  · exact absurd htarget hrefills.2
  · exact hnow
  · have hboot : ∀ ready : Worker, ready.image = true →
        (Worker.perform (exhaustingCalls receivedAt deadline) ready (.refill plan.target)).now =
          ready.now + bootTimeout + bootTimeout := by
      intro ready hready
      rw [Worker.perform, if_pos hready, Worker.bootMachine]
      dsimp only [exhaustingCalls]
      rw [Stage.await_of_exhausting]
      dsimp only
      rw [Stage.await_of_exhausting]
      rfl
    rw [two_mul, ← Nat.add_assoc, ← hnow]
    exact hboot _ hkept
  · exact absurd ⟨Bool.eq_false_iff.mpr hreuse, htarget⟩ hrefills

/-- The answer to the task comes when its run has ended and the pool is refilled. -/
theorem handle_exhausting (plan : PoolPlan) (timeoutMs : ℕ) (projectDir : String)
    (hdeadline : deadline = deadlineIn receivedAt (max timeoutMs 1000)) :
    (readyWorker.handle plan
        (requestOf (slowTask timeoutMs) projectDir (exhaustingCalls receivedAt deadline))).now =
        lastRun receivedAt deadline + refillTime plan ∧
      ∃ result, readyWorker.outcome
        (requestOf (slowTask timeoutMs) projectDir (exhaustingCalls receivedAt deadline)) =
          .ok result := by
  obtain ⟨result, hresult⟩ := executeOnVm_exhausting receivedAt deadline timeoutMs projectDir
  have hready : IsReady readyWorker (exhaustingCalls receivedAt deadline) :=
    ⟨rfl, Option.some_ne_none 0, rfl, Nat.zero_le _⟩
  have hjob : jobOf receivedAt (specOf (slowTask timeoutMs) projectDir) =
      ⟨specOf (slowTask timeoutMs) projectDir, deadline⟩ := by
    rw [hdeadline]
    rfl
  have hrequest : requestOf (slowTask timeoutMs) projectDir (exhaustingCalls receivedAt deadline) =
      (⟨specOf (slowTask timeoutMs) projectDir, deadline⟩, exhaustingCalls receivedAt deadline) :=
    congrArg (·, exhaustingCalls receivedAt deadline) hjob
  obtain ⟨houtcome, hended, himage⟩ := ended_of_isReady hready ⟨⟨rfl, fun _ ↦ rfl⟩, rfl⟩
    ⟨specOf (slowTask timeoutMs) projectDir, deadline⟩
  have hplan := now_afterJob_exhausting receivedAt deadline plan himage
  rw [hrequest, handle_eq_record, Worker.record, hplan, hended, houtcome]
  exact ⟨congrArg (·.2 + refillTime plan) hresult, result, congrArg Prod.fst hresult⟩

end Exhausting

section Grace

variable {plan : PoolPlan} {timeoutMs : ℕ} {fetch : Duration}

/-- An answer behind the window never arrives, and the master reports its task as failed. -/
theorem lt_of_forall_dispatched {dispatchedAt answeredAt : Instant}
    (hdispatched : ∀ (client : ProjectClient) (now : Instant),
      (∀ arrival ∈ arrivesAt dispatchedAt answeredAt, now ≤ arrival) →
      client.tasks.lookup 1 = some (.dispatched, dispatchedAt) →
      client.taskStatus now 1 = .dispatched) :
    answeredAt < dispatchedAt + requestWindow := by
  by_contra hlate
  have hnever : arrivesAt dispatchedAt answeredAt = none := if_neg hlate
  let client : ProjectClient := ProjectClient.insertDispatched {} dispatchedAt 1
  have hlookup : client.tasks.lookup 1 = some (.dispatched, dispatchedAt) :=
    Finmap.lookup_insert _
  have hstatus := hdispatched client (dispatchedAt + resultGrace + Duration.fromSecs 1)
    (fun arrival harrives ↦ by rw [hnever] at harrives; cases harrives) hlookup
  have hoverdue : resultGrace < dispatchedAt + resultGrace + Duration.fromSecs 1 - dispatchedAt := by
    simp only [resultGrace, Duration.fromSecs, Duration, Instant]
    omega
  rw [ProjectClient.taskStatus, hlookup] at hstatus
  dsimp only at hstatus
  rw [if_pos hoverdue] at hstatus
  cases hstatus

/-- What uses up its budgets is answered in time only when it fits into the window. -/
theorem fitsWindow_of_answersInTime (hanswers : AnswersInTime plan timeoutMs fetch) :
    FitsWindow plan timeoutMs fetch := by
  let deadline := deadlineIn fetch (max timeoutMs 1000)
  have hready : IsReady readyWorker (exhaustingCalls fetch deadline) :=
    ⟨rfl, Option.some_ne_none 0, rfl, Nat.zero_le _⟩
  obtain ⟨hnow, result, hresult⟩ := handle_exhausting fetch deadline plan timeoutMs
    "/tmp/project" rfl
  obtain ⟨-, hdispatched⟩ := hanswers readyWorker (slowTask timeoutMs) "/tmp/project"
    (exhaustingCalls fetch deadline) 0 rfl (Nat.zero_add fetch).symm hready
    ⟨⟨rfl, fun _ ↦ rfl⟩, rfl⟩ (by rw [hresult]; exact not_isTimeout_ok result)
  have hanswered := lt_of_forall_dispatched hdispatched
  have hfloor : Duration.fromSecs 1 ≤ Duration.fromMillis (max timeoutMs 1000) := by
    simp only [Duration.fromSecs, Duration.fromMillis, Duration]
    omega
  have hran : fetch + min (max (Duration.fromMillis (max timeoutMs 1000) + Duration.fromSecs 1)
      (min (Duration.fromMillis (max timeoutMs 1000)) uploadTimeout + Duration.fromSecs 2))
      (Duration.fromSecs 2101) ≤ lastRun fetch deadline := le_lastRun fetch hfloor
  rw [hnow] at hanswered
  rw [FitsWindow]
  -- the caps add up to more than the window, so the budget of the task was what counted
  simp only [requestWindow, uploadTimeout, Duration.fromSecs, Duration, Instant] at *
  omega

/-- What fits into the window is answered before the master gives up. -/
theorem answersInTime_of_fitsWindow (hfits : FitsWindow plan timeoutMs fetch) :
    AnswersInTime plan timeoutMs fetch := by
  intro worker task projectDir calls dispatchedAt htimeout hreceived hready huntimed _ answeredAt
  have hanswered : answeredAt < dispatchedAt + requestWindow := by
    have hbound := now_handle_le hready huntimed plan
      (jobOf calls.receivedAt (specOf task projectDir))
    have hdeadline : (jobOf calls.receivedAt (specOf task projectDir)).deadline =
        calls.receivedAt + Duration.fromMillis (max timeoutMs 1000) := by
      rw [← htimeout]
      rfl
    have hupload : phaseBudget calls.receivedAt
        (calls.receivedAt + Duration.fromMillis (max timeoutMs 1000)) .upload =
          min (Duration.fromMillis (max timeoutMs 1000)) uploadTimeout := by
      simp only [phaseBudget, uploadTimeout, Duration.fromSecs, Duration.fromMillis, Duration,
        Instant]
      omega
    rw [hdeadline, hupload] at hbound
    calc
      _ ≤ _ := hbound
      _ = dispatchedAt + (fetch + max (Duration.fromMillis (max timeoutMs 1000) +
            Duration.fromSecs 1) (min (Duration.fromMillis (max timeoutMs 1000)) uploadTimeout +
            Duration.fromSecs 2) + refillTime plan) := by
        rw [hreceived]
        simp only [Duration, Instant, Nat.add_assoc, Nat.add_max_add_left]
      _ < dispatchedAt + requestWindow := Nat.add_lt_add_left hfits dispatchedAt
  have hwindow : requestWindow ≤ resultGrace := Nat.mul_le_mul_right 1000000000 (by decide)
  refine ⟨hanswered.le.trans (Nat.add_le_add_left hwindow dispatchedAt), ?_⟩
  intro client now harrives hdispatched
  have hnow : now ≤ answeredAt := harrives answeredAt (if_pos hanswered)
  have hwithin : ¬ resultGrace < now - dispatchedAt := by
    simp only [Duration, Instant] at *
    omega
  rw [ProjectClient.taskStatus, hdispatched]
  exact if_neg hwithin

/-- The master waits for the answers to the tasks with a timeout exactly when these fit into the
window of a request. -/
theorem answersInTime_iff (plan : PoolPlan) (timeoutMs : ℕ) (fetch : Duration) :
    AnswersInTime plan timeoutMs fetch ↔ FitsWindow plan timeoutMs fetch :=
  ⟨fitsWindow_of_answersInTime, answersInTime_of_fitsWindow⟩

end Grace

/-- A task may ask for an hour, and the master gives up on it after about half of that. -/
theorem hour_exceeds_grace :
    ¬ ∀ (plan : PoolPlan) (timeoutMs : ℕ) (fetch : Duration), fetch ≤ defaultFetchTimeout →
      AnswersInTime plan timeoutMs fetch := by
  intro hgeneral
  have hfits := fitsWindow_of_answersInTime
    (hgeneral (PoolPlan.new true 0) 3600000 0 (Nat.zero_le _))
  simp only [FitsWindow, requestWindow, Duration.fromMillis, Duration.fromSecs, Duration] at hfits
  omega

end EdgeOrchestrator.Node

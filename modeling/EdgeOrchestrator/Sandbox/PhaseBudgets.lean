import EdgeOrchestrator.Sandbox.Qlean

/-!
# Phase budgets

A stage may use a share of the time that remains until the deadline, and at least a second. It ends
by the deadline or a second after it began, so every stage of a job adds at most one second to what
the stages before it have overrun. Creating and starting a machine share half of what remains.
-/

namespace EdgeOrchestrator.Sandbox

/-- What a phase may use at most, however much time remains. -/
def PhaseBudget.cap : PhaseBudget → Duration
  | .image => imagePrepareTimeout
  | .boot => bootTimeout
  | .upload => uploadTimeout
  | .build | .run => .fromSecs 1800

section Budget

variable (now deadline : Instant) (phase : PhaseBudget)

theorem second_le_phaseBudget : Duration.fromSecs 1 ≤ phaseBudget now deadline phase :=
  le_max_right _ _

theorem phaseBudget_le_cap : phaseBudget now deadline phase ≤ phase.cap := by
  cases phase <;>
    exact max_le (min_le_right _ _) (by
      simp only [PhaseBudget.cap, imagePrepareTimeout, bootTimeout, uploadTimeout]
      decide)

/-- A stage gets no more than what remains, or a second. -/
theorem phaseBudget_le_remaining :
    phaseBudget now deadline phase ≤ max (deadline - now) (Duration.fromSecs 1) := by
  cases phase <;> simp only [phaseBudget, Duration.fromSecs, Duration, Instant] <;> omega

/-- The two steps of a boot together get no more than what remains, or two seconds. -/
theorem two_mul_phaseBudget_boot_le :
    2 * phaseBudget now deadline .boot ≤ max (deadline - now) (Duration.fromSecs 2) := by
  simp only [phaseBudget, Duration.fromSecs, Duration, Instant]
  omega

end Budget

theorem Stage.await_snd_le {Value : Type} (stage : Stage) (budget : Duration) (now : Instant)
    (call : Call Value) : (stage.await budget now call).2 ≤ now + budget := by
  simp only [Stage.await, timeout]
  split_ifs with hwithin
  · exact Nat.add_le_add_left hwithin now
  · exact le_rfl

/-- At most so many seconds after the deadline, or after the start of a job that began behind it. -/
def WithinOverrun (deadline start : Instant) (seconds : ℕ) (now : Instant) : Prop :=
  now ≤ max deadline start + Duration.fromSecs seconds

namespace WithinOverrun

variable {deadline start now later : Instant} {seconds : ℕ}

theorem mono (hnow : WithinOverrun deadline start seconds now) {more : ℕ}
    (hmore : seconds ≤ more) : WithinOverrun deadline start more now :=
  hnow.trans (Nat.add_le_add_left (Nat.mul_le_mul_right _ hmore) _)

/-- What takes no longer than the time that remains, or than some slack, overruns by the slack. -/
theorem after (hnow : WithinOverrun deadline start seconds now) {slack : ℕ}
    (hlater : later ≤ now + max (deadline - now) (Duration.fromSecs slack)) :
    WithinOverrun deadline start (seconds + slack) later := by
  simp only [WithinOverrun, Duration.fromSecs, Duration, Instant] at *
  omega

/-- A stage within its budget adds a second to the overrun. -/
theorem await (hnow : WithinOverrun deadline start seconds now) {Value : Type} (stage : Stage)
    (phase : PhaseBudget) (call : Call Value) :
    WithinOverrun deadline start (seconds + 1)
      (stage.await (phaseBudget now deadline phase) now call).2 := by
  apply hnow.after
  calc
    _ ≤ now + phaseBudget now deadline phase := stage.await_snd_le _ now call
    _ ≤ _ := Nat.add_le_add_left (phaseBudget_le_remaining now deadline phase) now

theorem uploadProject (hnow : WithinOverrun deadline start seconds now) (guest : Guest)
    (spec : ProjectSpec) :
    WithinOverrun deadline start (seconds + 1) (uploadProject guest spec deadline now).2 := by
  unfold Sandbox.uploadProject
  split
  · exact hnow.mono (Nat.le_succ _)
  · split_ifs
    · exact hnow.await ..
    · exact hnow.mono (Nat.le_succ _)

theorem runProject (hnow : WithinOverrun deadline start seconds now) (guest : Guest)
    (spec : ProjectSpec) (began : Instant) (stdout stderr : Bytes) :
    WithinOverrun deadline start (seconds + 1)
      (runProject guest spec deadline began now stdout stderr).2 := by
  have hawait := hnow.await Stage.run .run (guest.run (commandIn spec.workDir spec.runCmd))
  unfold Sandbox.runProject
  split <;>
    · rename_i heq
      rw [heq] at hawait
      exact hawait

/-- Upload, build and run add a second each. -/
theorem executeOnVm (hnow : WithinOverrun deadline start seconds now) (guest : Guest)
    (spec : ProjectSpec) (hcleanup : (guest.cleanup ("rm -rf " ++ spec.workDir)).takes = 0) :
    WithinOverrun deadline start (seconds + 3) (executeOnVm guest spec deadline now).2 := by
  have hcleaned : WithinOverrun deadline start seconds
      (now + (guest.cleanup ("rm -rf " ++ spec.workDir)).takes) := by
    rw [hcleanup]
    exact hnow
  have hupload := hcleaned.uploadProject guest spec
  unfold Sandbox.executeOnVm
  dsimp only
  split
  · rename_i heq
    rw [heq] at hupload
    exact hupload.mono (by omega)
  · rename_i uploaded heq
    rw [heq] at hupload
    split_ifs
    · exact (hupload.runProject guest spec now [] []).mono (by omega)
    · have hbuild := hupload.await Stage.build .build
        (guest.build (commandIn spec.workDir spec.buildCmd))
      split
      · rename_i heq
        rw [heq] at hbuild
        exact hbuild.mono (by omega)
      · rename_i output built heq
        rw [heq] at hbuild
        split_ifs
        · exact hbuild.runProject guest spec now output.stdout output.stderr
        · exact hbuild.mono (by omega)

/-- Preparing the image adds a second. -/
theorem ensureImage {worker : Worker} (hnow : WithinOverrun deadline start seconds worker.now)
    (call : Call Unit) :
    WithinOverrun deadline start (seconds + 1) (worker.ensureImage deadline call).2.now := by
  have hawait := hnow.await Stage.image .image call
  unfold Worker.ensureImage
  split_ifs
  · exact hnow.mono (Nat.le_succ _)
  · split <;>
      · rename_i heq
        rw [heq] at hawait
        exact hawait

/-- Creating and starting a machine add two seconds: both may use the budget of the boot. -/
theorem bootMachine {worker : Worker} (hnow : WithinOverrun deadline start seconds worker.now)
    (why : String) (create init : Call Unit) :
    WithinOverrun deadline start (seconds + 2)
      (worker.bootMachine (phaseBudget worker.now deadline .boot) why create init).2.now := by
  have hcreate := Stage.machine.await_snd_le (phaseBudget worker.now deadline .boot) worker.now
    create
  have htwice := two_mul_phaseBudget_boot_le worker.now deadline
  unfold Worker.bootMachine
  dsimp only [Worker.record]
  split
  · rename_i heq
    rw [heq] at hcreate
    exact (hnow.after (hcreate.trans (Nat.add_le_add_left
      (phaseBudget_le_remaining worker.now deadline .boot) _))).mono (Nat.le_succ _)
  · rename_i created heq
    rw [heq] at hcreate
    have hinit := Stage.boot.await_snd_le (phaseBudget worker.now deadline .boot) created init
    have hboth : (Stage.boot.await (phaseBudget worker.now deadline .boot) created init).2 ≤
        worker.now + max (deadline - worker.now) (Duration.fromSecs 2) := by
      simp only [Duration, Instant] at *
      omega
    split <;>
      · rename_i heq
        rw [heq] at hboth
        exact hnow.after hboth

end WithinOverrun

/-- The calls without a budget take no time. -/
structure JobCalls.UntimedTakeNoTime (calls : JobCalls) : Prop where
  isRunning : calls.isRunning.takes = 0
  cleanup : ∀ command, (calls.guest.cleanup command).takes = 0

namespace Worker

theorem now_runningMachine (worker : Worker) {isRunning : Call Bool} (hcall : isRunning.takes = 0) :
    (worker.runningMachine isRunning).2.now = worker.now := by
  unfold runningMachine
  split
  · rfl
  · exact congrArg (worker.now + ·) hcall

theorem withinOverrun_prepare (worker : Worker) (deadline : Instant) {calls : JobCalls}
    (huntimed : calls.UntimedTakeNoTime) :
    WithinOverrun deadline worker.now 3 (worker.prepare deadline calls).2.now := by
  have hstart : WithinOverrun deadline worker.now 0 worker.now := le_max_right _ _
  have himage := hstart.ensureImage calls.image
  simp only [prepare]
  split
  · rename_i heq
    rw [heq] at himage
    exact himage.mono (by omega)
  · rename_i imaged heq
    rw [heq] at himage
    have hchecked := imaged.now_runningMachine huntimed.isRunning
    split
    · rename_i heq
      rw [heq] at hchecked
      rw [hchecked]
      exact himage.mono (by omega)
    · rename_i checked heq
      rw [heq] at hchecked
      rw [← hchecked] at himage
      have hboot := himage.bootMachine "task machine" calls.create calls.init
      split <;>
        · rename_i heq
          rw [heq] at hboot
          exact hboot

/-- A job ends at most six seconds after its deadline, or after its start if that came later. -/
theorem withinOverrun_execute (worker : Worker) (job : Job) {calls : JobCalls}
    (huntimed : calls.UntimedTakeNoTime) :
    WithinOverrun job.deadline worker.now 6 (worker.execute job calls).2.now := by
  have hprepare := worker.withinOverrun_prepare job.deadline huntimed
  simp only [execute]
  split
  · rename_i heq
    rw [heq] at hprepare
    exact hprepare.mono (by omega)
  · rename_i prepared heq
    rw [heq] at hprepare
    exact hprepare.executeOnVm calls.guest job.spec (huntimed.cleanup _)

end Worker

/-- The budgets keep a job near its deadline, and each one is no more than what remains unless that
is less than a second, or two for a boot. -/
theorem jobs_keep_deadline :
    (∀ (worker : Worker) (job : Job) (calls : JobCalls), calls.UntimedTakeNoTime →
      (worker.execute job calls).2.now ≤
        max job.deadline worker.now + Duration.fromSecs 6) ∧
    ∀ (now deadline : Instant) (phase : PhaseBudget),
      Duration.fromSecs 1 ≤ phaseBudget now deadline phase ∧
      phaseBudget now deadline phase ≤ phase.cap ∧
      (Duration.fromSecs 1 ≤ deadline - now →
        phaseBudget now deadline phase ≤ deadline - now) ∧
      (Duration.fromSecs 2 ≤ deadline - now →
        2 * phaseBudget now deadline .boot ≤ deadline - now) := by
  constructor
  · intro worker job calls huntimed
    exact worker.withinOverrun_execute job huntimed
  · intro now deadline phase
    refine ⟨second_le_phaseBudget .., phaseBudget_le_cap .., ?_, ?_⟩
    · intro hsecond
      exact (phaseBudget_le_remaining now deadline phase).trans (max_le le_rfl hsecond)
    · intro hseconds
      exact (two_mul_phaseBudget_boot_le now deadline).trans (max_le le_rfl hseconds)

/-- Calls that succeed after a second. -/
def secondEach : JobCalls where
  receivedAt := 0
  image := ⟨Duration.fromSecs 1, .ok ()⟩
  isRunning := ⟨0, .ok false⟩
  create := ⟨Duration.fromSecs 1, .ok ()⟩
  init := ⟨Duration.fromSecs 1, .ok ()⟩
  guest :=
    { cleanup := fun _ ↦ ⟨0, .ok ⟨⟨some 0, none⟩, [], []⟩⟩
      localDirExists := fun _ ↦ true
      upload := fun _ _ ↦ ⟨Duration.fromSecs 1, .ok ()⟩
      build := fun _ ↦ ⟨Duration.fromSecs 1, .ok ⟨⟨some 0, none⟩, [], []⟩⟩
      run := fun _ ↦ ⟨Duration.fromSecs 1, .ok ⟨⟨some 0, none⟩, [], []⟩⟩ }
  shutdown := ⟨0, .ok ()⟩
  refillCreate := ⟨0, .ok ()⟩
  refillInit := ⟨0, .ok ()⟩

/-- A job whose deadline has passed, with every stage. -/
def lateJob : Job where
  spec :=
    { snapshotHash := ""
      localProjectDir := some "/tmp/project"
      workDir := "/root/project"
      buildCmd := ["make"]
      runCmd := ["./app"]
      timeoutMs := 1000
      resourceLimits := {} }
  deadline := 0

/-- All six seconds can be used up. -/
theorem jobs_keep_deadline_lateJob :
    (Worker.execute {} lateJob secondEach).2.now = Duration.fromSecs 6 ∧
      (Worker.execute {} lateJob secondEach).2.now ≤ max 0 0 + Duration.fromSecs 6 :=
  ⟨rfl, jobs_keep_deadline.1 {} lateJob secondEach ⟨rfl, fun _ ↦ rfl⟩⟩

end EdgeOrchestrator.Sandbox

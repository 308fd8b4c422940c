import EdgeOrchestrator.Sandbox.Qlean

/-!
# Exit codes

A job builds if there is a build command, and then runs. An empty build command is passed over, an
empty run command is not: the shell gets `cd` with nothing behind it and rejects that, so a job of
which everything that was requested has succeeded is reported as failed.
-/

namespace EdgeOrchestrator.Sandbox

/-- The status of a process that has ended: the number of a signal is positive. -/
def ExitStatus.Waited (status : ExitStatus) : Prop :=
  ∀ signal, status.signal = some signal → 0 < signal

/-- Only success has the exit code zero, whichever way the process ended. -/
theorem exitCodeOf_eq_zero_iff {status : ExitStatus} (hwaited : status.Waited) :
    exitCodeOf status = 0 ↔ status.success = true := by
  rcases status with ⟨_ | code, _ | signal⟩
  · simp [exitCodeOf, ExitStatus.success]
  · have hpositive := hwaited signal rfl
    simp only [exitCodeOf, ExitStatus.success]
    exact iff_of_false (by omega) (by simp)
  · simp [exitCodeOf, ExitStatus.success]
  · simp [exitCodeOf, ExitStatus.success]

/-- A guest with a shell: processes end with a status, and nothing behind `&&` is rejected. -/
structure HasShell (guest : Guest) : Prop where
  waited : ∀ exec ∈ [guest.build, guest.run], ∀ command output,
    (exec command).result = .ok output → output.status.Waited
  rejects : ∀ exec ∈ [guest.build, guest.run], ∀ workDir output,
    (exec (commandIn workDir [])).result = .ok output → output.status.success = false

theorem toOption_eq_some_iff {Error Value : Type} {result : Except Error Value} {value : Value} :
    result.toOption = some value ↔ result = .ok value := by
  cases result <;> simp [Except.toOption]

/-- The call comes back within its budget. -/
def Answers {Value : Type} (budget : Duration) (call : Call Value) : Prop :=
  call.takes ≤ budget ∧ ∃ value, call.result = .ok value

theorem Stage.await_of_answers {Value : Type} (stage : Stage) {budget : Duration} (now : Instant)
    {call : Call Value} (hanswers : Answers budget call) {value : Value}
    (hresult : call.result = .ok value) :
    stage.await budget now call = (.ok value, now + call.takes) := by
  rw [Stage.await, timeout, if_pos hanswers.1, hresult]

section Job

variable (guest : Guest) (spec : ProjectSpec) (deadline start : Instant)

/-- What the build returns, when one is requested. -/
def buildOutput : Option CommandOutput :=
  if spec.buildCmd = [] then none
  else (guest.build (commandIn spec.workDir spec.buildCmd)).result.toOption

/-- What the command returns that is run, requested or not. -/
def runOutput : Option CommandOutput :=
  (guest.run (commandIn spec.workDir spec.runCmd)).result.toOption

def BuildFails : Prop := ∃ built, buildOutput guest spec = some built ∧ built.status.success = false

/-- When the upload is over. -/
def uploadedAt : Instant :=
  (uploadProject guest spec deadline
    (start + (guest.cleanup ("rm -rf " ++ spec.workDir)).takes)).2

/-- When the build is over. -/
def builtAt : Instant :=
  if spec.buildCmd = [] then uploadedAt guest spec deadline start
  else uploadedAt guest spec deadline start +
    (guest.build (commandIn spec.workDir spec.buildCmd)).takes

/-- Every call that the job makes comes back within its budget. -/
structure Undisturbed : Prop where
  upload : ∀ dir, spec.localProjectDir = some dir → guest.localDirExists dir = true →
    Answers (phaseBudget (start + (guest.cleanup ("rm -rf " ++ spec.workDir)).takes) deadline
      .upload) (guest.upload dir ((pathParent spec.workDir).getD "/root"))
  build : spec.buildCmd ≠ [] → Answers
    (phaseBudget (uploadedAt guest spec deadline start) deadline .build)
    (guest.build (commandIn spec.workDir spec.buildCmd))
  run : ¬ BuildFails guest spec → Answers
    (phaseBudget (builtAt guest spec deadline start) deadline .run)
    (guest.run (commandIn spec.workDir spec.runCmd))

/-- What the requested commands return. -/
def requestedOutputs : List CommandOutput :=
  (buildOutput guest spec).toList ++
    if spec.runCmd = [] then [] else (runOutput guest spec).toList

end Job

/-- The commands up to the first one that fails. -/
def untilFailure : List CommandOutput → List CommandOutput
  | [] => []
  | output :: rest => if output.status.success then output :: untilFailure rest else [output]

theorem untilFailure_append_singleton {outputs : List CommandOutput}
    (hsuccess : ∀ output ∈ outputs, output.status.success = true) (last : CommandOutput) :
    untilFailure (outputs ++ [last]) = outputs ++ [last] := by
  induction outputs with
  | nil =>
    rw [List.nil_append, untilFailure, untilFailure]
    split_ifs <;> rfl
  | cons output rest ih =>
    rw [List.forall_mem_cons] at hsuccess
    rw [List.cons_append, untilFailure, if_pos hsuccess.1, ih hsuccess.2]

/-- The job returns the exit code zero exactly when all that was requested has succeeded, otherwise
the code of what failed, and the output of what has run. -/
def TellsSuccess (guest : Guest) (spec : ProjectSpec) (deadline start : Instant) : Prop :=
  ∃ result, (executeOnVm guest spec deadline start).1 = .ok result ∧
    (result.exitCode = 0 ↔
      ∀ output ∈ requestedOutputs guest spec, output.status.success = true) ∧
    (∀ failed ∈ untilFailure (requestedOutputs guest spec), failed.status.success = false →
      result.exitCode = exitCodeOf failed.status ∧ result.exitCode ≠ 0) ∧
    result.stdout = (untilFailure (requestedOutputs guest spec)).flatMap CommandOutput.stdout ∧
    result.stderr = (untilFailure (requestedOutputs guest spec)).flatMap CommandOutput.stderr

section Outcome

variable {guest : Guest} {spec : ProjectSpec} {deadline start : Instant}

theorem uploadProject_of_undisturbed (hcalls : Undisturbed guest spec deadline start) :
    uploadProject guest spec deadline
        (start + (guest.cleanup ("rm -rf " ++ spec.workDir)).takes) =
      (.ok (), uploadedAt guest spec deadline start) := by
  refine Prod.ext ?_ rfl
  unfold uploadProject
  split
  · rfl
  · rename_i dir hdir
    split_ifs with hexists
    · have hanswers := hcalls.upload dir hdir hexists
      obtain ⟨value, hvalue⟩ := hanswers.2
      dsimp only
      rw [Stage.upload.await_of_answers _ hanswers hvalue]
    · rfl

theorem waited_of_buildOutput (hshell : HasShell guest) {built : CommandOutput}
    (hbuilt : buildOutput guest spec = some built) : built.status.Waited := by
  rw [buildOutput, Option.ite_none_left_eq_some] at hbuilt
  apply hshell.waited guest.build List.mem_cons_self (commandIn spec.workDir spec.buildCmd)
  exact toOption_eq_some_iff.mp hbuilt.2

/-- A failed build ends the job. -/
theorem executeOnVm_of_buildFails (hcalls : Undisturbed guest spec deadline start)
    {built : CommandOutput} (hbuilt : buildOutput guest spec = some built)
    (hfails : built.status.success = false) :
    ∃ result, (executeOnVm guest spec deadline start).1 = .ok result ∧
      result.exitCode = exitCodeOf built.status ∧ result.stdout = built.stdout ∧
      result.stderr = built.stderr := by
  rw [buildOutput, Option.ite_none_left_eq_some] at hbuilt
  obtain ⟨hbuild, hoption⟩ := hbuilt
  have hanswers := hcalls.build hbuild
  have hawait := Stage.build.await_of_answers (uploadedAt guest spec deadline start) hanswers
    (toOption_eq_some_iff.mp hoption)
  rw [executeOnVm]
  simp only [uploadProject_of_undisturbed hcalls, List.isEmpty_iff, if_neg hbuild, hawait, hfails,
    Bool.false_eq_true, if_false]
  exact ⟨_, rfl, rfl, rfl, rfl⟩

/-- A job whose build does not fail returns what its run command does. -/
theorem executeOnVm_of_not_buildFails (hcalls : Undisturbed guest spec deadline start)
    (hbuilds : ¬ BuildFails guest spec) :
    ∃ ran result, runOutput guest spec = some ran ∧
      (executeOnVm guest spec deadline start).1 = .ok result ∧
      result.exitCode = exitCodeOf ran.status ∧
      result.stdout = (buildOutput guest spec).toList.flatMap CommandOutput.stdout ++ ran.stdout ∧
      result.stderr =
        (buildOutput guest spec).toList.flatMap CommandOutput.stderr ++ ran.stderr := by
  have hanswers := hcalls.run hbuilds
  obtain ⟨ran, hran⟩ := hanswers.2
  have hawait := Stage.run.await_of_answers (builtAt guest spec deadline start) hanswers hran
  have hrunOutput : runOutput guest spec = some ran := by
    rw [runOutput, hran]
    rfl
  by_cases hbuild : spec.buildCmd = []
  · rw [builtAt, if_pos hbuild] at hawait
    rw [executeOnVm]
    simp only [uploadProject_of_undisturbed hcalls, List.isEmpty_iff, if_pos hbuild, runProject,
      hawait, buildOutput]
    exact ⟨ran, _, hrunOutput, rfl, rfl, rfl, rfl⟩
  · have hanswersBuild := hcalls.build hbuild
    obtain ⟨built, hbuilt⟩ := hanswersBuild.2
    have hoption : buildOutput guest spec = some built := by
      rw [buildOutput, if_neg hbuild, hbuilt]
      rfl
    have hsuccess : built.status.success = true := by
      by_contra hfails
      exact hbuilds ⟨built, hoption, Bool.eq_false_iff.mpr hfails⟩
    have hawaitBuild := Stage.build.await_of_answers (uploadedAt guest spec deadline start)
      hanswersBuild hbuilt
    rw [builtAt, if_neg hbuild] at hawait
    rw [executeOnVm]
    simp only [uploadProject_of_undisturbed hcalls, List.isEmpty_iff, if_neg hbuild, hawaitBuild,
      hsuccess, if_true, runProject, hawait, hoption]
    refine ⟨ran, _, hrunOutput, rfl, rfl, ?_, ?_⟩
    · rw [Option.toList_some, List.flatMap_singleton]
    · rw [Option.toList_some, List.flatMap_singleton]

theorem tellsSuccess_of_buildFails (hshell : HasShell guest)
    (hcalls : Undisturbed guest spec deadline start) (hfails : BuildFails guest spec) :
    TellsSuccess guest spec deadline start := by
  obtain ⟨built, hbuilt, hfails⟩ := hfails
  obtain ⟨result, hresult, hcode, hstdout, hstderr⟩ :=
    executeOnVm_of_buildFails hcalls hbuilt hfails
  have hran : ∃ rest, requestedOutputs guest spec = built :: rest := by
    rw [requestedOutputs, hbuilt]
    exact ⟨_, rfl⟩
  obtain ⟨rest, hran⟩ := hran
  have huntil : untilFailure (requestedOutputs guest spec) = [built] := by
    rw [hran, untilFailure, hfails]
    rfl
  have hnonzero : exitCodeOf built.status ≠ 0 := by
    rw [Ne, exitCodeOf_eq_zero_iff (waited_of_buildOutput hshell hbuilt), hfails]
    exact Bool.false_ne_true
  refine ⟨result, hresult, ?_, ?_, ?_, ?_⟩
  · rw [hcode]
    apply iff_of_false hnonzero
    intro hall
    have hsuccess := hall built (by rw [hran]; exact List.mem_cons_self)
    rw [hfails] at hsuccess
    cases hsuccess
  · rw [huntil, hcode]
    intro failed hmem _
    rw [List.mem_singleton.mp hmem]
    exact ⟨rfl, hnonzero⟩
  · rw [huntil, hstdout, List.flatMap_singleton]
  · rw [huntil, hstderr, List.flatMap_singleton]

theorem success_of_mem_buildOutput (hbuilds : ¬ BuildFails guest spec) :
    ∀ built ∈ (buildOutput guest spec).toList, built.status.success = true := by
  intro built hmem
  by_contra hfailed
  exact hbuilds ⟨built, Option.mem_toList.mp hmem, Bool.eq_false_iff.mpr hfailed⟩

theorem exitCodeOf_runOutput_eq_zero_iff (hshell : HasShell guest) {ran : CommandOutput}
    (hran : runOutput guest spec = some ran) :
    exitCodeOf ran.status = 0 ↔ ran.status.success = true := by
  apply exitCodeOf_eq_zero_iff
  exact hshell.waited guest.run (by simp) (commandIn spec.workDir spec.runCmd) ran
    (toOption_eq_some_iff.mp hran)

/-- The shell rejects the empty command although nothing that was requested has failed. -/
theorem not_tellsSuccess_of_runCmd_eq_nil (hshell : HasShell guest)
    (hcalls : Undisturbed guest spec deadline start) (hbuilds : ¬ BuildFails guest spec)
    (hempty : spec.runCmd = []) : ¬ TellsSuccess guest spec deadline start := by
  obtain ⟨ran, result, hran, hresult, hcode, -⟩ := executeOnVm_of_not_buildFails hcalls hbuilds
  rintro ⟨told, htold, hiff, -⟩
  rw [hresult, Except.ok.injEq] at htold
  have hrequested : requestedOutputs guest spec = (buildOutput guest spec).toList := by
    rw [requestedOutputs, if_pos hempty, List.append_nil]
  have hzero : result.exitCode = 0 := by
    rw [htold, hiff, hrequested]
    exact success_of_mem_buildOutput hbuilds
  rw [hcode, exitCodeOf_runOutput_eq_zero_iff hshell hran] at hzero
  have hrun := toOption_eq_some_iff.mp hran
  rw [hempty] at hrun
  rw [hshell.rejects guest.run (by simp) _ _ hrun] at hzero
  cases hzero

/-- Where a command to run is requested, its exit code is that of the job. -/
theorem tellsSuccess_of_runCmd_ne_nil (hshell : HasShell guest)
    (hcalls : Undisturbed guest spec deadline start) (hbuilds : ¬ BuildFails guest spec)
    (hrun : spec.runCmd ≠ []) : TellsSuccess guest spec deadline start := by
  obtain ⟨ran, result, hran, hresult, hcode, hstdout, hstderr⟩ :=
    executeOnVm_of_not_buildFails hcalls hbuilds
  have hzero : result.exitCode = 0 ↔ ran.status.success = true := by
    rw [hcode, exitCodeOf_runOutput_eq_zero_iff hshell hran]
  have hbuilt := success_of_mem_buildOutput hbuilds
  have hrequested : requestedOutputs guest spec = (buildOutput guest spec).toList ++ [ran] := by
    rw [requestedOutputs, if_neg hrun, hran]
    rfl
  have huntil : untilFailure ((buildOutput guest spec).toList ++ [ran]) =
      (buildOutput guest spec).toList ++ [ran] := untilFailure_append_singleton hbuilt ran
  refine ⟨result, hresult, ?_, ?_, ?_, ?_⟩
  · rw [hzero, hrequested, List.forall_mem_append, and_iff_right hbuilt,
      List.forall_mem_singleton]
  · rw [hrequested, huntil]
    intro failed hmem hfailed
    rcases List.mem_append.mp hmem with hbefore | hlast
    · rw [hbuilt failed hbefore] at hfailed
      cases hfailed
    · rw [List.mem_singleton.mp hlast] at hfailed ⊢
      refine ⟨hcode, ?_⟩
      rw [Ne, hzero, hfailed]
      exact Bool.false_ne_true
  · rw [hrequested, huntil, hstdout, List.flatMap_append, List.flatMap_singleton]
  · rw [hrequested, huntil, hstderr, List.flatMap_append, List.flatMap_singleton]

/-- The exit code tells whether everything that was requested has succeeded exactly when a command
to run is requested or the build fails. -/
theorem tellsSuccess_iff (hshell : HasShell guest) (hcalls : Undisturbed guest spec deadline start) :
    TellsSuccess guest spec deadline start ↔ spec.runCmd ≠ [] ∨ BuildFails guest spec := by
  by_cases hfails : BuildFails guest spec
  · exact iff_of_true (tellsSuccess_of_buildFails hshell hcalls hfails) (Or.inr hfails)
  rw [or_iff_left hfails]
  constructor
  · intro htells hempty
    exact not_tellsSuccess_of_runCmd_eq_nil hshell hcalls hfails hempty htells
  · exact tellsSuccess_of_runCmd_ne_nil hshell hcalls hfails

end Outcome

/-- A shell that completes every command but the empty one. -/
def shell (command : String) : Call CommandOutput :=
  ⟨0, .ok ⟨⟨some (if "&& ".toList.isSuffixOf command.toList then 2 else 0), none⟩, [], []⟩⟩

def shellGuest : Guest where
  cleanup := shell
  localDirExists := fun _ ↦ true
  upload := fun _ _ ↦ ⟨0, .ok ()⟩
  build := shell
  run := shell

theorem hasShell_shellGuest : HasShell shellGuest where
  waited := by
    intro exec hexec command output hresult signal hsignal
    have hshell : exec = shell := by simpa [shellGuest] using hexec
    rw [hshell, shell, Except.ok.injEq] at hresult
    rw [← hresult] at hsignal
    cases hsignal
  rejects := by
    intro exec hexec workDir output hresult
    have hshell : exec = shell := by simpa [shellGuest] using hexec
    have hempty : (commandIn workDir []).toList =
        ("cd " ++ workDir ++ " ").toList ++ "&& ".toList := by
      simp [commandIn]
    rw [hshell, shell, Except.ok.injEq, hempty, if_pos] at hresult
    · rw [← hresult]
      rfl
    · rw [List.isSuffixOf_iff_suffix]
      exact List.suffix_append _ _

theorem undisturbed_shellGuest (spec : ProjectSpec) (deadline start : Instant) :
    Undisturbed shellGuest spec deadline start where
  upload := fun _ _ _ ↦ ⟨Nat.zero_le _, _, rfl⟩
  build := fun _ ↦ ⟨Nat.zero_le _, _, rfl⟩
  run := fun _ ↦ ⟨Nat.zero_le _, _, rfl⟩

/-- A project with a build command and these words to run. -/
def makeProject (runCmd : List String) : ProjectSpec where
  snapshotHash := ""
  localProjectDir := none
  workDir := "/root/project"
  buildCmd := ["make"]
  runCmd := runCmd
  timeoutMs := 30000
  resourceLimits := {}

theorem tellsSuccess_iff_makeProject :
    TellsSuccess shellGuest (makeProject ["./app"]) (Duration.fromSecs 30) 0 ↔
      (makeProject ["./app"]).runCmd ≠ [] ∨ BuildFails shellGuest (makeProject ["./app"]) :=
  tellsSuccess_iff hasShell_shellGuest (undisturbed_shellGuest _ _ _)

/-- The build succeeds, nothing else is requested, and the job fails. -/
theorem empty_run_fails :
    ¬ ∀ (guest : Guest) (spec : ProjectSpec) (deadline start : Instant), HasShell guest →
      Undisturbed guest spec deadline start → TellsSuccess guest spec deadline start := by
  intro hgeneral
  obtain ⟨result, hresult, hiff, -⟩ := hgeneral shellGuest (makeProject []) (Duration.fromSecs 30) 0
    hasShell_shellGuest (undisturbed_shellGuest _ _ _)
  have hcode : result.exitCode = 2 := by
    rw [← Except.ok.inj hresult]
    decide
  have hall : ∀ output ∈ requestedOutputs shellGuest (makeProject []),
      output.status.success = true := by decide
  rw [hiff.mpr hall] at hcode
  cases hcode

end EdgeOrchestrator.Sandbox

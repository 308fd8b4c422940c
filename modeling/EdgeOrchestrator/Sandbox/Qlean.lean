import EdgeOrchestrator.Core.Error

/-!
# The sandbox worker

One thread owns at most one virtual machine and runs the jobs one after the other. The calls to
the machine library are inputs: each takes some time and returns or fails, and the worker gives up
on it when its budget is over. Machines are told apart by the number of machines created before
them.
-/

namespace EdgeOrchestrator.Sandbox

/-- How the sandbox treats the machine between jobs. -/
inductive VmMode
  | reuse
  | fresh
  deriving DecidableEq, Repr

def VmMode.allowsReuse : VmMode → Bool
  | .reuse => true
  | .fresh => false

inductive PoolAction
  | keep
  | discard
  | refill (target : ℕ)
  deriving DecidableEq, Repr

structure PoolPlan where
  reuse : Bool
  target : ℕ
  deriving DecidableEq, Repr

def maxPoolTarget : ℕ := 8

/-- `PoolPlan::new` -/
def PoolPlan.new (reuse : Bool) (configuredSize : ℕ) : PoolPlan where
  reuse := reuse
  target := if reuse then 0 else min configuredSize maxPoolTarget

def PoolPlan.afterJob (plan : PoolPlan) : List PoolAction :=
  if plan.reuse then [.keep]
  else if plan.target = 0 then [.discard]
  else [.discard, .refill plan.target]

theorem PoolPlan.afterJob_reuse (configuredSize : ℕ) :
    (PoolPlan.new true configuredSize).afterJob = [.keep] := rfl

/-- Without reuse the machine is discarded before anything else. -/
theorem PoolPlan.afterJob_fresh (configuredSize : ℕ) :
    ∃ rest, (PoolPlan.new false configuredSize).afterJob = .discard :: rest := by
  simp only [PoolPlan.afterJob, PoolPlan.new, Bool.false_eq_true, if_false]
  split_ifs
  · exact ⟨[], rfl⟩
  · exact ⟨[.refill (min configuredSize maxPoolTarget)], rfl⟩

/-- A call to the machine library. -/
structure Call (Value : Type) where
  takes : Duration
  result : Except String Value

/-- `tokio::time::timeout`: the result when it comes within the budget, and the time waited. -/
def timeout {Value : Type} (budget : Duration) (call : Call Value) :
    Option (Except String Value) × Duration :=
  if call.takes ≤ budget then (some call.result, call.takes) else (none, budget)

inductive PhaseBudget
  | image
  | boot
  | upload
  | build
  | run
  deriving DecidableEq, Repr

def imagePrepareTimeout : Duration := .fromSecs 300

def bootTimeout : Duration := .fromSecs 600

def uploadTimeout : Duration := .fromSecs 300

/-- The slice of the remaining budget that a phase may use. -/
def phaseBudget (now deadline : Instant) (phase : PhaseBudget) : Duration :=
  let remaining := deadline - now
  let share := match phase with
    | .image => remaining / 3
    | .boot => remaining / 2
    | .upload | .build => remaining
    | .run => remaining - .fromSecs 5
  let cap := match phase with
    | .image => imagePrepareTimeout
    | .boot => bootTimeout
    | .upload => uploadTimeout
    | .build | .run => .fromSecs 1800
  max (min share cap) (.fromSecs 1)

/-- A duration in whole seconds, as the messages print it. -/
def secsText (duration : Duration) : String := toString duration.asSecs ++ "s"

/-- How a guest process ended: with a code, or by a signal. -/
structure ExitStatus where
  code : Option ℤ
  signal : Option ℤ
  deriving DecidableEq, Repr

def ExitStatus.success (status : ExitStatus) : Bool := status.code == some 0

def exitCodeOf (status : ExitStatus) : ℤ :=
  match status.code with
  | some code => code
  | none =>
    match status.signal with
    | some signal => 128 + signal
    | none => 1

/-- What a command in the guest returns. -/
structure CommandOutput where
  status : ExitStatus
  stdout : Bytes
  stderr : Bytes

/-- Drop the empty segments and the dots that end a list of path segments. -/
def trimSegments (segments : List (List Char)) : List (List Char) :=
  segments.rdropWhile fun segment ↦ segment == [] || segment == ['.']

/-- The segments before the last one that names something, if there is such a one. -/
def parentSegments (segments : List (List Char)) : Option (List (List Char)) :=
  match trimSegments segments with
  | [] => none
  | named => some (trimSegments named.dropLast)

/-- `Path::parent` of a Unix path. -/
def pathParent (path : String) : Option String :=
  match path.toList.splitOn '/' with
  | [] :: second :: rest =>
    (parentSegments (second :: rest)).map fun segments ↦
      String.ofList ('/' :: ['/'].intercalate segments)
  | ['.'] :: rest =>
    match parentSegments rest with
    | some segments => some (String.ofList (['/'].intercalate (['.'] :: segments)))
    | none => some ""
  | segments =>
    (parentSegments segments).map fun segments ↦ String.ofList (['/'].intercalate segments)

example : ["/root/project", "/root//a/./b/", "/", "project", "./a/b", ""].map pathParent =
    [some "/root", some "/root//a", none, some "", some "./a", none] := by decide

/-- A stage with a budget: how its errors name it, and what a late one may mean. -/
structure Stage where
  name : String
  slowName : String
  advice : String

def Stage.image : Stage :=
  ⟨"image", "image preparation", " (image download/cache unavailable?)"⟩

def Stage.machine : Stage := ⟨"machine", "machine creation", ""⟩

def Stage.boot : Stage :=
  ⟨"boot", "VM boot",
    " (cloud-init stuck? check /dev/kvm and qemu-bridge-helper permissions)"⟩

def Stage.upload : Stage :=
  ⟨"upload", "upload", " (guest unreachable or snapshot too large)"⟩

def Stage.build : Stage :=
  ⟨"build", "build",
    " (command did not return; the VM may be rebooting or apt-get may be stuck)"⟩

def Stage.run : Stage :=
  ⟨"run", "run",
    " (guest command did not return; no hard kill is available for a single in-guest command)"⟩

/-- Wait for the call of a stage; a failure and a late answer become errors of the sandbox. -/
def Stage.await {Value : Type} (stage : Stage) (budget : Duration) (now : Instant)
    (call : Call Value) : Except CoreError Value × Instant :=
  let (answer, waited) := timeout budget call
  let result := match answer with
    | some (.ok value) => .ok value
    | some (.error message) => .error (.sandboxExecution (stage.name ++ ": " ++ message))
    | none => .error (.sandboxExecution
        (stage.slowName ++ " timed out after " ++ secsText budget ++ stage.advice))
  (result, now + waited)

/-- The guest as one job finds it: what its calls do, given the command or the paths. -/
structure Guest where
  cleanup : String → Call CommandOutput
  localDirExists : String → Bool
  upload : String → String → Call Unit
  build : String → Call CommandOutput
  run : String → Call CommandOutput

/-- Upload the project directory, when there is one. -/
def uploadProject (guest : Guest) (spec : ProjectSpec) (deadline now : Instant) :
    Except CoreError Unit × Instant :=
  match spec.localProjectDir with
  | none => (.ok (), now)
  | some dir =>
    if guest.localDirExists dir then
      let parent := (pathParent spec.workDir).getD "/root"
      Stage.upload.await (phaseBudget now deadline .upload) now (guest.upload dir parent)
    else (.ok (), now)

/-- The shell command that runs the words of a command in the work directory. -/
def commandIn (workDir : String) (words : List String) : String :=
  "cd " ++ workDir ++ " && " ++ " ".intercalate words

/-- Run the command, behind the output of a build that succeeded. -/
def runProject (guest : Guest) (spec : ProjectSpec) (deadline start now : Instant)
    (stdout stderr : Bytes) : Except CoreError ExecutionResult × Instant :=
  match Stage.run.await (phaseBudget now deadline .run) now
      (guest.run (commandIn spec.workDir spec.runCmd)) with
  | (.error error, now) => (.error error, now)
  | (.ok output, now) =>
    (.ok {
      exitCode := exitCodeOf output.status
      stdout := stdout ++ output.stdout
      stderr := stderr ++ output.stderr
      executionTimeMs := Duration.asMillis (now - start)
      peakMemoryBytes := 0
      resultHash := none }, now)

/-- `execute_on_vm`: clean, upload, build and run; a failed build ends the job with its code. -/
def executeOnVm (guest : Guest) (spec : ProjectSpec) (deadline start : Instant) :
    Except CoreError ExecutionResult × Instant :=
  let now := start + (guest.cleanup ("rm -rf " ++ spec.workDir)).takes
  match uploadProject guest spec deadline now with
  | (.error error, now) => (.error error, now)
  | (.ok (), now) =>
    if spec.buildCmd.isEmpty then runProject guest spec deadline start now [] []
    else
      match Stage.build.await (phaseBudget now deadline .build) now
          (guest.build (commandIn spec.workDir spec.buildCmd)) with
      | (.error error, now) => (.error error, now)
      | (.ok output, now) =>
        if output.status.success then
          runProject guest spec deadline start now output.stdout output.stderr
        else
          (.ok {
            exitCode := exitCodeOf output.status
            stdout := output.stdout
            stderr := output.stderr
            executionTimeMs := Duration.asMillis (now - start)
            peakMemoryBytes := 0
            resultHash := none }, now)

/-- A machine, numbered by the machines created before it. -/
abbrev Machine := ℕ

inductive WorkerEvent
  | bootStarted (why : String)
  | executed (machine : Machine) (outcome : Except CoreError ExecutionResult)
  | shutDown (machine : Machine)
  | replied (outcome : Except CoreError ExecutionResult)

/-- The variables of the worker thread, its clock, and what it did so far. -/
structure Worker where
  now : Instant := 0
  image : Bool := false
  machine : Option Machine := none
  created : ℕ := 0
  events : List WorkerEvent := []

structure Job where
  spec : ProjectSpec
  deadline : Instant

/-- When a job is received, and what the calls made for it do. -/
structure JobCalls where
  receivedAt : Instant
  image : Call Unit
  isRunning : Call Bool
  create : Call Unit
  init : Call Unit
  guest : Guest
  shutdown : Call Unit
  refillCreate : Call Unit
  refillInit : Call Unit

namespace Worker

def record (worker : Worker) (event : WorkerEvent) : Worker :=
  { worker with events := worker.events ++ [event] }

/-- Prepare the image unless that was done before. -/
def ensureImage (worker : Worker) (deadline : Instant) (call : Call Unit) :
    Except CoreError Unit × Worker :=
  if worker.image then (.ok (), worker)
  else
    match Stage.image.await (phaseBudget worker.now deadline .image) worker.now call with
    | (.error error, now) => (.error error, { worker with now })
    | (.ok (), now) => (.ok (), { worker with now, image := true })

def bootMachine (worker : Worker) (budget : Duration) (why : String) (create init : Call Unit) :
    Except CoreError Machine × Worker :=
  let worker := worker.record (.bootStarted why)
  match Stage.machine.await budget worker.now create with
  | (.error error, now) => (.error error, { worker with now })
  | (.ok (), now) =>
    let machine := worker.created
    let worker := { worker with created := worker.created + 1 }
    match Stage.boot.await budget now init with
    | (.error error, now) => (.error error, { worker with now })
    | (.ok (), now) => (.ok machine, { worker with now })

/-- The machine kept from the job before, when it says that it is running. -/
def runningMachine (worker : Worker) (isRunning : Call Bool) : Option Machine × Worker :=
  match worker.machine with
  | none => (none, worker)
  | some machine =>
    let running := isRunning.result.toOption.getD false
    (if running then some machine else none, { worker with now := worker.now + isRunning.takes })

/-- Prepare the image and a running machine, which is then the one that the worker keeps. -/
def prepare (worker : Worker) (deadline : Instant) (calls : JobCalls) :
    Except CoreError Machine × Worker :=
  match worker.ensureImage deadline calls.image with
  | (.error error, worker) => (.error error, worker)
  | (.ok (), worker) =>
    match worker.runningMachine calls.isRunning with
    | (some machine, worker) => (.ok machine, worker)
    | (none, worker) =>
      match worker.bootMachine (phaseBudget worker.now deadline .boot) "task machine"
          calls.create calls.init with
      | (.error error, worker) => (.error error, worker)
      | (.ok machine, worker) => (.ok machine, { worker with machine := some machine })

/-- Carry out one action of the pool plan. -/
def perform (calls : JobCalls) (worker : Worker) : PoolAction → Worker
  | .keep => worker
  | .discard =>
    match worker.machine with
    | none => worker
    | some machine =>
      -- The machine is taken out before the shutdown, which may fail.
      { worker.record (.shutDown machine) with
        now := worker.now + calls.shutdown.takes
        machine := none }
  | .refill _ =>
    if worker.image then
      match worker.bootMachine bootTimeout "pool refill" calls.refillCreate calls.refillInit with
      | (.error _, worker) => worker
      | (.ok machine, worker) => { worker with machine := some machine }
    else worker

/-- Prepare a machine and execute the job on it. -/
def execute (worker : Worker) (job : Job) (calls : JobCalls) :
    Except CoreError ExecutionResult × Worker :=
  match worker.prepare job.deadline calls with
  | (.error error, worker) => (.error error, worker)
  | (.ok machine, worker) =>
    let (outcome, now) := executeOnVm calls.guest job.spec job.deadline worker.now
    (outcome, { worker.record (.executed machine outcome) with now })

/-- Drop the machine of a job that failed. -/
def dropAfter (worker : Worker) : Except CoreError ExecutionResult → Worker
  | .ok _ => worker
  | .error _ => { worker with machine := none }

/-- One turn of the worker loop. -/
def handle (plan : PoolPlan) (worker : Worker) (request : Job × JobCalls) : Worker :=
  let worker := { worker with now := max worker.now request.2.receivedAt }
  let (outcome, worker) := worker.execute request.1 request.2
  let worker := plan.afterJob.foldl (perform request.2) (worker.dropAfter outcome)
  worker.record (.replied outcome)

end Worker

/-- The worker thread after a list of jobs. -/
def worker (mode : VmMode) (poolSize : ℕ) (requests : List (Job × JobCalls)) : Worker :=
  requests.foldl (Worker.handle (PoolPlan.new mode.allowsReuse poolSize)) {}

end EdgeOrchestrator.Sandbox

import EdgeOrchestrator.Sandbox.Qlean

/-!
# Which machines execute a second job

The worker keeps a machine in one variable, which booting, a failed job, the pool plan and a stale
machine assign or clear. Whatever its calls do, a machine in that variable has executed nothing
yet, or the mode is reuse and everything it executed ended with a result.
-/

namespace EdgeOrchestrator.Sandbox

/-- A machine with what became of a job executed on it. -/
abbrev Execution := Machine × Except CoreError ExecutionResult

/-- The executions among the events, in order. -/
def executions (events : List WorkerEvent) : List Execution :=
  events.filterMap fun
    | .executed machine outcome => some (machine, outcome)
    | _ => none

@[simp]
theorem executions_append (first second : List WorkerEvent) :
    executions (first ++ second) = executions first ++ executions second :=
  List.filterMap_append

/-- The worker went on without executing a job. Its machine is the one from before, or new. -/
structure Idled (earlier later : Worker) : Prop where
  executions : executions later.events = executions earlier.events
  created : earlier.created ≤ later.created
  machine : ∀ machine, later.machine = some machine →
    earlier.machine = some machine ∨ earlier.created ≤ machine ∧ machine < later.created

theorem Idled.refl (worker : Worker) : Idled worker worker :=
  ⟨rfl, le_rfl, fun _ hmachine ↦ Or.inl hmachine⟩

theorem Idled.trans {first second third : Worker} (hfirst : Idled first second)
    (hsecond : Idled second third) : Idled first third where
  executions := hsecond.executions.trans hfirst.executions
  created := hfirst.created.trans hsecond.created
  machine := by
    intro machine hmachine
    rcases hsecond.machine machine hmachine with hkept | ⟨hlow, hhigh⟩
    · rcases hfirst.machine machine hkept with hold | ⟨hlow, hhigh⟩
      · exact Or.inl hold
      · exact Or.inr ⟨hlow, hhigh.trans_le hsecond.created⟩
    · exact Or.inr ⟨hfirst.created.trans hlow, hhigh⟩

namespace Worker

/-- Recording an event that is no execution. -/
theorem idled_record (worker : Worker) {event : WorkerEvent} (hevent : executions [event] = []) :
    Idled worker (worker.record event) := by
  refine ⟨?_, le_rfl, fun _ hmachine ↦ Or.inl hmachine⟩
  rw [record, executions_append, hevent, List.append_nil]

theorem idled_ensureImage (worker : Worker) (deadline : Instant) (call : Call Unit) :
    Idled worker (worker.ensureImage deadline call).2 := by
  rw [ensureImage]
  split_ifs
  · exact Idled.refl worker
  · split <;> exact ⟨rfl, le_rfl, fun _ hmachine ↦ Or.inl hmachine⟩

/-- Booting leaves the variable alone. A machine that booted is new. -/
theorem idled_bootMachine (worker : Worker) (budget : Duration) (why : String)
    (create init : Call Unit) :
    let (result, booted) := worker.bootMachine budget why create init
    Idled worker booted ∧
      ∀ machine, result = .ok machine → worker.created ≤ machine ∧ machine < booted.created := by
  have hrecord : executions (worker.record (.bootStarted why)).events =
      executions worker.events := (worker.idled_record rfl).executions
  simp only [bootMachine]
  split
  · exact ⟨⟨hrecord, le_rfl, fun _ hmachine ↦ Or.inl hmachine⟩, fun _ hok ↦ nomatch hok⟩
  · split
    · exact ⟨⟨hrecord, Nat.le_succ _, fun _ hmachine ↦ Or.inl hmachine⟩, fun _ hok ↦ nomatch hok⟩
    · refine ⟨⟨hrecord, Nat.le_succ _, fun _ hmachine ↦ Or.inl hmachine⟩, fun machine hok ↦ ?_⟩
      cases hok
      exact ⟨le_rfl, Nat.lt_succ_self _⟩

/-- A machine that booted may be put into the variable. -/
theorem idled_keepBooted {worker booted : Worker} {budget : Duration} {why : String}
    {create init : Call Unit} {machine : Machine}
    (hboot : worker.bootMachine budget why create init = (.ok machine, booted)) :
    Idled worker { booted with machine := some machine } := by
  have hspec := worker.idled_bootMachine budget why create init
  rw [hboot] at hspec
  exact ⟨hspec.1.executions, hspec.1.created, fun other hother ↦ by
    rw [← Option.some.inj hother]
    exact Or.inr (hspec.2 machine rfl)⟩

theorem idled_runningMachine (worker : Worker) (isRunning : Call Bool) :
    let (running, checked) := worker.runningMachine isRunning
    Idled worker checked ∧ ∀ machine, running = some machine → checked.machine = some machine := by
  simp only [runningMachine]
  split
  · exact ⟨Idled.refl worker, fun _ hsome ↦ nomatch hsome⟩
  · rename_i machine hmachine
    refine ⟨⟨rfl, le_rfl, fun _ hmachine ↦ Or.inl hmachine⟩, fun other hother ↦ ?_⟩
    split_ifs at hother
    rw [← hother]
    exact hmachine

/-- Preparing executes nothing, and the machine it returns is in the variable. -/
theorem idled_prepare (worker : Worker) (deadline : Instant) (calls : JobCalls) :
    let (result, prepared) := worker.prepare deadline calls
    Idled worker prepared ∧ ∀ machine, result = .ok machine → prepared.machine = some machine := by
  have himage := worker.idled_ensureImage deadline calls.image
  simp only [prepare]
  split
  · rename_i heq
    rw [heq] at himage
    exact ⟨himage, fun _ hok ↦ nomatch hok⟩
  · rename_i imaged heq
    rw [heq] at himage
    have hrunning := imaged.idled_runningMachine calls.isRunning
    split
    · rename_i machine checked heq
      rw [heq] at hrunning
      refine ⟨himage.trans hrunning.1, fun other hother ↦ ?_⟩
      cases hother
      exact hrunning.2 machine rfl
    · rename_i checked heq
      rw [heq] at hrunning
      have hchecked := himage.trans hrunning.1
      split
      · rename_i heq
        have hboot := checked.idled_bootMachine (phaseBudget checked.now deadline .boot)
          "task machine" calls.create calls.init
        rw [heq] at hboot
        exact ⟨hchecked.trans hboot.1, fun _ hok ↦ nomatch hok⟩
      · rename_i machine booted heq
        refine ⟨hchecked.trans (idled_keepBooted heq), fun other hother ↦ ?_⟩
        cases hother
        rfl

theorem idled_perform (calls : JobCalls) (worker : Worker) (action : PoolAction) :
    Idled worker (perform calls worker action) := by
  cases action with
  | keep => exact Idled.refl worker
  | discard =>
    simp only [perform]
    split
    · exact Idled.refl worker
    · exact ⟨(worker.idled_record rfl).executions, le_rfl, fun _ hmachine ↦ nomatch hmachine⟩
  | refill target =>
    simp only [perform]
    split_ifs
    · split
      · rename_i heq
        have hboot := worker.idled_bootMachine bootTimeout "pool refill" calls.refillCreate
          calls.refillInit
        rw [heq] at hboot
        exact hboot.1
      · rename_i heq
        exact idled_keepBooted heq
    · exact Idled.refl worker

theorem idled_foldl_perform (calls : JobCalls) (worker : Worker) (actions : List PoolAction) :
    Idled worker (actions.foldl (perform calls) worker) := by
  induction actions generalizing worker with
  | nil => exact Idled.refl worker
  | cons action rest ih => exact (idled_perform calls worker action).trans (ih _)

theorem machine_perform_discard (calls : JobCalls) (worker : Worker) :
    (perform calls worker .discard).machine = none := by
  simp only [perform]
  split
  · assumption
  · rfl

end Worker

/-- The second of two executions was permitted after the first: they are on two machines, or
machines are reused and the first ended with a result. -/
def Permitted (mode : VmMode) (earlier later : Execution) : Prop :=
  earlier.1 = later.1 → mode = .reuse ∧ ∃ result, earlier.2 = .ok result

/-- The executions so far were permitted, and the machine in the variable failed none of them. -/
structure Accounted (mode : VmMode) (worker : Worker) : Prop where
  numbered : ∀ execution ∈ executions worker.events, execution.1 < worker.created
  owned : ∀ machine, worker.machine = some machine → machine < worker.created
  successful : ∀ machine, worker.machine = some machine →
    ∀ execution ∈ executions worker.events, execution.1 = machine →
      ∃ result, execution.2 = .ok result
  permitted : (executions worker.events).Pairwise (Permitted mode)

/-- Between two jobs, the machine in the variable is moreover unused when machines are fresh. -/
structure Isolated (mode : VmMode) (worker : Worker) : Prop extends Accounted mode worker where
  unused : mode = .fresh → ∀ machine, worker.machine = some machine →
    ∀ execution ∈ executions worker.events, execution.1 ≠ machine

variable {mode : VmMode} {worker : Worker}

theorem Accounted.idled (haccounted : Accounted mode worker) {later : Worker}
    (hidled : Idled worker later) : Accounted mode later where
  numbered := by
    intro execution hmem
    rw [hidled.executions] at hmem
    exact (haccounted.numbered execution hmem).trans_le hidled.created
  owned := by
    intro machine hmachine
    rcases hidled.machine machine hmachine with hkept | ⟨-, hhigh⟩
    · exact (haccounted.owned machine hkept).trans_le hidled.created
    · exact hhigh
  successful := by
    intro machine hmachine execution hmem hown
    rw [hidled.executions] at hmem
    rcases hidled.machine machine hmachine with hkept | ⟨hlow, -⟩
    · exact haccounted.successful machine hkept execution hmem hown
    · have hnumber := haccounted.numbered execution hmem
      rw [hown] at hnumber
      exact absurd hnumber hlow.not_gt
  permitted := by
    rw [hidled.executions]
    exact haccounted.permitted

theorem Isolated.idled (hisolated : Isolated mode worker) {later : Worker}
    (hidled : Idled worker later) : Isolated mode later where
  toAccounted := hisolated.toAccounted.idled hidled
  unused := by
    intro hfresh machine hmachine execution hmem
    rw [hidled.executions] at hmem
    rcases hidled.machine machine hmachine with hkept | ⟨hlow, -⟩
    · exact hisolated.unused hfresh machine hkept execution hmem
    · exact ((hisolated.numbered execution hmem).trans_le hlow).ne

/-- Executing a job on the machine in the variable is permitted, and the machine is dropped when
the job fails. -/
theorem Isolated.executed (hisolated : Isolated mode worker) {machine : Machine}
    (hmachine : worker.machine = some machine) (outcome : Except CoreError ExecutionResult)
    (now : Instant) :
    Accounted mode (({ worker.record (.executed machine outcome) with now } : Worker).dropAfter
      outcome) := by
  have hexecuted : executions (worker.record (.executed machine outcome)).events =
      executions worker.events ++ [(machine, outcome)] := executions_append _ _
  have hnumbered : ∀ execution ∈ executions (worker.record (.executed machine outcome)).events,
      execution.1 < worker.created := by
    intro execution hmem
    rw [hexecuted, List.mem_append, List.mem_singleton] at hmem
    rcases hmem with hearlier | hlast
    · exact hisolated.numbered execution hearlier
    · rw [hlast]
      exact hisolated.owned machine hmachine
  have hpermitted : (executions (worker.record (.executed machine outcome)).events).Pairwise
      (Permitted mode) := by
    rw [hexecuted, List.pairwise_append]
    refine ⟨hisolated.permitted, List.pairwise_singleton _ _, fun earlier hearlier last hlast ↦ ?_⟩
    rw [List.mem_singleton.mp hlast]
    intro hown
    have hreuse : mode = .reuse := by
      cases mode with
      | reuse => rfl
      | fresh => exact absurd hown (hisolated.unused rfl machine hmachine earlier hearlier)
    exact ⟨hreuse, hisolated.successful machine hmachine earlier hearlier hown⟩
  cases outcome with
  | error error => exact ⟨hnumbered, nofun, nofun, hpermitted⟩
  | ok result =>
    refine ⟨hnumbered, hisolated.owned, fun other hother execution hmem hown ↦ ?_, hpermitted⟩
    change execution ∈ executions (worker.record (.executed machine (.ok result))).events at hmem
    rw [hexecuted, List.mem_append, List.mem_singleton] at hmem
    rcases hmem with hearlier | hlast
    · exact hisolated.successful other hother execution hearlier hown
    · rw [hlast]
      exact ⟨result, rfl⟩

theorem Isolated.execute (hisolated : Isolated mode worker) (job : Job) (calls : JobCalls) :
    let (outcome, executed) := worker.execute job calls
    Accounted mode (executed.dropAfter outcome) := by
  have hprepare := worker.idled_prepare job.deadline calls
  simp only [Worker.execute]
  split
  · rename_i heq
    rw [heq] at hprepare
    have haccounted := hisolated.toAccounted.idled hprepare.1
    exact ⟨haccounted.numbered, nofun, nofun, haccounted.permitted⟩
  · rename_i machine prepared heq
    rw [heq] at hprepare
    exact (hisolated.idled hprepare.1).executed (hprepare.2 machine rfl) _ _

/-- The pool plan makes sure that a fresh machine is unused. -/
theorem Accounted.afterJob (haccounted : Accounted mode worker) (poolSize : ℕ)
    (calls : JobCalls) :
    Isolated mode
      ((PoolPlan.new mode.allowsReuse poolSize).afterJob.foldl (Worker.perform calls) worker) := by
  cases mode with
  | reuse =>
    rw [VmMode.allowsReuse, PoolPlan.afterJob_reuse]
    exact ⟨haccounted, nofun⟩
  | fresh =>
    obtain ⟨rest, hplan⟩ := PoolPlan.afterJob_fresh poolSize
    rw [VmMode.allowsReuse, hplan, List.foldl_cons]
    have hdiscarded : Isolated .fresh (worker.perform calls .discard) :=
      ⟨haccounted.idled (worker.idled_perform calls .discard), fun _ machine hmachine ↦ by
        rw [Worker.machine_perform_discard] at hmachine
        cases hmachine⟩
    exact hdiscarded.idled (Worker.idled_foldl_perform calls _ rest)

theorem Isolated.handle (hisolated : Isolated mode worker) (poolSize : ℕ)
    (request : Job × JobCalls) :
    Isolated mode (worker.handle (PoolPlan.new mode.allowsReuse poolSize) request) := by
  have hreceived : Isolated mode { worker with now := max worker.now request.2.receivedAt } :=
    hisolated.idled ⟨rfl, le_rfl, fun _ hmachine ↦ Or.inl hmachine⟩
  have hplanned := (hreceived.execute request.1 request.2).afterJob poolSize request.2
  exact hplanned.idled (Worker.idled_record _ rfl)

theorem isolated_worker (mode : VmMode) (poolSize : ℕ) (requests : List (Job × JobCalls)) :
    Isolated mode (Sandbox.worker mode poolSize requests) := by
  have hstart : Isolated mode {} := by
    refine ⟨⟨?_, nofun, nofun, List.Pairwise.nil⟩, nofun⟩
    intro execution hmem
    exact absurd hmem List.not_mem_nil
  apply List.foldlRecOn requests _ hstart
  intro worker hisolated request _
  exact hisolated.handle poolSize request

/-- A machine executes a second job only when machines are reused and everything it executed ended
with a result. In fresh mode every machine executes one job at most. -/
theorem machine_reused_only_when_permitted (mode : VmMode) (poolSize : ℕ)
    (requests : List (Job × JobCalls)) :
    let executed := executions (Sandbox.worker mode poolSize requests).events
    (executed.Pairwise fun earlier later ↦
      earlier.1 = later.1 → mode = .reuse ∧ ∃ result, earlier.2 = .ok result) ∧
      (mode = .fresh → (executed.map Prod.fst).Nodup) := by
  intro executed
  have hpermitted := (isolated_worker mode poolSize requests).permitted
  refine ⟨hpermitted, fun hfresh ↦ ?_⟩
  rw [List.Nodup, List.pairwise_map]
  apply hpermitted.imp
  intro earlier later hallowed hown
  have hreuse := (hallowed hown).1
  rw [hfresh] at hreuse
  cases hreuse

/-- Calls that all succeed at once. -/
def promptCalls : JobCalls where
  receivedAt := 0
  image := ⟨0, .ok ()⟩
  isRunning := ⟨0, .ok true⟩
  create := ⟨0, .ok ()⟩
  init := ⟨0, .ok ()⟩
  guest := {
    cleanup := fun _ ↦ ⟨0, .ok ⟨⟨some 0, none⟩, [], []⟩⟩
    localDirExists := fun _ ↦ true
    upload := fun _ _ ↦ ⟨0, .ok ()⟩
    build := fun _ ↦ ⟨0, .ok ⟨⟨some 0, none⟩, [], []⟩⟩
    run := fun _ ↦ ⟨0, .ok ⟨⟨some 0, none⟩, [], []⟩⟩ }
  shutdown := ⟨0, .ok ()⟩
  refillCreate := ⟨0, .ok ()⟩
  refillInit := ⟨0, .ok ()⟩

def smallJob : Job where
  spec := ⟨"", none, "/root/project", [], ["./app"], 0, {}⟩
  deadline := 0

example : [VmMode.reuse, .fresh].map (fun mode ↦
    (executions (Sandbox.worker mode 1 [(smallJob, promptCalls), (smallJob, promptCalls)]).events).map
      Prod.fst) = [[0, 0], [0, 1]] := by decide

end EdgeOrchestrator.Sandbox

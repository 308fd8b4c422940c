import EdgeOrchestrator.Sandbox.MachineReuse

/-!
# When the reply is sent

The pool boots the next machine in advance, which should cost the caller of a job nothing. The
worker follows the pool plan first and replies afterwards, so the caller waits for the refill boot
that follows its own job. The replies come first exactly when no refill boot ever begins: with
machines that are reused, without a pool, or when the image is never prepared.
-/

namespace EdgeOrchestrator.Sandbox

def refillBoot : WorkerEvent := .bootStarted "pool refill"

/-- Neither a reply nor the start of a refill boot. -/
def WorkerEvent.IsQuiet : WorkerEvent → Prop
  | .bootStarted why => why ≠ "pool refill"
  | .replied _ => False
  | _ => True

/-- The worker went on without a reply and without a refill boot, and prepared no image. -/
structure Quietly (earlier later : Worker) : Prop where
  events : ∃ added, later.events = earlier.events ++ added ∧ ∀ event ∈ added, event.IsQuiet
  image : later.image = earlier.image

theorem Quietly.trans {first second third : Worker} (hfirst : Quietly first second)
    (hsecond : Quietly second third) : Quietly first third where
  events := by
    obtain ⟨added, hadded, hquiet⟩ := hfirst.events
    obtain ⟨more, hmore, hstill⟩ := hsecond.events
    refine ⟨added ++ more, by rw [hmore, hadded, List.append_assoc], ?_⟩
    intro event hmem
    rcases List.mem_append.mp hmem with hbefore | hafter
    · exact hquiet event hbefore
    · exact hstill event hafter
  image := hsecond.image.trans hfirst.image

namespace Worker

/-- Nothing was recorded. -/
theorem quietly_of_same {earlier later : Worker} (hevents : later.events = earlier.events)
    (himage : later.image = earlier.image) : Quietly earlier later :=
  ⟨⟨[], by rw [hevents, List.append_nil], fun _ hmem ↦ absurd hmem List.not_mem_nil⟩, himage⟩

theorem quietly_record (worker : Worker) {event : WorkerEvent} (hevent : event.IsQuiet) :
    Quietly worker (worker.record event) := by
  refine ⟨⟨[event], rfl, fun other hmem ↦ ?_⟩, rfl⟩
  rw [List.mem_singleton.mp hmem]
  exact hevent

/-- A boot records its start and nothing else. -/
theorem bootMachine_spec (worker : Worker) (budget : Duration) (why : String)
    (create init : Call Unit) :
    (worker.bootMachine budget why create init).2.events = worker.events ++ [.bootStarted why] ∧
      (worker.bootMachine budget why create init).2.image = worker.image := by
  simp only [bootMachine]
  split
  · exact ⟨rfl, rfl⟩
  · split <;> exact ⟨rfl, rfl⟩

theorem quietly_bootMachine (worker : Worker) (budget : Duration) (create init : Call Unit) :
    Quietly worker (worker.bootMachine budget "task machine" create init).2 := by
  obtain ⟨hevents, himage⟩ := worker.bootMachine_spec budget "task machine" create init
  refine ⟨⟨_, hevents, fun event hmem ↦ ?_⟩, himage⟩
  rw [List.mem_singleton.mp hmem, WorkerEvent.IsQuiet]
  decide

theorem quietly_runningMachine (worker : Worker) (isRunning : Call Bool) :
    Quietly worker (worker.runningMachine isRunning).2 := by
  rw [runningMachine]
  split <;> exact quietly_of_same rfl rfl

/-- The image call of a job returns an image within its budget. -/
def ImageCallSucceeds (worker : Worker) (deadline : Instant) (call : Call Unit) : Prop :=
  call.takes ≤ phaseBudget worker.now deadline .image ∧ call.result = .ok ()

/-- Preparing the image records nothing. The image is there afterwards when it was before, or when
the call succeeds. -/
theorem ensureImage_spec (worker : Worker) (deadline : Instant) (call : Call Unit) :
    (worker.ensureImage deadline call).2.events = worker.events ∧
      ((worker.ensureImage deadline call).2.image = true ↔
        worker.image = true ∨ worker.ImageCallSucceeds deadline call) := by
  rw [ensureImage, ImageCallSucceeds]
  by_cases himage : worker.image = true
  · simp [himage]
  · rw [if_neg himage, Stage.await, timeout]
    by_cases hlate : call.takes ≤ phaseBudget worker.now deadline .image
    · cases hresult : call.result with
      | error message => simp [himage, hlate]
      | ok value => simp [hlate]
    · simp [himage, hlate]

theorem quietly_prepare (worker : Worker) (deadline : Instant) (calls : JobCalls) :
    Quietly (worker.ensureImage deadline calls.image).2 (worker.prepare deadline calls).2 := by
  simp only [prepare]
  split
  · rename_i heq
    rw [heq]
    exact quietly_of_same rfl rfl
  · rename_i imaged heq
    rw [heq]
    have hrunning := imaged.quietly_runningMachine calls.isRunning
    split
    · rename_i heq
      rw [heq] at hrunning
      exact hrunning
    · rename_i checked heq
      rw [heq] at hrunning
      have hboot := checked.quietly_bootMachine (phaseBudget checked.now deadline .boot)
        calls.create calls.init
      split
      · rename_i heq
        rw [heq] at hboot
        exact hrunning.trans hboot
      · rename_i heq
        rw [heq] at hboot
        exact hrunning.trans ⟨hboot.events, hboot.image⟩

/-- Executing a job records neither a reply nor a refill boot. -/
theorem quietly_execute (worker : Worker) (job : Job) (calls : JobCalls) :
    Quietly (worker.ensureImage job.deadline calls.image).2 (worker.execute job calls).2 := by
  have hprepare := worker.quietly_prepare job.deadline calls
  simp only [execute]
  split
  · rename_i heq
    rw [heq] at hprepare
    exact hprepare
  · rename_i machine prepared heq
    rw [heq] at hprepare
    have hrecord : Quietly prepared (prepared.record (.executed machine
        (executeOnVm calls.guest job.spec job.deadline prepared.now).1)) :=
      prepared.quietly_record trivial
    exact hprepare.trans ⟨hrecord.events, hrecord.image⟩

theorem quietly_dropAfter (worker : Worker) (outcome : Except CoreError ExecutionResult) :
    Quietly worker (worker.dropAfter outcome) := by
  cases outcome <;> exact quietly_of_same rfl rfl

theorem quietly_discard (calls : JobCalls) (worker : Worker) :
    Quietly worker (perform calls worker .discard) := by
  rw [perform]
  split
  · exact quietly_of_same rfl rfl
  · rename_i machine _
    have hrecord : Quietly worker (worker.record (.shutDown machine)) :=
      worker.quietly_record trivial
    exact ⟨hrecord.events, hrecord.image⟩

/-- A refill boots a machine exactly when the image is there. -/
theorem perform_refill_spec (calls : JobCalls) (worker : Worker) (target : ℕ) :
    (perform calls worker (.refill target)).events =
        worker.events ++ (if worker.image then [refillBoot] else []) ∧
      (perform calls worker (.refill target)).image = worker.image := by
  rw [perform]
  split_ifs with himage
  · have hboot := worker.bootMachine_spec bootTimeout "pool refill" calls.refillCreate
      calls.refillInit
    split
    · rename_i heq
      rw [heq] at hboot
      exact hboot
    · rename_i heq
      rw [heq] at hboot
      exact hboot
  · exact ⟨(List.append_nil _).symm, rfl⟩

end Worker

def PoolPlan.Refills (plan : PoolPlan) : Prop := plan.reuse = false ∧ plan.target ≠ 0

instance (plan : PoolPlan) : Decidable plan.Refills := inferInstanceAs (Decidable (_ ∧ _))

theorem refills_new_iff (mode : VmMode) (poolSize : ℕ) :
    (PoolPlan.new mode.allowsReuse poolSize).Refills ↔ ¬ (mode = .reuse ∨ poolSize = 0) := by
  cases mode with
  | reuse => simp [PoolPlan.Refills, PoolPlan.new, VmMode.allowsReuse]
  | fresh =>
    simp [PoolPlan.Refills, PoolPlan.new, VmMode.allowsReuse, maxPoolTarget]

/-- Following the plan records a refill boot, if it comes to that, and is quiet otherwise. -/
theorem afterJob_spec (plan : PoolPlan) (calls : JobCalls) (worker : Worker) :
    (∃ quiet, (∀ event ∈ quiet, WorkerEvent.IsQuiet event) ∧
        (plan.afterJob.foldl (Worker.perform calls) worker).events = worker.events ++ quiet ++
          (if plan.Refills ∧ worker.image = true then [refillBoot] else [])) ∧
      (plan.afterJob.foldl (Worker.perform calls) worker).image = worker.image := by
  rw [PoolPlan.afterJob]
  by_cases hreuse : plan.reuse = true
  · have hplan : ¬ plan.Refills := fun hrefills ↦ absurd hreuse (by simp [hrefills.1])
    rw [if_pos hreuse]
    exact ⟨⟨[], by simp, by simp [Worker.perform, hplan]⟩, rfl⟩
  · rw [if_neg hreuse]
    have hdiscard := Worker.quietly_discard calls worker
    obtain ⟨quiet, hevents, hquiet⟩ := hdiscard.events
    by_cases htarget : plan.target = 0
    · have hplan : ¬ plan.Refills := fun hrefills ↦ hrefills.2 htarget
      rw [if_pos htarget]
      exact ⟨⟨quiet, hquiet, by simp [hevents, hplan]⟩, hdiscard.image⟩
    · have hplan : plan.Refills := ⟨by simpa using hreuse, htarget⟩
      have hrefill := Worker.perform_refill_spec calls (Worker.perform calls worker .discard)
        plan.target
      rw [if_neg htarget]
      refine ⟨⟨quiet, hquiet, ?_⟩, hrefill.2.trans hdiscard.image⟩
      simp only [List.foldl_cons, List.foldl_nil, hrefill.1, hevents, hdiscard.image, hplan,
        true_and]

def Worker.received (worker : Worker) (request : Job × JobCalls) : Worker :=
  { worker with now := max worker.now request.2.receivedAt }

def Worker.outcome (worker : Worker) (request : Job × JobCalls) :
    Except CoreError ExecutionResult :=
  ((worker.received request).execute request.1 request.2).1

/-- The worker when a job has ended, before it follows the pool plan. -/
def Worker.ended (worker : Worker) (request : Job × JobCalls) : Worker :=
  ((worker.received request).execute request.1 request.2).2.dropAfter (worker.outcome request)

theorem handle_eq_record (plan : PoolPlan) (worker : Worker) (request : Job × JobCalls) :
    worker.handle plan request =
      (plan.afterJob.foldl (Worker.perform request.2) (worker.ended request)).record
        (.replied (worker.outcome request)) :=
  rfl

/-- The image call of a job succeeds when it is made. -/
def PreparesImage (worker : Worker) (request : Job × JobCalls) : Prop :=
  (worker.received request).ImageCallSucceeds request.1.deadline request.2.image

/-- Until the plan is followed, a job records quiet events and may prepare the image. -/
theorem ended_spec (worker : Worker) (request : Job × JobCalls) :
    (∃ quiet, (∀ event ∈ quiet, WorkerEvent.IsQuiet event) ∧
        (worker.ended request).events = worker.events ++ quiet) ∧
      ((worker.ended request).image = true ↔
        worker.image = true ∨ PreparesImage worker request) := by
  obtain ⟨himageEvents, himage⟩ :=
    (worker.received request).ensureImage_spec request.1.deadline request.2.image
  have hended := ((worker.received request).quietly_execute request.1 request.2).trans
    (Worker.quietly_dropAfter _ (worker.outcome request))
  obtain ⟨quiet, hevents, hquiet⟩ := hended.events
  constructor
  · exact ⟨quiet, hquiet, by rw [Worker.ended, hevents, himageEvents]; rfl⟩
  · rw [Worker.ended, hended.image]
    exact himage

/-- A turn of the worker records quiet events, the refill boot if it comes to that, and the reply at
the end. -/
theorem handle_spec (plan : PoolPlan) (worker : Worker) (request : Job × JobCalls) :
    (∃ quiet, (∀ event ∈ quiet, WorkerEvent.IsQuiet event) ∧
        (worker.handle plan request).events = worker.events ++ quiet ++
          (if plan.Refills ∧ (worker.handle plan request).image = true then [refillBoot] else []) ++
            [.replied (worker.outcome request)]) ∧
      ((worker.handle plan request).image = true ↔
        worker.image = true ∨ PreparesImage worker request) := by
  obtain ⟨⟨quiet, hquiet, hended⟩, himage⟩ := ended_spec worker request
  obtain ⟨⟨planned, hplanned, hplan⟩, hkept⟩ :=
    afterJob_spec plan request.2 (worker.ended request)
  have hhandled : (worker.handle plan request).image = (worker.ended request).image := hkept
  constructor
  · refine ⟨quiet ++ planned, fun event hmem ↦ ?_, ?_⟩
    · rcases List.mem_append.mp hmem with hbefore | hafter
      · exact hquiet event hbefore
      · exact hplanned event hafter
    · rw [hhandled, handle_eq_record, Worker.record, hplan, hended]
      simp only [List.append_assoc]
  · rw [hhandled]
    exact himage

/-! ## Runs of the worker -/

/-- Whatever is recorded from the start of a job on, no refill boot begins before a reply. -/
def RepliesFirst (mode : VmMode) (poolSize : ℕ) (requests : List (Job × JobCalls)) : Prop :=
  ∀ earlier request later, requests = earlier ++ request :: later → ∀ front back,
    (worker mode poolSize requests).events =
        (worker mode poolSize earlier).events ++ front ++ refillBoot :: back →
      ∃ outcome, .replied outcome ∈ front

/-- No job prepares the image. -/
def NeverPreparesImage (mode : VmMode) (poolSize : ℕ) (requests : List (Job × JobCalls)) : Prop :=
  ∀ earlier request later, requests = earlier ++ request :: later →
    ¬ PreparesImage (worker mode poolSize earlier) request

section Runs

variable {mode : VmMode} {poolSize : ℕ} {requests : List (Job × JobCalls)}

theorem worker_append_singleton (earlier : List (Job × JobCalls)) (request : Job × JobCalls) :
    worker mode poolSize (earlier ++ [request]) =
      (worker mode poolSize earlier).handle (PoolPlan.new mode.allowsReuse poolSize) request := by
  rw [worker, List.foldl_append, List.foldl_cons, List.foldl_nil]
  rfl

variable (mode poolSize) in
/-- What was recorded stays recorded. -/
theorem events_worker_append (earlier later : List (Job × JobCalls)) :
    ∃ added, (worker mode poolSize (earlier ++ later)).events =
      (worker mode poolSize earlier).events ++ added := by
  induction later using List.reverseRecOn with
  | nil => exact ⟨[], by rw [List.append_nil, List.append_nil]⟩
  | append_singleton later request ih =>
    obtain ⟨added, hadded⟩ := ih
    obtain ⟨⟨quiet, -, hevents⟩, -⟩ := handle_spec (PoolPlan.new mode.allowsReuse poolSize)
      (worker mode poolSize (earlier ++ later)) request
    rw [← List.append_assoc, worker_append_singleton, hevents, hadded]
    exact ⟨_, by simp only [List.append_assoc]; rfl⟩

theorem NeverPreparesImage.of_append {later : List (Job × JobCalls)}
    (hnever : NeverPreparesImage mode poolSize (requests ++ later)) :
    NeverPreparesImage mode poolSize requests := by
  intro earlier request rest hsplit
  apply hnever earlier request (rest ++ later)
  rw [hsplit, List.append_assoc, List.cons_append]

/-- Without a job that prepares the image, it is never there. -/
theorem NeverPreparesImage.image (hnever : NeverPreparesImage mode poolSize requests) :
    (worker mode poolSize requests).image ≠ true := by
  induction requests using List.reverseRecOn with
  | nil => exact Bool.false_ne_true
  | append_singleton earlier request ih =>
    rw [worker_append_singleton, ne_eq, (handle_spec _ _ request).2, not_or]
    exact ⟨ih hnever.of_append, hnever earlier request [] rfl⟩

/-- Where no turn ends with a plan that refills and with an image, no refill boot begins. -/
theorem refillBoot_notMem
    (hidle : ∀ earlier later, requests = earlier ++ later →
      ¬ ((PoolPlan.new mode.allowsReuse poolSize).Refills ∧
        (worker mode poolSize earlier).image = true)) :
    refillBoot ∉ (worker mode poolSize requests).events := by
  induction requests using List.reverseRecOn with
  | nil => exact List.not_mem_nil
  | append_singleton earlier request ih =>
    have hearlier : refillBoot ∉ (worker mode poolSize earlier).events := by
      apply ih
      intro front back hsplit
      apply hidle front (back ++ [request])
      rw [hsplit, List.append_assoc]
    have hlast := hidle (earlier ++ [request]) [] (List.append_nil _).symm
    obtain ⟨⟨quiet, hquiet, hevents⟩, -⟩ :=
      handle_spec (PoolPlan.new mode.allowsReuse poolSize) (worker mode poolSize earlier) request
    rw [worker_append_singleton] at hlast ⊢
    rw [hevents, if_neg hlast, List.append_nil, List.mem_append, List.mem_append,
      List.mem_singleton, not_or, not_or]
    refine ⟨⟨hearlier, fun hmem ↦ hquiet refillBoot hmem rfl⟩, ?_⟩
    exact WorkerEvent.noConfusion

end Runs

/-- The replies come first exactly when machines are reused, there is no pool, or the image is never
prepared. -/
theorem repliesFirst_iff (mode : VmMode) (poolSize : ℕ) (requests : List (Job × JobCalls)) :
    RepliesFirst mode poolSize requests ↔
      mode = .reuse ∨ poolSize = 0 ∨ NeverPreparesImage mode poolSize requests := by
  constructor
  · intro hfirst
    by_contra hother
    rw [← or_assoc, not_or, ← refills_new_iff] at hother
    obtain ⟨hrefills, hprepares⟩ := hother
    apply hprepares
    intro earlier request later hsplit hprepared
    -- the turn that prepares the image records a refill boot behind nothing but quiet events
    obtain ⟨⟨quiet, hquiet, hevents⟩, himage⟩ :=
      handle_spec (PoolPlan.new mode.allowsReuse poolSize) (worker mode poolSize earlier) request
    rw [if_pos ⟨hrefills, himage.mpr (Or.inr hprepared)⟩, ← worker_append_singleton] at hevents
    obtain ⟨added, hadded⟩ := events_worker_append mode poolSize (earlier ++ [request]) later
    rw [List.append_assoc, List.singleton_append, ← hsplit, hevents] at hadded
    obtain ⟨outcome, hmem⟩ := hfirst earlier request later hsplit quiet _
      (hadded.trans (by simp only [List.append_assoc, List.singleton_append]; rfl))
    exact hquiet _ hmem
  · intro hidle earlier request later hsplit front back hevents
    have hnone : refillBoot ∉ (worker mode poolSize requests).events := by
      apply refillBoot_notMem
      rintro front back hparts ⟨hrefills, himage⟩
      have hplan := (refills_new_iff mode poolSize).mp hrefills
      rw [← or_assoc, or_iff_right hplan, hparts] at hidle
      exact hidle.of_append.image himage
    rw [hevents] at hnone
    exact absurd (List.mem_append_right _ List.mem_cons_self) hnone

/-- In fresh mode with a pool, the caller of the first job waits for the refill boot. -/
theorem refill_before_first_reply : ¬ RepliesFirst .fresh 1 [(smallJob, promptCalls)] := by
  intro hfirst
  let outcome := Worker.outcome {} (smallJob, promptCalls)
  obtain ⟨other, hmem⟩ := hfirst [] _ [] rfl
    [.bootStarted "task machine", .executed 0 outcome, .shutDown 0] [.replied outcome] rfl
  simp at hmem

end EdgeOrchestrator.Sandbox

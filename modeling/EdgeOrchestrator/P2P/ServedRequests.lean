import EdgeOrchestrator.P2P.ExactlyOnce

/-!
# What an executing node makes of the requests that reached it

Beside the state of the project exchange stands the task that arrived on each response channel. As
long as no two arrivals carry the same task id, every job runs the task of its channel, no channel
is dropped, only outcomes for closed channels are thrown away, and each channel gets at most one
result, which answers its task. A node without an executor keeps the same account of the requests
that it turns down. What it takes to answer a task is left open.
-/

namespace EdgeOrchestrator.P2P.ServedRequests

open ExactlyOnce Exchange

/-- The exchange does what the tasks that arrived on its channels ask for. -/
structure Serving (answersTo : ProjectTask → ProjectResult → Prop)
    (arrived : ResponseChannel → Option ProjectTask) (exchange : Exchange) : Prop where
  sound : Sound exchange
  requested : ∀ channel, channel ∈ exchange.requested ↔ (arrived channel).isSome
  jobs : ∀ channel job, exchange.jobs channel = some job → arrived channel = some job.task
  pending : ∀ taskId channel, exchange.pending.lookup taskId = some channel →
    ∃ task, arrived channel = some task ∧ task.taskId = taskId
  produced : ∀ channel result, (channel, result) ∈ exchange.produced →
    ∃ task, arrived channel = some task ∧ answersTo task result
  running : ∀ channel peer task, exchange.jobs channel = some ⟨peer, task, .running⟩ →
    channel ∉ exchange.produced.map Prod.fst
  once : (exchange.produced.map Prod.fst).Nodup

/-- No task with the id of an arriving one arrived before, and refusals and the results of jobs
answer their tasks. -/
def Admissible (answersTo : ProjectTask → ProjectResult → Prop) (hasExecutor : Bool)
    (arrived : ResponseChannel → Option ProjectTask) (exchange : Exchange) : ExchangeAction → Prop
  | .request _ _ task =>
    (∀ channel other, arrived channel = some other → other.taskId ≠ task.taskId) ∧
      (hasExecutor = false → answersTo task (projectFailure task 101 noExecutorMessage))
  | .finish channel outcome => ∀ job, exchange.jobs channel = some job →
      answersTo job.task (jobResult job.task outcome)
  | _ => True

/-- The tasks that have arrived after an action. -/
def arrivedAfter (arrived : ResponseChannel → Option ProjectTask) :
    ExchangeAction → ResponseChannel → Option ProjectTask
  | .request channel _ task => Function.update arrived channel (some task)
  | _ => arrived

variable {answersTo : ProjectTask → ProjectResult → Prop} {hasExecutor : Bool}
  {arrived : ResponseChannel → Option ProjectTask} {exchange next : Exchange}
  {action : ExchangeAction}

theorem serving_start : Serving answersTo (fun _ ↦ none) {} where
  sound := sound_start
  requested channel := by simp
  jobs _ _ hjob := by cases hjob
  pending _ _ hlookup := by cases hlookup
  produced _ _ hmem := by cases hmem
  running _ _ _ hjob := by cases hjob
  once := List.nodup_nil

/-- Only a request is treated differently without an executor. -/
theorem step_cases (hstep : exchange.step hasExecutor action = some next) :
    Move exchange action next ∨ ∃ channel peer task, hasExecutor = false ∧
      action = .request channel peer task ∧ channel ∉ exchange.requested ∧
        next = exchange.reject channel task := by
  cases action with
  | request channel peer task =>
    obtain ⟨hnew, hnext⟩ := Option.ite_none_left_eq_some.mp hstep
    cases hasExecutor with
    | true => exact Or.inl (Option.some.inj hnext ▸ .accept hnew)
    | false => exact Or.inr ⟨channel, peer, task, rfl, rfl, hnew, (Option.some.inj hnext).symm⟩
  | _ => exact Or.inl (step_eq_some_iff.mp hstep)

/-- Turning a request down leaves nothing unanswered but what came on a closed channel. -/
theorem sound_reject (hsound : Sound exchange) {channel : ResponseChannel}
    (hnew : channel ∉ exchange.requested) (task : ProjectTask) :
    Sound (exchange.reject channel task) := by
  have hunanswered : channel ∉ exchange.answered.map Prod.fst := by
    intro hmem
    obtain ⟨answer, hanswer, rfl⟩ := List.mem_map.mp hmem
    exact hnew (hsound.answered answer hanswer).2.1
  rw [Exchange.reject]
  constructor
  · simp only [sendResponse_jobs, sendResponse_pending, sendResponse_requested,
      sendResponse_produced]
    intro other job hjob
    obtain ⟨hpending, hrequested, hstage⟩ := hsound.jobs other job hjob
    exact ⟨hpending, List.mem_cons_of_mem _ hrequested,
      fun result hresult ↦ List.mem_cons_of_mem _ (hstage result hresult)⟩
  · simp only [sendResponse_outcomes, sendResponse_jobs, sendResponse_pending,
      sendResponse_requested, sendResponse_produced]
    intro outcome houtcome
    obtain ⟨hpending, hrequested, hidle, hproduced⟩ := hsound.outcomes outcome houtcome
    exact ⟨hpending, List.mem_cons_of_mem _ hrequested, hidle, List.mem_cons_of_mem _ hproduced⟩
  · rw [sendResponse_outcomes]
    exact hsound.distinct
  · exact nodup_answered_sendResponse _ _ hunanswered hsound.once
  · simp only [sendResponse_outcomes, sendResponse_jobs, sendResponse_requested,
      sendResponse_produced, mem_answered_sendResponse]
    intro answer hanswer
    rcases hanswer with hearlier | ⟨-, rfl⟩
    · obtain ⟨hproduced, hrequested, hidle, hunlisted⟩ := hsound.answered answer hearlier
      exact ⟨List.mem_cons_of_mem _ hproduced, List.mem_cons_of_mem _ hrequested, hidle, hunlisted⟩
    · refine ⟨List.mem_cons_self, List.mem_cons_self, ?_, fun hmem ↦ ?_⟩
      · cases hjob : exchange.jobs channel with
        | none => rfl
        | some job => exact absurd (hsound.jobs channel job hjob).2.1 hnew
      · obtain ⟨outcome, houtcome, rfl⟩ := List.mem_map.mp hmem
        exact hnew (hsound.outcomes outcome houtcome).2.1
  · simp only [sendResponse_pending, sendResponse_requested]
    exact fun taskId other hlookup ↦ List.mem_cons_of_mem _ (hsound.pending taskId other hlookup)
  · simp only [sendResponse_requested, sendResponse_jobs, sendResponse_outcomes]
    intro other hother
    rcases List.mem_cons.mp hother with rfl | hearlier
    · exact Or.inr (Or.inr (settled_sendResponse_self _ ⟨other, _, _⟩))
    · exact (hsound.underway other hearlier).imp_right
        (Or.imp_right (settled_sendResponse_of_settled _ _))
  · rw [sendResponse_dropped]
    exact hsound.dropped
  · rw [sendResponse_closed]
    exact discarded_sendResponse _ ⟨channel, _, _⟩ hsound.discarded

section Requests

variable {channel : ResponseChannel} {peer : PeerId} {task : ProjectTask}

/-- What arrived on the other channels stays there. -/
theorem arrivedAfter_of_isSome (hserving : Serving answersTo arrived exchange)
    (hnew : channel ∉ exchange.requested) {other : ResponseChannel} {found : ProjectTask}
    (hfound : arrived other = some found) :
    arrivedAfter arrived (.request channel peer task) other = some found := by
  have hother : other ≠ channel := by
    rintro rfl
    exact hnew ((hserving.requested other).mpr (by rw [hfound]; rfl))
  rw [arrivedAfter, Function.update_of_ne hother, hfound]

theorem requested_cons_iff (hserving : Serving answersTo arrived exchange)
    (other : ResponseChannel) :
    other ∈ channel :: exchange.requested ↔
      (arrivedAfter arrived (.request channel peer task) other).isSome := by
  by_cases hother : other = channel
  · rw [hother, arrivedAfter, Function.update_self]
    exact iff_of_true List.mem_cons_self rfl
  · rw [arrivedAfter, Function.update_of_ne hother, ← hserving.requested, List.mem_cons,
      or_iff_right hother]

theorem notMem_produced (hserving : Serving answersTo arrived exchange)
    (hnew : channel ∉ exchange.requested) : channel ∉ exchange.produced.map Prod.fst := by
  intro hmem
  obtain ⟨⟨other, result⟩, hproduced, rfl⟩ := List.mem_map.mp hmem
  obtain ⟨found, hfound, -⟩ := hserving.produced other result hproduced
  exact hnew ((hserving.requested other).mpr (by rw [hfound]; rfl))

theorem Serving.accept (hserving : Serving answersTo arrived exchange)
    (hnew : channel ∉ exchange.requested)
    (hfresh : ∀ other found, arrived other = some found → found.taskId ≠ task.taskId) :
    Serving answersTo (arrivedAfter arrived (.request channel peer task))
      (exchange.accept channel peer task) where
  sound := by
    refine hserving.sound.accept hnew fun hmem ↦ ?_
    obtain ⟨other, hlookup⟩ := Option.isSome_iff_exists.mp (Finmap.lookup_isSome.mpr hmem)
    obtain ⟨found, hfound, hsame⟩ := hserving.pending _ other hlookup
    exact hfresh other found hfound hsame
  requested := requested_cons_iff hserving
  jobs other job hjob := by
    rcases Execution.eq_or_of_update_eq_some hjob with ⟨rfl, rfl⟩ | hearlier
    · exact Function.update_self ..
    · exact arrivedAfter_of_isSome hserving hnew (hserving.jobs other job hearlier)
  pending taskId other hlookup := by
    rcases eq_or_of_lookup_insert_eq_some hlookup with ⟨rfl, rfl⟩ | hearlier
    · exact ⟨task, Function.update_self .., rfl⟩
    · obtain ⟨found, hfound, hsame⟩ := hserving.pending taskId other hearlier
      exact ⟨found, arrivedAfter_of_isSome hserving hnew hfound, hsame⟩
  produced other result hmem := by
    obtain ⟨found, hfound, hsame⟩ := hserving.produced other result hmem
    exact ⟨found, arrivedAfter_of_isSome hserving hnew hfound, hsame⟩
  running other jobPeer jobTask hjob := by
    have hnone := notMem_produced hserving hnew
    rcases Execution.eq_or_of_update_eq_some hjob with ⟨rfl, -⟩ | hearlier
    · exact hnone
    · exact hserving.running other jobPeer jobTask hearlier
  once := hserving.once

theorem Serving.reject (hserving : Serving answersTo arrived exchange)
    (hnew : channel ∉ exchange.requested)
    (hrefusal : answersTo task (projectFailure task 101 noExecutorMessage)) :
    Serving answersTo (arrivedAfter arrived (.request channel peer task))
      (exchange.reject channel task) := by
  have hsound := sound_reject hserving.sound hnew task
  rw [Exchange.reject] at hsound ⊢
  refine ⟨hsound, ?_, ?_, ?_, ?_, ?_, ?_⟩ <;> simp only [sendResponse_jobs, sendResponse_pending,
    sendResponse_requested, sendResponse_produced]
  · exact requested_cons_iff hserving
  · exact fun other job hjob ↦ arrivedAfter_of_isSome hserving hnew (hserving.jobs other job hjob)
  · intro taskId other hlookup
    obtain ⟨found, hfound, hsame⟩ := hserving.pending taskId other hlookup
    exact ⟨found, arrivedAfter_of_isSome hserving hnew hfound, hsame⟩
  · intro other result hmem
    rcases List.mem_cons.mp hmem with hself | hearlier
    · obtain ⟨rfl, rfl⟩ := Prod.mk.inj hself
      exact ⟨task, Function.update_self .., hrefusal⟩
    · obtain ⟨found, hfound, hsame⟩ := hserving.produced other result hearlier
      exact ⟨found, arrivedAfter_of_isSome hserving hnew hfound, hsame⟩
  · intro other jobPeer jobTask hjob
    refine List.not_mem_cons_of_ne_of_not_mem ?_ (hserving.running other jobPeer jobTask hjob)
    rintro rfl
    exact hnew (hserving.sound.jobs other _ hjob).2.1
  · exact List.nodup_cons.mpr ⟨notMem_produced hserving hnew, hserving.once⟩

end Requests

/-- A job that is done produces the result of its channel. -/
theorem Serving.finish (hserving : Serving answersTo arrived exchange) {channel : ResponseChannel}
    {outcome : Except String ProjectResult} {peer : PeerId} {task : ProjectTask}
    (hjob : exchange.jobs channel = some ⟨peer, task, .running⟩)
    (hanswers : answersTo task (jobResult task outcome)) :
    Serving answersTo arrived { exchange with
      jobs := Function.update exchange.jobs channel
        (some ⟨peer, task, .forwarding (jobResult task outcome)⟩)
      produced := (channel, jobResult task outcome) :: exchange.produced } := by
  have htask := hserving.jobs channel _ hjob
  have hfresh : TaskIdNotPending exchange (.finish channel outcome) := trivial
  have hsound := hserving.sound.step hfresh (step_eq_some_iff.mpr (.finish hjob))
  refine ⟨hsound, hserving.requested, fun other job hother ↦ ?_, hserving.pending,
    fun other result hmem ↦ ?_, fun other jobPeer jobTask hother ↦ ?_, ?_⟩
  · rcases Execution.eq_or_of_update_eq_some hother with ⟨hself, hspawned⟩ | hearlier
    · rw [hself, hspawned, htask]
    · exact hserving.jobs other job hearlier
  · rcases List.mem_cons.mp hmem with hself | hearlier
    · obtain ⟨rfl, rfl⟩ := Prod.mk.inj hself
      exact ⟨task, htask, hanswers⟩
    · exact hserving.produced other result hearlier
  · by_cases hself : other = channel
    · rw [hself] at hother
      cases (Function.update_self ..).symm.trans hother
    · have hearlier := (Function.update_of_ne hself ..).symm.trans hother
      exact List.not_mem_cons_of_ne_of_not_mem hself
        (hserving.running other jobPeer jobTask hearlier)
  · exact List.nodup_cons.mpr ⟨hserving.running channel peer task hjob, hserving.once⟩

/-- A step that starts no job and produces nothing keeps the account. -/
theorem Serving.of_same_produced (hserving : Serving answersTo arrived exchange)
    (hsound : Sound next) (hrequested : next.requested = exchange.requested)
    (hproduced : next.produced = exchange.produced)
    (hjobs : ∀ channel job, next.jobs channel = some job → ∃ earlier,
      exchange.jobs channel = some earlier ∧ earlier.task = job.task ∧
        (job.stage = .running → earlier = job))
    (hpending : ∀ taskId channel, next.pending.lookup taskId = some channel →
      exchange.pending.lookup taskId = some channel) : Serving answersTo arrived next := by
  refine ⟨hsound, ?_, fun channel job hjob ↦ ?_, fun taskId channel hlookup ↦ ?_, ?_,
    fun channel peer task hjob ↦ ?_, ?_⟩
  · rw [hrequested]
    exact hserving.requested
  · obtain ⟨earlier, hearlier, hsame, -⟩ := hjobs channel job hjob
    rw [hserving.jobs channel earlier hearlier, hsame]
  · exact hserving.pending taskId channel (hpending taskId channel hlookup)
  · rw [hproduced]
    exact hserving.produced
  · obtain ⟨earlier, hearlier, -, hrunning⟩ := hjobs channel _ hjob
    rw [hrunning rfl] at hearlier
    rw [hproduced]
    exact hserving.running channel peer task hearlier
  · rw [hproduced]
    exact hserving.once

theorem Serving.step (hserving : Serving answersTo arrived exchange)
    (hadmissible : Admissible answersTo hasExecutor arrived exchange action)
    (hstep : exchange.step hasExecutor action = some next) :
    Serving answersTo (arrivedAfter arrived action) next := by
  rcases step_cases hstep with hmove | ⟨channel, peer, task, hexecutor, rfl, hnew, rfl⟩
  · cases hmove with
    | accept hnew => exact hserving.accept hnew hadmissible.1
    | finish hjob => exact hserving.finish hjob (hadmissible _ hjob)
    | @forward channel peer task result hjob =>
      have hfresh : TaskIdNotPending exchange (.forward channel) := trivial
      have hsound := hserving.sound.step hfresh (step_eq_some_iff.mpr (.forward hjob))
      refine hserving.of_same_produced hsound rfl rfl (fun other job hother ↦ ?_)
        fun taskId other hlookup ↦ hlookup
      rcases Execution.eq_or_of_update_eq_some hother with ⟨hself, hmoved⟩ | hearlier
      · rw [hself, hmoved]
        exact ⟨_, hjob, rfl, nofun⟩
      · exact ⟨job, hearlier, rfl, fun _ ↦ rfl⟩
    | @send channel peer task result hjob hroom =>
      have hfresh : TaskIdNotPending exchange (.send channel) := trivial
      have hsound := hserving.sound.step hfresh (step_eq_some_iff.mpr (.send hjob hroom))
      exact hserving.of_same_produced hsound rfl rfl
        (fun other job hother ↦
          ⟨job, Execution.of_update_none_eq_some hother, rfl, fun _ ↦ rfl⟩)
        fun taskId other hlookup ↦ hlookup
    | @deliver outcome rest houtcomes =>
      have hsound : Sound _ := hserving.sound.deliver houtcomes
      have hpending := (hserving.sound.outcomes outcome (by simp [houtcomes])).1
      have hcomplete : exchange.complete outcome rest = { exchange with
          pending := exchange.pending.erase outcome.taskId
          outcomes := rest }.sendResponse outcome.channel outcome := by
        rw [complete, hpending]
      rw [hcomplete] at hsound ⊢
      refine hserving.of_same_produced hsound (sendResponse_requested ..) (sendResponse_produced ..)
        (fun other job hother ↦ ?_) fun taskId other hlookup ↦ ?_
      · rw [sendResponse_jobs] at hother
        exact ⟨job, hother, rfl, fun _ ↦ rfl⟩
      · rw [sendResponse_pending] at hlookup
        by_cases hsame : taskId = outcome.taskId
        · rw [hsame] at hlookup
          cases (Finmap.lookup_erase ..).symm.trans hlookup
        · exact (Finmap.lookup_erase_ne hsame).symm.trans hlookup
    | close hopen =>
      exact hserving.of_same_produced (hserving.sound.close _) rfl rfl
        (fun other job hother ↦ ⟨job, hother, rfl, fun _ ↦ rfl⟩) fun taskId other hlookup ↦ hlookup
  · exact hserving.reject hnew (hadmissible.2 hexecutor)

/-- What was produced stays produced. -/
theorem produced_subset (hstep : exchange.step hasExecutor action = some next) :
    exchange.produced ⊆ next.produced := by
  rcases step_cases hstep with hmove | ⟨channel, peer, task, hexecutor, rfl, hnew, rfl⟩
  · cases hmove with
    | finish hjob => exact List.subset_cons_self ..
    | deliver houtcomes =>
      unfold complete
      split <;> simp
    | _ => exact List.Subset.refl _
  · rw [Exchange.reject, sendResponse_produced]
    exact List.subset_cons_self ..

end EdgeOrchestrator.P2P.ServedRequests

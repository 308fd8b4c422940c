import EdgeOrchestrator.Foundation.Execution
import EdgeOrchestrator.P2P.ProjectExchange
import Mathlib.Algebra.BigOperators.Group.Finset.Basic

/-!
# One right answer per project request

The response channels are found again by the task id, which the remote peer chooses. A second
request with a task id that is still pending takes the place of the first, whose channel is dropped.
A result for a channel that is closed by then is thrown away. Every request is answered exactly once
with its own result along exactly the runs in which no request carries a task id that is pending and
no channel is closed before its request is answered.
-/

namespace EdgeOrchestrator.P2P.ExactlyOnce

open Execution Exchange

/-- The number of steps a job has left, the delivery of its outcome included. -/
def jobWork : Option Job → ℕ
  | none => 0
  | some ⟨_, _, .running⟩ => 4
  | some ⟨_, _, .forwarding _⟩ => 3
  | some ⟨_, _, .sending _⟩ => 2

/-- The number of steps until every job is done and every outcome delivered. -/
def work (exchange : Exchange) : ℕ :=
  ∑ channel ∈ exchange.requested.toFinset, jobWork (exchange.jobs channel) +
    exchange.outcomes.length

/-- When nothing more comes from outside, only finitely many steps follow, whatever their order, and
after the last one there is an answer on each of the channels. -/
def Finishes (exchange : Exchange) (channels : List ResponseChannel) : Prop :=
  ∀ actions final, (∀ action ∈ actions, action.isInternal = true) →
    run (step true) exchange actions = some final →
    actions.length ≤ work exchange ∧
      ((∀ action, action.isInternal = true → final.step true action = none) →
        ∀ channel ∈ channels, ∃ result, (channel, result) ∈ final.answered)

/-- Every request is answered at most once, with the result of its own run, nothing gets lost, and
every request is answered in the end. -/
structure AnswersExactlyOnce (exchange : Exchange) : Prop where
  once : (exchange.answered.map Prod.fst).Nodup
  own : ∀ answer ∈ exchange.answered, answer ∈ exchange.produced
  dropped : exchange.dropped = []
  discarded : exchange.discarded = []
  finishes : Finishes exchange exchange.requested

/-- Every request is answered at most once, with the result of its own run, only results for closed
channels get lost, and every request whose channel stays open is answered in the end. -/
structure AnswersOpenChannels (exchange : Exchange) : Prop where
  once : (exchange.answered.map Prod.fst).Nodup
  own : ∀ answer ∈ exchange.answered, answer ∈ exchange.produced
  dropped : exchange.dropped = []
  discarded : ∀ outcome ∈ exchange.discarded, outcome.channel ∈ exchange.closed
  finishes : Finishes exchange (exchange.requested.filter (· ∉ exchange.closed))

/-- A request does not carry the task id of a pending one. -/
def TaskIdNotPending (exchange : Exchange) : ExchangeAction → Prop
  | .request _ _ task => task.taskId ∉ exchange.pending
  | _ => True

/-- A request comes on an open channel, which is not closed before the request is answered. -/
def KeepsOpen (exchange : Exchange) : ExchangeAction → Prop
  | .request channel _ _ => channel ∉ exchange.closed
  | .close channel => channel ∈ exchange.requested → channel ∈ exchange.answered.map Prod.fst
  | _ => True

/-- A request can be answered on its own channel, which stays open for that. -/
def Undisturbed (exchange : Exchange) (action : ExchangeAction) : Prop :=
  TaskIdNotPending exchange action ∧ KeepsOpen exchange action

/-- The results a job has produced so far. -/
def stageResult : JobStage → Option ProjectResult
  | .running => none
  | .forwarding result => some result
  | .sending result => some result

/-- Every job and every outcome finds its own channel under its task id. -/
structure Sound (exchange : Exchange) : Prop where
  jobs : ∀ channel job, exchange.jobs channel = some job →
    exchange.pending.lookup job.task.taskId = some channel ∧ channel ∈ exchange.requested ∧
      ∀ result ∈ stageResult job.stage, (channel, result) ∈ exchange.produced
  outcomes : ∀ outcome ∈ exchange.outcomes,
    exchange.pending.lookup outcome.taskId = some outcome.channel ∧
      outcome.channel ∈ exchange.requested ∧ exchange.jobs outcome.channel = none ∧
      (outcome.channel, outcome.result) ∈ exchange.produced
  distinct : (exchange.outcomes.map ProjectOutcome.channel).Nodup
  once : (exchange.answered.map Prod.fst).Nodup
  answered : ∀ answer ∈ exchange.answered, answer ∈ exchange.produced ∧
    answer.1 ∈ exchange.requested ∧ exchange.jobs answer.1 = none ∧
      answer.1 ∉ exchange.outcomes.map ProjectOutcome.channel
  pending : ∀ taskId channel, exchange.pending.lookup taskId = some channel →
    channel ∈ exchange.requested
  underway : ∀ channel ∈ exchange.requested, (exchange.jobs channel).isSome ∨
    channel ∈ exchange.outcomes.map ProjectOutcome.channel ∨
    channel ∈ exchange.answered.map Prod.fst ∨
    channel ∈ exchange.discarded.map ProjectOutcome.channel
  dropped : exchange.dropped = []
  discarded : ∀ outcome ∈ exchange.discarded, outcome.channel ∈ exchange.closed

theorem sound_start : Sound {} := by
  constructor <;> simp

theorem Sound.accept {exchange : Exchange} (hsound : Sound exchange) {channel : ResponseChannel}
    {peer : PeerId} {task : ProjectTask} (hnew : channel ∉ exchange.requested)
    (hfresh : task.taskId ∉ exchange.pending) : Sound (exchange.accept channel peer task) := by
  have hnone : exchange.pending.lookup task.taskId = none := Finmap.lookup_eq_none.mpr hfresh
  have hpending : ∀ taskId other, exchange.pending.lookup taskId = some other →
      (exchange.pending.insert task.taskId channel).lookup taskId = some other := by
    intro taskId other hlookup
    rw [Finmap.lookup_insert_of_ne _ (by rintro rfl; cases hnone.symm.trans hlookup), hlookup]
  have hjobs : ∀ other ∈ exchange.requested, (exchange.accept channel peer task).jobs other =
      exchange.jobs other := by
    intro other hother
    exact Function.update_of_ne (by rintro rfl; exact hnew hother) ..
  have hself : (exchange.accept channel peer task).jobs channel =
      some { peer := peer, task := task } := Function.update_self ..
  constructor
  · intro other job hjob
    rcases eq_or_of_update_eq_some hjob with ⟨hother, hspawned⟩ | hkept
    · rw [hother, hspawned]
      exact ⟨Finmap.lookup_insert _, List.mem_cons_self, fun result hresult ↦ by cases hresult⟩
    · have hold := hsound.jobs other job hkept
      exact ⟨hpending _ _ hold.1, List.mem_cons_of_mem _ hold.2.1, hold.2.2⟩
  · intro outcome houtcome
    have hold := hsound.outcomes outcome houtcome
    exact ⟨hpending _ _ hold.1, List.mem_cons_of_mem _ hold.2.1,
      (hjobs _ hold.2.1).trans hold.2.2.1, hold.2.2.2⟩
  · exact hsound.distinct
  · exact hsound.once
  · intro answer hanswer
    have hold := hsound.answered answer hanswer
    exact ⟨hold.1, List.mem_cons_of_mem _ hold.2.1, (hjobs _ hold.2.1).trans hold.2.2.1,
      hold.2.2.2⟩
  · intro taskId other hlookup
    rcases eq_or_of_lookup_insert_eq_some hlookup with ⟨-, hnew⟩ | hold
    · rw [hnew]
      exact List.mem_cons_self
    · exact List.mem_cons_of_mem _ (hsound.pending taskId other hold)
  · intro other hother
    by_cases hsame : other = channel
    · rw [hsame]
      exact Or.inl (by rw [hself]; rfl)
    · have hearlier : other ∈ exchange.requested := List.mem_of_ne_of_mem hsame hother
      rw [hjobs other hearlier]
      exact hsound.underway other hearlier
  · rw [Exchange.accept, hnone]
    exact hsound.dropped
  · exact hsound.discarded

/-- A job goes on to its next stage, with its result among those produced. -/
theorem Sound.setStage {exchange : Exchange} (hsound : Sound exchange) {channel : ResponseChannel}
    {job : Job} (hjob : exchange.jobs channel = some job) (stage : JobStage)
    (produced : List (ResponseChannel × ProjectResult))
    (hgrows : ∀ answer ∈ exchange.produced, answer ∈ produced)
    (hresult : ∀ result ∈ stageResult stage, (channel, result) ∈ produced) :
    Sound { exchange with
      jobs := Function.update exchange.jobs channel (some { job with stage := stage })
      produced := produced } := by
  have hidle : ∀ other, exchange.jobs other = none →
      Function.update exchange.jobs channel (some { job with stage := stage }) other = none := by
    intro other hnone
    rw [Function.update_of_ne (by rintro rfl; cases hjob.symm.trans hnone), hnone]
  have hself : Function.update exchange.jobs channel (some { job with stage := stage }) channel =
      some { job with stage := stage } := Function.update_self ..
  constructor
  · intro other found hfound
    rcases eq_or_of_update_eq_some hfound with ⟨hother, hmoved⟩ | hkept
    · rw [hother, hmoved]
      have hold := hsound.jobs channel job hjob
      exact ⟨hold.1, hold.2.1, hresult⟩
    · have hold := hsound.jobs other found hkept
      exact ⟨hold.1, hold.2.1, fun result hmem ↦ hgrows _ (hold.2.2 result hmem)⟩
  · intro outcome houtcome
    have hold := hsound.outcomes outcome houtcome
    exact ⟨hold.1, hold.2.1, hidle _ hold.2.2.1, hgrows _ hold.2.2.2⟩
  · exact hsound.distinct
  · exact hsound.once
  · intro answer hanswer
    have hold := hsound.answered answer hanswer
    exact ⟨hgrows _ hold.1, hold.2.1, hidle _ hold.2.2.1, hold.2.2.2⟩
  · exact hsound.pending
  · intro other hother
    by_cases hsame : other = channel
    · rw [hsame]
      exact Or.inl (Option.isSome_iff_exists.mpr ⟨_, hself⟩)
    · dsimp only
      rw [Function.update_of_ne hsame]
      exact hsound.underway other hother
  · exact hsound.dropped
  · exact hsound.discarded

/-- A job hands its outcome to the loop. -/
theorem Sound.send {exchange : Exchange} (hsound : Sound exchange) {channel : ResponseChannel}
    {peer : PeerId} {task : ProjectTask} {result : ProjectResult}
    (hjob : exchange.jobs channel = some ⟨peer, task, .sending result⟩) :
    Sound { exchange with
      jobs := Function.update exchange.jobs channel none
      outcomes := exchange.outcomes ++ [⟨channel, task.taskId, result⟩] } := by
  have hold := hsound.jobs channel _ hjob
  have hidle : ∀ other, exchange.jobs other = none →
      Function.update exchange.jobs channel none other = none := by
    intro other hnone
    by_cases hother : other = channel
    · rw [hother, Function.update_self]
    · rw [Function.update_of_ne hother, hnone]
  have hunlisted : channel ∉ exchange.outcomes.map ProjectOutcome.channel := by
    intro hmem
    rcases List.mem_map.mp hmem with ⟨outcome, houtcome, hsame⟩
    have hnone := (hsound.outcomes outcome houtcome).2.2.1
    rw [hsame] at hnone
    cases hjob.symm.trans hnone
  constructor
  · intro other found hfound
    exact hsound.jobs other found (of_update_none_eq_some hfound)
  · intro outcome houtcome
    rcases List.mem_append.mp houtcome with houtcome | houtcome
    · have hearlier := hsound.outcomes outcome houtcome
      exact ⟨hearlier.1, hearlier.2.1, hidle _ hearlier.2.2.1, hearlier.2.2.2⟩
    · rw [List.mem_singleton.mp houtcome]
      exact ⟨hold.1, hold.2.1, Function.update_self .., hold.2.2 result rfl⟩
  · rw [List.map_append, List.map_singleton]
    exact hsound.distinct.append (List.nodup_singleton _)
      (List.disjoint_singleton.mpr hunlisted)
  · exact hsound.once
  · intro answer hanswer
    have hearlier := hsound.answered answer hanswer
    refine ⟨hearlier.1, hearlier.2.1, hidle _ hearlier.2.2.1, ?_⟩
    rw [List.map_append, List.map_singleton, List.mem_append, List.mem_singleton, not_or]
    refine ⟨hearlier.2.2.2, fun hsame ↦ ?_⟩
    have hnone := hearlier.2.2.1
    rw [hsame] at hnone
    cases hjob.symm.trans hnone
  · exact hsound.pending
  · intro other hother
    rw [List.map_append, List.mem_append]
    by_cases hsame : other = channel
    · exact Or.inr (Or.inl (Or.inr (List.mem_singleton.mpr hsame)))
    · dsimp only
      rw [Function.update_of_ne hsame]
      rcases hsound.underway other hother with hsome | houtcome | hsettled
      · exact Or.inl hsome
      · exact Or.inr (Or.inl (Or.inl houtcome))
      · exact Or.inr (Or.inr hsettled)
  · exact hsound.dropped
  · exact hsound.discarded

section SendResponse

variable (exchange : Exchange) (outcome : ProjectOutcome)

theorem nodup_answered_sendResponse {channel : ResponseChannel}
    (hunanswered : channel ∉ exchange.answered.map Prod.fst)
    (honce : (exchange.answered.map Prod.fst).Nodup) :
    ((exchange.sendResponse channel outcome).answered.map Prod.fst).Nodup := by
  unfold sendResponse
  split_ifs
  · exact honce
  · exact List.nodup_cons.mpr ⟨hunanswered, honce⟩

/-- A channel on which a result is sent has an answer, or its result is thrown away. -/
theorem settled_sendResponse_self :
    outcome.channel ∈ (exchange.sendResponse outcome.channel outcome).answered.map Prod.fst ∨
      outcome.channel ∈ (exchange.sendResponse outcome.channel outcome).discarded.map
        ProjectOutcome.channel := by
  unfold sendResponse
  split_ifs
  · exact Or.inr List.mem_cons_self
  · exact Or.inl List.mem_cons_self

theorem settled_sendResponse_of_settled {channel other : ResponseChannel}
    (hsettled : other ∈ exchange.answered.map Prod.fst ∨
      other ∈ exchange.discarded.map ProjectOutcome.channel) :
    other ∈ (exchange.sendResponse channel outcome).answered.map Prod.fst ∨
      other ∈ (exchange.sendResponse channel outcome).discarded.map ProjectOutcome.channel := by
  unfold sendResponse
  split_ifs
  · exact hsettled.imp_right (List.mem_cons_of_mem _)
  · exact hsettled.imp_left (List.mem_cons_of_mem _)

theorem discarded_sendResponse
    (hdiscarded : ∀ other ∈ exchange.discarded, other.channel ∈ exchange.closed) :
    ∀ other ∈ (exchange.sendResponse outcome.channel outcome).discarded,
      other.channel ∈ exchange.closed := by
  intro other hmem
  rcases (mem_discarded_sendResponse ..).mp hmem with hearlier | ⟨hclosed, rfl⟩
  · exact hdiscarded other hearlier
  · exact hclosed

end SendResponse

/-- The loop answers the request that an outcome belongs to. -/
theorem Sound.deliver {exchange : Exchange} (hsound : Sound exchange) {outcome : ProjectOutcome}
    {rest : List ProjectOutcome} (houtcomes : exchange.outcomes = outcome :: rest) :
    Sound (exchange.complete outcome rest) := by
  have hrest : ∀ other ∈ rest, other ∈ exchange.outcomes := by
    rw [houtcomes]
    exact fun other hother ↦ List.mem_cons_of_mem outcome hother
  have hfirst := hsound.outcomes outcome (by rw [houtcomes]; exact List.mem_cons_self)
  have hdistinct := hsound.distinct
  rw [houtcomes, List.map_cons, List.nodup_cons] at hdistinct
  have hunanswered : outcome.channel ∉ exchange.answered.map Prod.fst := by
    intro hmem
    obtain ⟨answer, hanswer, hsame⟩ := List.mem_map.mp hmem
    apply (hsound.answered answer hanswer).2.2.2
    rw [hsame, houtcomes, List.map_cons]
    exact List.mem_cons_self
  have hpending : ∀ taskId channel, channel ≠ outcome.channel →
      exchange.pending.lookup taskId = some channel →
      (exchange.pending.erase outcome.taskId).lookup taskId = some channel := by
    intro taskId channel hother hlookup
    have htask : taskId ≠ outcome.taskId := by
      rintro rfl
      exact hother (Option.some.inj (hlookup.symm.trans hfirst.1))
    rw [Finmap.lookup_erase_ne htask, hlookup]
  have hnext : exchange.complete outcome rest = { exchange with
      pending := exchange.pending.erase outcome.taskId
      outcomes := rest }.sendResponse outcome.channel outcome := by
    rw [complete, hfirst.1]
  rw [hnext]
  constructor
  · simp only [sendResponse_jobs, sendResponse_pending, sendResponse_requested,
      sendResponse_produced]
    intro channel job hjob
    have hold := hsound.jobs channel job hjob
    refine ⟨hpending _ _ ?_ hold.1, hold.2⟩
    rintro rfl
    cases hjob.symm.trans hfirst.2.2.1
  · simp only [sendResponse_outcomes, sendResponse_jobs, sendResponse_pending,
      sendResponse_requested, sendResponse_produced]
    intro other hother
    have hold := hsound.outcomes other (hrest other hother)
    refine ⟨hpending _ _ ?_ hold.1, hold.2⟩
    intro hsame
    exact hdistinct.1 (List.mem_map.mpr ⟨other, hother, hsame⟩)
  · rw [sendResponse_outcomes]
    exact hdistinct.2
  · exact nodup_answered_sendResponse _ outcome hunanswered hsound.once
  · simp only [sendResponse_outcomes, sendResponse_jobs, sendResponse_requested,
      sendResponse_produced, mem_answered_sendResponse]
    intro answer hanswer
    rcases hanswer with hanswer | ⟨-, rfl⟩
    · have hold := hsound.answered answer hanswer
      refine ⟨hold.1, hold.2.1, hold.2.2.1, fun hmem ↦ hold.2.2.2 ?_⟩
      rw [houtcomes, List.map_cons]
      exact List.mem_cons_of_mem _ hmem
    · exact ⟨hfirst.2.2.2, hfirst.2.1, hfirst.2.2.1, hdistinct.1⟩
  · simp only [sendResponse_pending, sendResponse_requested]
    intro taskId channel hlookup
    by_cases hsame : taskId = outcome.taskId
    · rw [hsame, Finmap.lookup_erase] at hlookup
      cases hlookup
    · rw [Finmap.lookup_erase_ne hsame] at hlookup
      exact hsound.pending taskId channel hlookup
  · simp only [sendResponse_requested, sendResponse_jobs, sendResponse_outcomes]
    intro channel hchannel
    rcases hsound.underway channel hchannel with hsome | houtcome | hsettled
    · exact Or.inl hsome
    · rw [houtcomes, List.map_cons] at houtcome
      rcases List.mem_cons.mp houtcome with rfl | hlater
      · exact Or.inr (Or.inr (settled_sendResponse_self _ outcome))
      · exact Or.inr (Or.inl hlater)
    · exact Or.inr (Or.inr (settled_sendResponse_of_settled _ outcome hsettled))
  · rw [sendResponse_dropped]
    exact hsound.dropped
  · rw [sendResponse_closed]
    exact discarded_sendResponse _ outcome hsound.discarded

/-- Closing a channel leaves everything where it is. -/
theorem Sound.close {exchange : Exchange} (hsound : Sound exchange) (channel : ResponseChannel) :
    Sound { exchange with closed := channel :: exchange.closed } where
  jobs := hsound.jobs
  outcomes := hsound.outcomes
  distinct := hsound.distinct
  once := hsound.once
  answered := hsound.answered
  pending := hsound.pending
  underway := hsound.underway
  dropped := hsound.dropped
  discarded outcome hdiscarded := List.mem_cons_of_mem _ (hsound.discarded outcome hdiscarded)

theorem Sound.step {exchange next : Exchange} (hsound : Sound exchange) {action : ExchangeAction}
    (hfresh : TaskIdNotPending exchange action)
    (hstep : exchange.step true action = some next) : Sound next := by
  cases step_eq_some_iff.mp hstep with
  | accept hnew => exact hsound.accept hnew hfresh
  | finish hjob =>
    apply hsound.setStage hjob
    · exact fun answer hanswer ↦ List.mem_cons_of_mem _ hanswer
    · intro result hresult
      rw [← Option.some.inj hresult]
      exact List.mem_cons_self
  | forward hjob =>
    apply hsound.setStage hjob
    · exact fun answer hanswer ↦ hanswer
    · exact (hsound.jobs _ _ hjob).2.2
  | send hjob hroom => exact hsound.send hjob
  | deliver houtcomes => exact hsound.deliver houtcomes
  | close hopen => exact hsound.close _

theorem undisturbed_of_internal {exchange : Exchange} {action : ExchangeAction}
    (haction : action.isInternal = true) : Undisturbed exchange action := by
  cases action with
  | request channel peer task => cases haction
  | close channel => cases haction
  | _ => exact ⟨trivial, trivial⟩

/-- The loop and the jobs add nothing to the requests and close no channel. -/
theorem outside_of_internal {exchange next : Exchange} {action : ExchangeAction}
    (haction : action.isInternal = true) (hstep : exchange.step true action = some next) :
    next.requested = exchange.requested ∧ next.closed = exchange.closed := by
  cases step_eq_some_iff.mp hstep with
  | accept hnew => cases haction
  | finish hjob => exact ⟨rfl, rfl⟩
  | forward hjob => exact ⟨rfl, rfl⟩
  | send hjob hroom => exact ⟨rfl, rfl⟩
  | deliver houtcomes =>
    unfold complete
    split <;> simp
  | close hopen => cases haction

/-- On a closed channel no answer is sent any more. -/
theorem answered_of_closed {exchange next : Exchange} {action : ExchangeAction}
    (haction : action.isInternal = true) (hstep : exchange.step true action = some next)
    {answer : ResponseChannel × ProjectResult} (hclosed : answer.1 ∈ exchange.closed)
    (hanswer : answer ∈ next.answered) : answer ∈ exchange.answered := by
  cases step_eq_some_iff.mp hstep with
  | accept hnew => exact hanswer
  | finish hjob => exact hanswer
  | forward hjob => exact hanswer
  | send hjob hroom => exact hanswer
  | deliver houtcomes =>
    unfold complete at hanswer
    split at hanswer
    · rcases (mem_answered_sendResponse ..).mp hanswer with hearlier | ⟨hopen, rfl⟩
      · exact hearlier
      · exact absurd hclosed hopen
    · exact hanswer
  | close hopen => exact hanswer

theorem answered_of_run {exchange final : Exchange} {actions : List ExchangeAction}
    (hactions : ∀ action ∈ actions, action.isInternal = true)
    (hrun : run (Exchange.step true) exchange actions = some final)
    {answer : ResponseChannel × ProjectResult} (hclosed : answer.1 ∈ exchange.closed)
    (hanswer : answer ∈ final.answered) : answer ∈ exchange.answered := by
  induction actions generalizing exchange with
  | nil =>
    rw [← Option.some.inj hrun] at hanswer
    exact hanswer
  | cons action rest ih =>
    obtain ⟨next, hstep, hrest⟩ := (run_cons_eq_some _).mp hrun
    rw [List.forall_mem_cons] at hactions
    have hstays : answer.1 ∈ next.closed := by
      rw [(outside_of_internal hactions.1 hstep).2]
      exact hclosed
    exact answered_of_closed hactions.1 hstep hclosed (ih hactions.2 hrest hstays)

/-- Where everything finishes, a request whose channel is closed by now has been answered. -/
theorem Finishes.mem_answered {exchange : Exchange} {channels : List ResponseChannel}
    (hfinishes : Finishes exchange channels) {channel : ResponseChannel}
    (hmem : channel ∈ channels) (hclosed : channel ∈ exchange.closed) :
    channel ∈ exchange.answered.map Prod.fst := by
  obtain ⟨actions, final, hactions, hrun, hrest⟩ :=
    exists_run_to_rest fun labels final hlabels hrun ↦ (hfinishes labels final hlabels hrun).1
  obtain ⟨result, hanswered⟩ := (hfinishes actions final hactions hrun).2 hrest channel hmem
  exact List.mem_map.mpr ⟨(channel, result), answered_of_run hactions hrun hclosed hanswered, rfl⟩

theorem sum_jobWork_update {exchange : Exchange} {channel : ResponseChannel}
    (hrequested : channel ∈ exchange.requested) (job : Option Job) :
    ∑ other ∈ exchange.requested.toFinset,
        jobWork (Function.update exchange.jobs channel job other) +
        jobWork (exchange.jobs channel) =
      ∑ other ∈ exchange.requested.toFinset, jobWork (exchange.jobs other) + jobWork job := by
  have hmem : channel ∈ exchange.requested.toFinset := List.mem_toFinset.mpr hrequested
  have hothers : ∑ other ∈ exchange.requested.toFinset.erase channel,
      jobWork (Function.update exchange.jobs channel job other) =
      ∑ other ∈ exchange.requested.toFinset.erase channel, jobWork (exchange.jobs other) := by
    apply Finset.sum_congr rfl
    intro other hother
    rw [Function.update_of_ne (Finset.ne_of_mem_erase hother)]
  rw [← Finset.add_sum_erase _ _ hmem, ← Finset.add_sum_erase _ _ hmem, hothers,
    Function.update_self]
  omega

/-- Every step of a job or of the loop leaves less to do. -/
theorem Sound.work_lt {exchange next : Exchange} (hsound : Sound exchange)
    {action : ExchangeAction} (haction : action.isInternal = true)
    (hstep : exchange.step true action = some next) : work next < work exchange := by
  cases step_eq_some_iff.mp hstep with
  | accept hnew => cases haction
  | @finish channel outcome peer task hjob =>
    have hsum := sum_jobWork_update (hsound.jobs _ _ hjob).2.1
      (some ⟨peer, task, .forwarding (jobResult task outcome)⟩)
    have hbefore : jobWork (exchange.jobs channel) = 4 := by rw [hjob, jobWork]
    rw [hbefore, jobWork] at hsum
    simp only [work]
    omega
  | @forward channel peer task result hjob =>
    have hsum := sum_jobWork_update (hsound.jobs _ _ hjob).2.1
      (some ⟨peer, task, .sending result⟩)
    have hbefore : jobWork (exchange.jobs channel) = 3 := by rw [hjob, jobWork]
    rw [hbefore, jobWork] at hsum
    simp only [work]
    omega
  | @send channel peer task result hjob hroom =>
    have hsum := sum_jobWork_update (hsound.jobs _ _ hjob).2.1 none
    have hbefore : jobWork (exchange.jobs channel) = 2 := by rw [hjob, jobWork]
    rw [hbefore, jobWork] at hsum
    simp only [work, List.length_append, List.length_singleton]
    omega
  | @deliver outcome rest houtcomes =>
    have hlength : exchange.outcomes.length = rest.length + 1 := by
      rw [houtcomes, List.length_cons]
    have hwork : work (exchange.complete outcome rest) + 1 = work exchange := by
      unfold complete
      split <;> (simp only [work, sendResponse_requested, sendResponse_jobs,
        sendResponse_outcomes]; omega)
    omega
  | close hopen => cases haction

/-- A run without anything from outside is bounded by the work there is. -/
theorem Sound.run_of_internal {exchange final : Exchange} (hsound : Sound exchange)
    {actions : List ExchangeAction} (hactions : ∀ action ∈ actions, action.isInternal = true)
    (hrun : run (Exchange.step true) exchange actions = some final) :
    actions.length ≤ work exchange ∧ Sound final ∧ final.requested = exchange.requested ∧
      final.closed = exchange.closed := by
  induction actions generalizing exchange with
  | nil =>
    rw [← Option.some.inj hrun]
    exact ⟨Nat.zero_le _, hsound, rfl, rfl⟩
  | cons action rest ih =>
    rcases (run_cons_eq_some _).mp hrun with ⟨next, hstep, hrest⟩
    have haction := hactions action List.mem_cons_self
    have hnext := hsound.step (undisturbed_of_internal haction).1 hstep
    have hless := hsound.work_lt haction hstep
    obtain ⟨hrequested, hclosed⟩ := outside_of_internal haction hstep
    rcases ih hnext (fun other hother ↦ hactions other (List.mem_cons_of_mem _ hother)) hrest with
      ⟨hlength, hfinal, hkept, hstays⟩
    refine ⟨?_, hfinal, hkept.trans hrequested, hstays.trans hclosed⟩
    rw [List.length_cons]
    omega

/-- When no job and no outcome can move any more, every request is answered or its result was thrown
away. -/
theorem Sound.settled_of_rest {exchange : Exchange} (hsound : Sound exchange)
    (hrest : ∀ action, action.isInternal = true → exchange.step true action = none)
    {channel : ResponseChannel} (hrequested : channel ∈ exchange.requested) :
    channel ∈ exchange.answered.map Prod.fst ∨
      channel ∈ exchange.discarded.map ProjectOutcome.channel := by
  have hmove : ∀ action next, action.isInternal = true → ¬ Move exchange action next := by
    intro action next haction hmove
    cases (hrest action haction).symm.trans (step_eq_some_iff.mpr hmove)
  have houtcomes : exchange.outcomes = [] := by
    cases houtcomes : exchange.outcomes with
    | nil => rfl
    | cons outcome rest => exact absurd (.deliver houtcomes) (hmove .deliver _ rfl)
  rcases hsound.underway channel hrequested with hjob | houtcome | hsettled
  · rcases Option.isSome_iff_exists.mp hjob with ⟨⟨peer, task, stage⟩, hjob⟩
    cases stage with
    | running => exact absurd (.finish hjob) (hmove (.finish channel (.error "")) _ rfl)
    | forwarding result => exact absurd (.forward hjob) (hmove (.forward channel) _ rfl)
    | sending result =>
      have hroom : exchange.outcomes.length < outcomeCapacity := by
        rw [houtcomes]
        decide
      exact absurd (.send hjob hroom) (hmove (.send channel) _ rfl)
  · rw [houtcomes] at houtcome
    cases houtcome
  · exact hsettled

/-- Whatever channels are closed, a request whose channel stays open is answered exactly once. -/
theorem Sound.answersOpenChannels {exchange : Exchange} (hsound : Sound exchange) :
    AnswersOpenChannels exchange where
  once := hsound.once
  own answer hanswer := (hsound.answered answer hanswer).1
  dropped := hsound.dropped
  discarded := hsound.discarded
  finishes := by
    intro actions final hactions hrun
    obtain ⟨hlength, hfinal, hrequested, hclosed⟩ := hsound.run_of_internal hactions hrun
    refine ⟨hlength, fun hrest channel hchannel ↦ ?_⟩
    rw [List.mem_filter, decide_eq_true_iff, ← hrequested, ← hclosed] at hchannel
    rcases hfinal.settled_of_rest hrest hchannel.1 with hanswered | hdiscarded
    · obtain ⟨⟨found, result⟩, hmem, rfl⟩ := List.mem_map.mp hanswered
      exact ⟨result, hmem⟩
    · obtain ⟨outcome, hmem, rfl⟩ := List.mem_map.mp hdiscarded
      exact absurd (hfinal.discarded outcome hmem) hchannel.2

/-- No result was thrown away, and what was requested on a closed channel was answered before. -/
structure Delivering (exchange : Exchange) : Prop extends Sound exchange where
  kept : exchange.discarded = []
  settled : ∀ channel ∈ exchange.closed, channel ∈ exchange.requested →
    channel ∈ exchange.answered.map Prod.fst

theorem delivering_start : Delivering {} where
  toSound := sound_start
  kept := rfl
  settled _ hclosed := by cases hclosed

theorem Delivering.step {exchange next : Exchange} (hdelivering : Delivering exchange)
    {action : ExchangeAction} (hundisturbed : Undisturbed exchange action)
    (hstep : exchange.step true action = some next) : Delivering next := by
  have hsound := hdelivering.toSound.step hundisturbed.1 hstep
  refine ⟨hsound, ?_, ?_⟩
  · cases step_eq_some_iff.mp hstep with
    | @deliver outcome rest houtcomes =>
      obtain ⟨hpending, hrequested, -⟩ :=
        hdelivering.outcomes outcome (by rw [houtcomes]; exact List.mem_cons_self)
      have hopen : outcome.channel ∉ exchange.closed := by
        intro hclosed
        obtain ⟨answer, hanswer, hsame⟩ :=
          List.mem_map.mp (hdelivering.settled _ hclosed hrequested)
        apply (hdelivering.answered answer hanswer).2.2.2
        rw [hsame, houtcomes, List.map_cons]
        exact List.mem_cons_self
      rw [complete, hpending]
      dsimp only
      rw [sendResponse, if_neg hopen]
      exact hdelivering.kept
    | _ => exact hdelivering.kept
  · cases step_eq_some_iff.mp hstep with
    | @accept channel peer task hnew =>
      intro other hclosed hrequested
      rcases List.mem_cons.mp hrequested with rfl | hearlier
      · exact absurd hclosed hundisturbed.2
      · exact hdelivering.settled other hclosed hearlier
    | @deliver outcome rest houtcomes =>
      have hgrows : exchange.answered ⊆ (exchange.complete outcome rest).answered := by
        intro answer hanswer
        unfold complete
        split
        · exact (mem_answered_sendResponse ..).mpr (Or.inl hanswer)
        · exact hanswer
      obtain ⟨hrequested, hclosed⟩ := outside_of_internal rfl hstep
      rw [hrequested, hclosed]
      exact fun other hother hmem ↦ List.map_subset _ hgrows (hdelivering.settled other hother hmem)
    | close hopen =>
      intro other hclosed hrequested
      rcases List.mem_cons.mp hclosed with rfl | hearlier
      · exact hundisturbed.2 hrequested
      · exact hdelivering.settled other hearlier hrequested
    | _ => exact hdelivering.settled

theorem Delivering.answersExactlyOnce {exchange : Exchange} (hdelivering : Delivering exchange) :
    AnswersExactlyOnce exchange where
  once := hdelivering.once
  own answer hanswer := (hdelivering.answered answer hanswer).1
  dropped := hdelivering.dropped
  discarded := hdelivering.kept
  finishes := by
    intro actions final hactions hrun
    obtain ⟨hlength, -, hrequested, -⟩ := hdelivering.run_of_internal hactions hrun
    have hguarded : Guarded (Exchange.step true) Undisturbed exchange actions :=
      guarded_of_forall_mem fun state action hmem ↦ undisturbed_of_internal (hactions action hmem)
    have hfinal : Delivering final := invariant_of_guarded Delivering
      (fun _ _ _ hstate hguard hstep ↦ hstate.step hguard hstep) hdelivering hguarded hrun
    refine ⟨hlength, fun hrest channel hchannel ↦ ?_⟩
    rw [← hrequested] at hchannel
    rcases hfinal.settled_of_rest hrest hchannel with hanswered | hdiscarded
    · obtain ⟨⟨found, result⟩, hmem, rfl⟩ := List.mem_map.mp hanswered
      exact ⟨result, hmem⟩
    · rw [hfinal.kept] at hdiscarded
      cases hdiscarded

/-- Every request is answered exactly once with its own result throughout a run exactly when no
request carries a task id that is pending and no channel is closed before its request is
answered. -/
theorem answersExactlyOnce_throughout_iff (actions : List ExchangeAction) :
    Throughout (Exchange.step true) AnswersExactlyOnce {} actions ↔
      Guarded (Exchange.step true) Undisturbed {} actions := by
  apply throughout_iff_guarded Delivering
  · intro exchange hdelivering
    exact hdelivering.answersExactlyOnce
  · intro exchange action next hdelivering hundisturbed hstep
    exact hdelivering.step hundisturbed hstep
  · intro exchange action next hdelivering hstep hanswers
    cases step_eq_some_iff.mp hstep with
    | @accept channel peer task hnew =>
      have hkept : (exchange.pending.lookup task.taskId).toList ++ exchange.dropped = [] :=
        hanswers.dropped
      have hnone := (List.append_eq_nil_iff.mp hkept).1
      refine ⟨Finmap.lookup_eq_none.mp (Option.toList_eq_nil_iff.mp hnone), fun hclosed ↦ ?_⟩
      obtain ⟨answer, hanswer, rfl⟩ :=
        List.mem_map.mp (hanswers.finishes.mem_answered List.mem_cons_self hclosed)
      exact hnew (hdelivering.answered answer hanswer).2.1
    | close hopen =>
      exact ⟨trivial, fun hrequested ↦
        hanswers.finishes.mem_answered hrequested List.mem_cons_self⟩
    | _ => exact ⟨trivial, trivial⟩
  · exact delivering_start

/-- A task with the given id that runs `make`. -/
def makeTask (taskId : TaskId) : ProjectTask where
  taskId := taskId
  snapshot := ⟨"2c26b46b68ffc68ff99b453c1d30413413422d706483bfa0f98a5e886266e7ae", []⟩
  workDir := "/root/project"
  buildCmd := []
  runCmd := ["make"]
  timeoutMs := 60000
  resourceLimits := {}
  pinnedNode := none

/-- The result of the first of two requests. -/
def firstResult : ProjectResult := ⟨7, 0, [], [], 1000, 9⟩

/-- Two peers send a request with the same task id, and the first job is done first. -/
def sameTaskId : List ExchangeAction :=
  [.request 1 ⟨[1]⟩ (makeTask 7), .request 2 ⟨[2]⟩ (makeTask 7), .finish 1 (.ok firstResult),
    .forward 1, .send 1, .deliver]

theorem same_taskId_gets_wrong_answer :
    ¬ ∀ (actions : List ExchangeAction) (final : Exchange),
      run (Exchange.step true) {} actions = some final → AnswersExactlyOnce final := by
  intro hgeneral
  have hanswers := hgeneral sameTaskId _ rfl
  have hother : (2, firstResult) ∈ [(1, firstResult)] := hanswers.own (2, firstResult) (by decide)
  have hchannel : 2 = 1 := (Prod.mk.inj (List.mem_singleton.mp hother)).1
  omega

/-- A node without an executor has answered every request at once, or its channel was closed, and
has nothing else to do. -/
structure Rejecting (exchange : Exchange) : Prop where
  settled : ∀ channel ∈ exchange.requested,
    channel ∈ exchange.answered.map Prod.fst ∨ channel ∈ exchange.closed
  requested : ∀ answer ∈ exchange.answered, answer.1 ∈ exchange.requested
  own : ∀ answer ∈ exchange.answered, answer ∈ exchange.produced
  once : (exchange.answered.map Prod.fst).Nodup
  jobs : ∀ channel, exchange.jobs channel = none
  outcomes : exchange.outcomes = []

theorem Rejecting.reject {exchange : Exchange} (hrejecting : Rejecting exchange)
    {channel : ResponseChannel} (hnew : channel ∉ exchange.requested) (task : ProjectTask) :
    Rejecting (exchange.reject channel task) := by
  have hunanswered : channel ∉ exchange.answered.map Prod.fst := by
    intro hmem
    obtain ⟨answer, hanswer, rfl⟩ := List.mem_map.mp hmem
    exact hnew (hrejecting.requested answer hanswer)
  unfold Exchange.reject sendResponse
  dsimp only
  split_ifs with hclosed
  · exact ⟨fun other hother ↦ (List.mem_cons.mp hother).elim
        (fun hsame ↦ Or.inr (hsame ▸ hclosed)) (hrejecting.settled other),
      fun answer hanswer ↦ List.mem_cons_of_mem _ (hrejecting.requested answer hanswer),
      fun answer hanswer ↦ List.mem_cons_of_mem _ (hrejecting.own answer hanswer),
      hrejecting.once, hrejecting.jobs, hrejecting.outcomes⟩
  · refine ⟨fun other hother ↦ ?_, fun answer hanswer ↦ ?_, fun answer hanswer ↦ ?_,
      List.nodup_cons.mpr ⟨hunanswered, hrejecting.once⟩, hrejecting.jobs, hrejecting.outcomes⟩
    · rcases List.mem_cons.mp hother with rfl | hearlier
      · exact Or.inl List.mem_cons_self
      · exact (hrejecting.settled other hearlier).imp_left (List.mem_cons_of_mem _)
    · rcases List.mem_cons.mp hanswer with rfl | hearlier
      · exact List.mem_cons_self
      · exact List.mem_cons_of_mem _ (hrejecting.requested answer hearlier)
    · rcases List.mem_cons.mp hanswer with rfl | hearlier
      · exact List.mem_cons_self
      · exact List.mem_cons_of_mem _ (hrejecting.own answer hearlier)

/-- Without an executor every request on an open channel is answered exactly once, whatever the task
ids. -/
theorem rejecting_of_run {actions : List ExchangeAction} {final : Exchange}
    (hrun : run (Exchange.step false) {} actions = some final) : Rejecting final := by
  have hstart : Rejecting {} := ⟨by simp, by simp, by simp, List.nodup_nil, fun _ ↦ rfl, rfl⟩
  apply invariant_of_run Rejecting _ hstart hrun
  intro exchange action next hrejecting hstep
  cases action with
  | request channel peer task =>
    simp only [Exchange.step, Option.ite_none_left_eq_some] at hstep
    rcases hstep with ⟨hnew, hnext⟩
    rw [← Option.some.inj hnext]
    exact hrejecting.reject hnew task
  | finish channel outcome =>
    simp only [Exchange.step, hrejecting.jobs] at hstep
    cases hstep
  | forward channel =>
    simp only [Exchange.step, hrejecting.jobs] at hstep
    cases hstep
  | send channel =>
    simp only [Exchange.step, hrejecting.jobs] at hstep
    cases hstep
  | deliver =>
    simp only [Exchange.step, hrejecting.outcomes] at hstep
    cases hstep
  | close channel =>
    simp only [Exchange.step, Option.ite_none_left_eq_some] at hstep
    rw [← Option.some.inj hstep.2]
    exact ⟨fun other hother ↦ (hrejecting.settled other hother).imp_right (List.mem_cons_of_mem _),
      hrejecting.requested, hrejecting.own, hrejecting.once, hrejecting.jobs, hrejecting.outcomes⟩

end EdgeOrchestrator.P2P.ExactlyOnce

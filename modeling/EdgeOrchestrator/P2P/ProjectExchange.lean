import EdgeOrchestrator.Core.Types

/-!
# Project requests on the executing node

The swarm loop parks the response channel of an inbound project request in a map keyed by the task
id, spawns the job and goes on. A job that is done forwards its result to the event monitor and hands
it back to the loop through a bounded channel; the loop then looks the response channel up by the
task id and answers. A response channel is closed from outside, when the connection of the requester
is lost or the window of the request is over; what is sent on it then is only logged. Response
channels are numbered, and every job and outcome is tagged with the channel of the request it
belongs to; the code sees the task id only.
-/

namespace EdgeOrchestrator.P2P

/-- Capacity of the channel that carries finished jobs back to the swarm loop. -/
def outcomeCapacity : ℕ := 8

/-- Failure result for a project task that could not be executed. -/
def projectFailure (task : ProjectTask) (exitCode : ℤ) (message : String) : ProjectResult where
  taskId := task.taskId
  exitCode := exitCode
  stdout := []
  stderr := utf8 message
  executionTimeMs := 0
  executedOn := 0

def noExecutorMessage : String :=
  "no project executor on this node (Linux+KVM required); task rejected instead of silently dropped"

/-- The result of a job, from what the executor returned. -/
def jobResult (task : ProjectTask) : Except String ProjectResult → ProjectResult
  | .ok result => result
  | .error error => projectFailure task 1 error

/-- The number of a response channel. -/
abbrev ResponseChannel := ℕ

inductive JobStage
  | running
  | forwarding (result : ProjectResult)
  | sending (result : ProjectResult)
  deriving DecidableEq, Repr

structure Job where
  peer : PeerId
  task : ProjectTask
  stage : JobStage := .running
  deriving DecidableEq, Repr

/-- A finished project job, handed back to the event loop for the response. -/
structure ProjectOutcome where
  channel : ResponseChannel
  taskId : TaskId
  result : ProjectResult
  deriving DecidableEq, Repr

/-- The swarm loop, the jobs it spawned and the response channels that are closed. Beside them: the
requests that came in, what the run of each produced, the answers sent, the channels dropped and the
results thrown away. -/
structure Exchange where
  pending : HashMap TaskId ResponseChannel := ∅
  jobs : ResponseChannel → Option Job := fun _ ↦ none
  outcomes : List ProjectOutcome := []
  closed : List ResponseChannel := []
  requested : List ResponseChannel := []
  produced : List (ResponseChannel × ProjectResult) := []
  answered : List (ResponseChannel × ProjectResult) := []
  dropped : List ResponseChannel := []
  discarded : List ProjectOutcome := []

inductive ExchangeAction
  | request (channel : ResponseChannel) (peer : PeerId) (task : ProjectTask)
  | finish (channel : ResponseChannel) (outcome : Except String ProjectResult)
  | forward (channel : ResponseChannel)
  | send (channel : ResponseChannel)
  | deliver
  | close (channel : ResponseChannel)

/-- The action is one of the loop or of a job, and does not come from outside. -/
def ExchangeAction.isInternal : ExchangeAction → Bool
  | .request _ _ _ | .close _ => false
  | _ => true

namespace Exchange

/-- Park the response channel and spawn the job. A channel that was parked under the same task id
is dropped. -/
def accept (exchange : Exchange) (channel : ResponseChannel) (peer : PeerId) (task : ProjectTask) :
    Exchange :=
  { exchange with
    pending := exchange.pending.insert task.taskId channel
    jobs := Function.update exchange.jobs channel (some { peer := peer, task := task })
    requested := channel :: exchange.requested
    dropped := (exchange.pending.lookup task.taskId).toList ++ exchange.dropped }

/-- `send_response`, which fails on a closed channel. -/
def sendResponse (exchange : Exchange) (channel : ResponseChannel) (outcome : ProjectOutcome) :
    Exchange :=
  if channel ∈ exchange.closed then
    { exchange with discarded := outcome :: exchange.discarded }
  else { exchange with answered := (channel, outcome.result) :: exchange.answered }

/-- Answer a request on a node without an executor. -/
def reject (exchange : Exchange) (channel : ResponseChannel) (task : ProjectTask) : Exchange :=
  { exchange with
    requested := channel :: exchange.requested
    produced := (channel, projectFailure task 101 noExecutorMessage) :: exchange.produced
    }.sendResponse channel ⟨channel, task.taskId, projectFailure task 101 noExecutorMessage⟩

/-- Complete the transaction of an outcome, if a response channel is found for its task id. -/
def complete (exchange : Exchange) (outcome : ProjectOutcome) (rest : List ProjectOutcome) :
    Exchange :=
  match exchange.pending.lookup outcome.taskId with
  | some channel =>
    { exchange with
      pending := exchange.pending.erase outcome.taskId
      outcomes := rest }.sendResponse channel outcome
  | none =>
    { exchange with outcomes := rest, discarded := outcome :: exchange.discarded }

/-- One step of the loop or of a job. Every request comes with a channel of its own. -/
def step (hasExecutor : Bool) (exchange : Exchange) : ExchangeAction → Option Exchange
  | .request channel peer task =>
    if channel ∈ exchange.requested then none
    else if hasExecutor then some (exchange.accept channel peer task)
    else some (exchange.reject channel task)
  | .finish channel outcome =>
    match exchange.jobs channel with
    | some ⟨peer, task, .running⟩ =>
      some { exchange with
        jobs := Function.update exchange.jobs channel
          (some ⟨peer, task, .forwarding (jobResult task outcome)⟩)
        produced := (channel, jobResult task outcome) :: exchange.produced }
    | _ => none
  | .forward channel =>
    match exchange.jobs channel with
    | some ⟨peer, task, .forwarding result⟩ =>
      some { exchange with
        jobs := Function.update exchange.jobs channel (some ⟨peer, task, .sending result⟩) }
    | _ => none
  | .send channel =>
    match exchange.jobs channel with
    | some ⟨_, task, .sending result⟩ =>
      if exchange.outcomes.length < outcomeCapacity then
        some { exchange with
          jobs := Function.update exchange.jobs channel none
          outcomes := exchange.outcomes ++ [⟨channel, task.taskId, result⟩] }
      else none
    | _ => none
  | .deliver =>
    match exchange.outcomes with
    | [] => none
    | outcome :: rest => some (exchange.complete outcome rest)
  | .close channel =>
    if channel ∈ exchange.closed then none
    else some { exchange with closed := channel :: exchange.closed }

section SendResponse

variable (exchange : Exchange) (channel : ResponseChannel) (outcome : ProjectOutcome)

@[simp]
theorem sendResponse_pending :
    (exchange.sendResponse channel outcome).pending = exchange.pending := by
  unfold sendResponse
  split <;> rfl

@[simp]
theorem sendResponse_jobs : (exchange.sendResponse channel outcome).jobs = exchange.jobs := by
  unfold sendResponse
  split <;> rfl

@[simp]
theorem sendResponse_outcomes :
    (exchange.sendResponse channel outcome).outcomes = exchange.outcomes := by
  unfold sendResponse
  split <;> rfl

@[simp]
theorem sendResponse_closed :
    (exchange.sendResponse channel outcome).closed = exchange.closed := by
  unfold sendResponse
  split <;> rfl

@[simp]
theorem sendResponse_requested :
    (exchange.sendResponse channel outcome).requested = exchange.requested := by
  unfold sendResponse
  split <;> rfl

@[simp]
theorem sendResponse_produced :
    (exchange.sendResponse channel outcome).produced = exchange.produced := by
  unfold sendResponse
  split <;> rfl

@[simp]
theorem sendResponse_dropped :
    (exchange.sendResponse channel outcome).dropped = exchange.dropped := by
  unfold sendResponse
  split <;> rfl

theorem mem_answered_sendResponse (answer : ResponseChannel × ProjectResult) :
    answer ∈ (exchange.sendResponse channel outcome).answered ↔
      answer ∈ exchange.answered ∨ channel ∉ exchange.closed ∧ answer = (channel, outcome.result) := by
  unfold sendResponse
  split_ifs with hclosed
  · simp [hclosed]
  · simp [hclosed, or_comm]

theorem mem_discarded_sendResponse (other : ProjectOutcome) :
    other ∈ (exchange.sendResponse channel outcome).discarded ↔
      other ∈ exchange.discarded ∨ channel ∈ exchange.closed ∧ other = outcome := by
  unfold sendResponse
  split_ifs with hclosed
  · simp [hclosed, or_comm]
  · simp [hclosed]

end SendResponse

/-- Everything a step can do on a node with an executor. -/
inductive Move (exchange : Exchange) : ExchangeAction → Exchange → Prop
  | accept {channel : ResponseChannel} {peer : PeerId} {task : ProjectTask}
      (hnew : channel ∉ exchange.requested) :
    Move exchange (.request channel peer task) (exchange.accept channel peer task)
  | finish {channel : ResponseChannel} {outcome : Except String ProjectResult} {peer : PeerId}
      {task : ProjectTask} (hjob : exchange.jobs channel = some ⟨peer, task, .running⟩) :
    Move exchange (.finish channel outcome)
      { exchange with
        jobs := Function.update exchange.jobs channel
          (some ⟨peer, task, .forwarding (jobResult task outcome)⟩)
        produced := (channel, jobResult task outcome) :: exchange.produced }
  | forward {channel : ResponseChannel} {peer : PeerId} {task : ProjectTask}
      {result : ProjectResult}
      (hjob : exchange.jobs channel = some ⟨peer, task, .forwarding result⟩) :
    Move exchange (.forward channel)
      { exchange with
        jobs := Function.update exchange.jobs channel (some ⟨peer, task, .sending result⟩) }
  | send {channel : ResponseChannel} {peer : PeerId} {task : ProjectTask} {result : ProjectResult}
      (hjob : exchange.jobs channel = some ⟨peer, task, .sending result⟩)
      (hroom : exchange.outcomes.length < outcomeCapacity) :
    Move exchange (.send channel)
      { exchange with
        jobs := Function.update exchange.jobs channel none
        outcomes := exchange.outcomes ++ [⟨channel, task.taskId, result⟩] }
  | deliver {outcome : ProjectOutcome} {rest : List ProjectOutcome}
      (houtcomes : exchange.outcomes = outcome :: rest) :
    Move exchange .deliver (exchange.complete outcome rest)
  | close {channel : ResponseChannel} (hopen : channel ∉ exchange.closed) :
    Move exchange (.close channel) { exchange with closed := channel :: exchange.closed }

theorem step_eq_some_iff {exchange next : Exchange} {action : ExchangeAction} :
    exchange.step true action = some next ↔ Move exchange action next := by
  constructor
  · intro hstep
    cases action with
    | request channel peer task =>
      simp only [step, if_true, Option.ite_none_left_eq_some] at hstep
      rw [← Option.some.inj hstep.2]
      exact .accept hstep.1
    | finish channel outcome =>
      simp only [step] at hstep
      split at hstep
      · rw [← Option.some.inj hstep]
        exact .finish ‹_›
      · cases hstep
    | forward channel =>
      simp only [step] at hstep
      split at hstep
      · rw [← Option.some.inj hstep]
        exact .forward ‹_›
      · cases hstep
    | send channel =>
      simp only [step] at hstep
      split at hstep
      · rw [Option.ite_none_right_eq_some] at hstep
        rw [← Option.some.inj hstep.2]
        exact .send ‹_› hstep.1
      · cases hstep
    | deliver =>
      simp only [step] at hstep
      split at hstep
      · cases hstep
      · rw [← Option.some.inj hstep]
        exact .deliver ‹_›
    | close channel =>
      simp only [step, Option.ite_none_left_eq_some] at hstep
      rw [← Option.some.inj hstep.2]
      exact .close hstep.1
  · intro hmove
    cases hmove with
    | accept hnew => simp [step, hnew]
    | finish hjob => simp [step, hjob]
    | forward hjob => simp [step, hjob]
    | send hjob hroom => simp [step, hjob, hroom]
    | deliver houtcomes => simp [step, houtcomes]
    | close hopen => simp [step, hopen]

end Exchange

end EdgeOrchestrator.P2P

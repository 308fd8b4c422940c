import EdgeOrchestrator.Foundation.Execution
import EdgeOrchestrator.Node.ProjectClient
import EdgeOrchestrator.P2P.ProjectExchange
import EdgeOrchestrator.P2P.Swarm

/-!
# Project traffic of one node

A node submits tasks to other nodes and may execute tasks for them. A submitted task crosses the
command channel and becomes a request of libp2p, which ends with a response or a failure. The
responses and the results of the node's own jobs reach the event monitor as the same event, and
the monitor records them one after the other. The payloads that peers send are arbitrary.
-/

namespace EdgeOrchestrator.Node.ProjectTraffic

open Execution P2P

/-- The node: the maps of its project client, the submissions that are not inserted yet, its queues,
the requests in flight, the jobs it executes, and the result that the monitor is recording. Kept
beside them: the task ids it generated, where each task was sent, which result came in the response
to the request of a task, and the tasks whose request failed before a result was recorded. -/
structure World where
  now : Instant := 0
  client : ProjectClient := {}
  submitting : List TaskId := []
  commands : List SwarmCommand := []
  requests : ℕ := 0
  outbound : ℕ → Option (PeerId × ProjectTask) := fun _ ↦ none
  exchange : Exchange := {}
  events : List Event := []
  recording : Option (PeerId × ProjectResult) := none
  submitted : List TaskId := []
  dispatched : List (TaskId × PeerId) := []
  responses : List (TaskId × ProjectResult) := []
  failedDispatches : List TaskId := []

inductive Action
  | submit (peer : PeerId) (task : ProjectTask)
  | insertDispatched (taskId : TaskId)
  | sendRequest
  | respond (request : ℕ) (result : ProjectResult)
  | failOutbound (request : ℕ) (error : String)
  | exchange (action : ExchangeAction)
  | handleEvent
  | insertResult
  | advance (duration : Duration)

/-- The event that a job forwards to the monitor. -/
def forwardedEvents (exchange : Exchange) : ExchangeAction → List Event
  | .forward channel =>
    match exchange.jobs channel with
    | some ⟨peer, _, .forwarding result⟩ => [.projectResultReceived peer result]
    | _ => []
  | _ => []

/-- One step of the node. A submission draws a new task id. -/
def step (hasExecutor : Bool) (world : World) : Action → Option World
  | .submit peer task =>
    if task.taskId ∉ world.submitted then
      some { world with
        submitting := task.taskId :: world.submitting
        commands := world.commands ++ [.sendProjectTask peer task]
        submitted := task.taskId :: world.submitted
        dispatched := (task.taskId, peer) :: world.dispatched }
    else none
  | .insertDispatched taskId =>
    if taskId ∈ world.submitting then
      some { world with
        client := world.client.insertDispatched world.now taskId
        submitting := world.submitting.erase taskId }
    else none
  | .sendRequest =>
    match world.commands with
    | .sendProjectTask peer task :: rest =>
      some { world with
        commands := rest
        requests := world.requests + 1
        outbound := Function.update world.outbound world.requests (some (peer, task)) }
    | _ => none
  | .respond request result =>
    match world.outbound request with
    | some (peer, task) =>
      some { world with
        outbound := Function.update world.outbound request none
        events := world.events ++
          (SwarmContext.handleProjectExchange (.response peer result)).toList
        responses := (task.taskId, result) :: world.responses }
    | none => none
  | .failOutbound request error =>
    match world.outbound request with
    | some (peer, task) =>
      some { world with
        outbound := Function.update world.outbound request none
        events := world.events ++
          (SwarmContext.handleProjectExchange (.outboundFailure peer error)).toList
        failedDispatches :=
          if task.taskId ∈ world.client.results then world.failedDispatches
          else task.taskId :: world.failedDispatches }
    | none => none
  | .exchange action =>
    (world.exchange.step hasExecutor action).map fun exchange ↦
      { world with
        exchange := exchange
        events := world.events ++ forwardedEvents world.exchange action }
  | .handleEvent =>
    match world.events, world.recording with
    | .projectResultReceived peer result :: rest, none =>
      some { world with
        client := world.client.insertDone world.now result
        events := rest
        recording := some (peer, result) }
    | _, _ => none
  | .insertResult =>
    match world.recording with
    | some (_, result) =>
      some { world with
        client := world.client.insertResult result
        recording := none }
    | none => none
  | .advance duration => some { world with now := world.now + duration }

/-- Everything a step can do. -/
inductive Move (hasExecutor : Bool) (world : World) : Action → World → Prop
  | submit {peer : PeerId} {task : ProjectTask} (hnew : task.taskId ∉ world.submitted) :
    Move hasExecutor world (.submit peer task) { world with
      submitting := task.taskId :: world.submitting
      commands := world.commands ++ [.sendProjectTask peer task]
      submitted := task.taskId :: world.submitted
      dispatched := (task.taskId, peer) :: world.dispatched }
  | insertDispatched {taskId : TaskId} (hsubmitting : taskId ∈ world.submitting) :
    Move hasExecutor world (.insertDispatched taskId) { world with
      client := world.client.insertDispatched world.now taskId
      submitting := world.submitting.erase taskId }
  | sendRequest {peer : PeerId} {task : ProjectTask} {rest : List SwarmCommand}
      (hcommands : world.commands = .sendProjectTask peer task :: rest) :
    Move hasExecutor world .sendRequest { world with
      commands := rest
      requests := world.requests + 1
      outbound := Function.update world.outbound world.requests (some (peer, task)) }
  | respond {request : ℕ} {result : ProjectResult} {peer : PeerId} {task : ProjectTask}
      (houtbound : world.outbound request = some (peer, task)) :
    Move hasExecutor world (.respond request result) { world with
      outbound := Function.update world.outbound request none
      events := world.events ++ [.projectResultReceived peer result]
      responses := (task.taskId, result) :: world.responses }
  | failOutbound {request : ℕ} {error : String} {peer : PeerId} {task : ProjectTask}
      (houtbound : world.outbound request = some (peer, task)) :
    Move hasExecutor world (.failOutbound request error) { world with
      outbound := Function.update world.outbound request none
      events := world.events ++ []
      failedDispatches :=
        if task.taskId ∈ world.client.results then world.failedDispatches
        else task.taskId :: world.failedDispatches }
  | exchange {action : ExchangeAction} {exchange : Exchange}
      (hstep : world.exchange.step hasExecutor action = some exchange) :
    Move hasExecutor world (.exchange action) { world with
      exchange := exchange
      events := world.events ++ forwardedEvents world.exchange action }
  | handleEvent {peer : PeerId} {result : ProjectResult} {rest : List Event}
      (hevents : world.events = .projectResultReceived peer result :: rest)
      (hidle : world.recording = none) :
    Move hasExecutor world .handleEvent { world with
      client := world.client.insertDone world.now result
      events := rest
      recording := some (peer, result) }
  | insertResult {peer : PeerId} {result : ProjectResult}
      (hrecording : world.recording = some (peer, result)) :
    Move hasExecutor world .insertResult { world with
      client := world.client.insertResult result
      recording := none }
  | advance {duration : Duration} :
    Move hasExecutor world (.advance duration) { world with now := world.now + duration }

theorem move_of_step {hasExecutor : Bool} {world next : World} {action : Action}
    (hstep : step hasExecutor world action = some next) : Move hasExecutor world action next := by
  unfold step at hstep
  split at hstep
  · rw [Option.ite_none_right_eq_some] at hstep
    rw [← Option.some.inj hstep.2]
    exact .submit hstep.1
  · rw [Option.ite_none_right_eq_some] at hstep
    rw [← Option.some.inj hstep.2]
    exact .insertDispatched hstep.1
  · split at hstep
    · rw [← Option.some.inj hstep]
      exact .sendRequest ‹_›
    · cases hstep
  · split at hstep
    · rw [← Option.some.inj hstep]
      exact .respond ‹_›
    · cases hstep
  · split at hstep
    · rw [← Option.some.inj hstep]
      exact .failOutbound ‹_›
    · cases hstep
  · obtain ⟨exchange, hexchange, hnext⟩ := Option.map_eq_some_iff.mp hstep
    rw [← hnext]
    exact .exchange hexchange
  · split at hstep
    · rw [← Option.some.inj hstep]
      exact .handleEvent ‹_› ‹_›
    · cases hstep
  · split at hstep
    · rw [← Option.some.inj hstep]
      exact .insertResult ‹_›
    · cases hstep
  · rw [← Option.some.inj hstep]
    exact .advance

end EdgeOrchestrator.Node.ProjectTraffic

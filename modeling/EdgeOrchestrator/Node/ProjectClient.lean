import EdgeOrchestrator.Core.Types

/-!
# Tracking submitted projects

The submitting node keeps the lifecycle of its tasks and the results that executors pushed back in
two maps under separate locks. Submitting a task inserts it as dispatched once it was handed to the
swarm; recording a result marks the task as done and then stores the result. A fetch reports a
dispatched task as failed when no result came within the grace period.
-/

namespace EdgeOrchestrator.Node

/-- How long a task may stay dispatched before the master declares it failed. -/
def resultGrace : Duration := Duration.fromSecs 1920

inductive TaskState
  | dispatched
  | failed (message : String)
  | done
  deriving DecidableEq, Repr

structure ProjectClient where
  tasks : HashMap TaskId (TaskState × Instant) := ∅
  results : HashMap TaskId ProjectResult := ∅

namespace ProjectClient

/-- The last step of `submit_local_project`. -/
def insertDispatched (client : ProjectClient) (now : Instant) (taskId : TaskId) : ProjectClient :=
  { client with tasks := client.tasks.insert taskId (.dispatched, now) }

/-- The first step of `record_result`. -/
def insertDone (client : ProjectClient) (now : Instant) (result : ProjectResult) : ProjectClient :=
  { client with tasks := client.tasks.insert result.taskId (.done, now) }

/-- The second step of `record_result`. -/
def insertResult (client : ProjectClient) (result : ProjectResult) : ProjectClient :=
  { client with results := client.results.insert result.taskId result }

def getResult (client : ProjectClient) (taskId : TaskId) : Option ProjectResult :=
  client.results.lookup taskId

def taskStatus (client : ProjectClient) (now : Instant) (taskId : TaskId) : TaskState :=
  match client.tasks.lookup taskId with
  | none => .failed ("unknown task_id " ++ Uuid.display taskId)
  | some (.dispatched, dispatchedAt) =>
    if resultGrace < now - dispatchedAt then
      .failed ("no result within " ++ toString (Duration.asSecs resultGrace) ++
        "s (executor did not answer: check the execution node's logs and whether its project " ++
        "executor is reachable)")
    else .dispatched
  | some (state, _) => state

end ProjectClient

/-- The reply to a `fetch_project_result` call. Output is sent in Base64. -/
inductive FetchReply
  | failed (error : String)
  | completed (exitCode : ℤ) (stdout stderr : String) (executionTimeMs : ℕ) (executedOn : String)
  | pending
  deriving DecidableEq, Repr

section Fetch

variable (base64 : Bytes → String)

def FetchReply.ofResult (result : ProjectResult) : FetchReply :=
  .completed result.exitCode (base64 result.stdout) (base64 result.stderr) result.executionTimeMs
    (Uuid.display result.executedOn)

/-- `fetch_project_result`, once its parameters are parsed. -/
def fetchProjectResult (client : ProjectClient) (now : Instant) (taskId : TaskId) : FetchReply :=
  match client.taskStatus now taskId with
  | .failed message => .failed message
  | _ =>
    match client.getResult taskId with
    | some result => FetchReply.ofResult base64 result
    | none => .pending

/-- A task that is done is reported with its result, however late the fetch is. -/
theorem fetchProjectResult_of_done {client : ProjectClient} {taskId : TaskId} {doneAt : Instant}
    {result : ProjectResult} (hdone : client.tasks.lookup taskId = some (.done, doneAt))
    (hresult : client.results.lookup taskId = some result) (now : Instant) :
    fetchProjectResult base64 client now taskId = FetchReply.ofResult base64 result := by
  have hstatus : client.taskStatus now taskId = .done := by
    rw [ProjectClient.taskStatus, hdone]
  rw [fetchProjectResult, hstatus, ProjectClient.getResult, hresult]

/-- A task that is dispatched for longer than the grace period is reported as failed, whatever
result is stored for it. -/
theorem fetchProjectResult_of_overdue {client : ProjectClient} {taskId : TaskId}
    {dispatchedAt now : Instant}
    (hdispatched : client.tasks.lookup taskId = some (.dispatched, dispatchedAt))
    (hoverdue : resultGrace < now - dispatchedAt) :
    ∃ error, fetchProjectResult base64 client now taskId = .failed error := by
  have hstatus : ∃ error, client.taskStatus now taskId = .failed error := by
    rw [ProjectClient.taskStatus, hdispatched]
    exact ⟨_, if_pos hoverdue⟩
  rcases hstatus with ⟨error, hstatus⟩
  exact ⟨error, by rw [fetchProjectResult, hstatus]⟩

end Fetch

end EdgeOrchestrator.Node

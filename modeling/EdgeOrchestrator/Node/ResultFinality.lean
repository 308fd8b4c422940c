import EdgeOrchestrator.Foundation.Execution
import EdgeOrchestrator.Node.ProjectClient

/-!
# A recorded result is final

Submitting a task and recording its result run on different tasks of the runtime, so their steps
interleave. A result may be recorded between the moment a task is handed to the swarm and the moment
it is inserted as dispatched. The insertion then undoes the completion, and after the grace period a
completed task is reported as failed. Results are final along the interleavings in which no task is
inserted as dispatched after it was done. A fetch reads the maps and changes nothing, so finality is
a property of every state.
-/

namespace EdgeOrchestrator.Node.ResultFinality

open Execution

/-- The clock, the maps and the calls in progress: submissions that were handed to the swarm and not
inserted yet, and recordings between their two insertions. The submissions that returned and the
results that were recorded, last one first, are kept beside them. -/
structure World where
  now : Instant
  client : ProjectClient := {}
  submitting : List TaskId := []
  returned : List TaskId := []
  recording : List ProjectResult := []
  recorded : List ProjectResult := []

inductive Action
  | enqueue (taskId : TaskId)
  | insertDispatched (taskId : TaskId)
  | insertDone (result : ProjectResult)
  | insertResult (result : ProjectResult)
  | advance (duration : Duration)

/-- One step of some call, or of the clock. A submission draws a new task id. -/
def step (world : World) : Action → Option World
  | .enqueue taskId =>
    if taskId ∉ world.submitting ∧ taskId ∉ world.returned then
      some { world with submitting := taskId :: world.submitting }
    else none
  | .insertDispatched taskId =>
    if taskId ∈ world.submitting then
      some { world with
        client := world.client.insertDispatched world.now taskId
        submitting := world.submitting.erase taskId
        returned := taskId :: world.returned }
    else none
  | .insertDone result =>
    some { world with
      client := world.client.insertDone world.now result
      recording := result :: world.recording }
  | .insertResult result =>
    if result ∈ world.recording then
      some { world with
        client := world.client.insertResult result
        recording := world.recording.erase result
        recorded := result :: world.recorded }
    else none
  | .advance duration => some { world with now := world.now + duration }

def lastRecorded (recorded : List ProjectResult) (taskId : TaskId) : Option ProjectResult :=
  recorded.find? fun result ↦ result.taskId = taskId

/-- Every task whose submission returned and whose result was recorded is reported with it. -/
def ResultsAreFinal (base64 : Bytes → String) (world : World) : Prop :=
  ∀ taskId ∈ world.returned, ∀ result ∈ lastRecorded world.recorded taskId,
    fetchProjectResult base64 world.client world.now taskId = FetchReply.ofResult base64 result

/-- A task is not inserted as dispatched when it is done already. -/
def DispatchesUndone (world : World) : Action → Prop
  | .insertDispatched taskId =>
    ∀ doneAt, world.client.tasks.lookup taskId ≠ some (.done, doneAt)
  | _ => True

/-- Every task with a recorded result, or one being recorded, is done. -/
structure Sound (world : World) : Prop where
  results : ∀ taskId, world.client.results.lookup taskId = lastRecorded world.recorded taskId
  done : ∀ result, result ∈ world.recording ∨ result ∈ world.recorded →
    ∃ doneAt, world.client.tasks.lookup result.taskId = some (.done, doneAt)

theorem Sound.final {world : World} (hsound : Sound world) (base64 : Bytes → String) :
    ResultsAreFinal base64 world := by
  intro taskId _ result hresult
  have hmatches : result.taskId = taskId := by
    simpa only [decide_eq_true_eq] using List.find?_some hresult
  rcases hsound.done result (Or.inr (List.mem_of_find?_eq_some hresult)) with ⟨doneAt, hdone⟩
  rw [hmatches] at hdone
  exact fetchProjectResult_of_done base64 hdone ((hsound.results taskId).trans hresult) world.now

theorem Sound.insertDispatched {world next : World} {taskId : TaskId} (hsound : Sound world)
    (hundone : DispatchesUndone world (.insertDispatched taskId))
    (hstep : step world (.insertDispatched taskId) = some next) : Sound next := by
  rw [step, Option.ite_none_right_eq_some] at hstep
  rw [← Option.some.inj hstep.2]
  refine ⟨hsound.results, fun result hresult ↦ ?_⟩
  rcases hsound.done result hresult with ⟨doneAt, hdone⟩
  have hother : result.taskId ≠ taskId := by
    rintro rfl
    exact hundone doneAt hdone
  exact ⟨doneAt, (Finmap.lookup_insert_of_ne _ hother).trans hdone⟩

theorem Sound.insertDone {world next : World} {result : ProjectResult} (hsound : Sound world)
    (hstep : step world (.insertDone result) = some next) : Sound next := by
  rw [← Option.some.inj hstep]
  refine ⟨hsound.results, fun other hother ↦ ?_⟩
  by_cases hsame : other.taskId = result.taskId
  · rw [hsame]
    exact ⟨world.now, Finmap.lookup_insert _⟩
  · have hearlier : other ∈ world.recording ∨ other ∈ world.recorded := by
      rcases hother with hrecording | hrecorded
      · rcases List.mem_cons.mp hrecording with rfl | hrecording
        · exact absurd rfl hsame
        · exact Or.inl hrecording
      · exact Or.inr hrecorded
    rcases hsound.done other hearlier with ⟨doneAt, hdone⟩
    exact ⟨doneAt, (Finmap.lookup_insert_of_ne _ hsame).trans hdone⟩

theorem Sound.insertResult {world next : World} {result : ProjectResult} (hsound : Sound world)
    (hstep : step world (.insertResult result) = some next) : Sound next := by
  rw [step, Option.ite_none_right_eq_some] at hstep
  rcases hstep with ⟨hrecording, hnext⟩
  rw [← Option.some.inj hnext]
  refine ⟨fun taskId ↦ ?_, fun other hother ↦ ?_⟩
  · unfold lastRecorded
    by_cases hsame : result.taskId = taskId
    · rw [List.find?_cons_of_pos (by simpa using hsame), ← hsame]
      exact Finmap.lookup_insert _
    · rw [List.find?_cons_of_neg (by simpa using hsame)]
      exact (Finmap.lookup_insert_of_ne _ (Ne.symm hsame)).trans (hsound.results taskId)
  · apply hsound.done
    rcases hother with hlater | hrecorded
    · exact Or.inl (List.mem_of_mem_erase hlater)
    · rcases List.mem_cons.mp hrecorded with rfl | hrecorded
      · exact Or.inl hrecording
      · exact Or.inr hrecorded

theorem Sound.step {world next : World} {action : Action} (hsound : Sound world)
    (hundone : DispatchesUndone world action)
    (hstep : ResultFinality.step world action = some next) : Sound next := by
  cases action with
  | enqueue taskId =>
    rw [ResultFinality.step, Option.ite_none_right_eq_some] at hstep
    rw [← Option.some.inj hstep.2]
    exact ⟨hsound.results, hsound.done⟩
  | insertDispatched taskId => exact hsound.insertDispatched hundone hstep
  | insertDone result => exact hsound.insertDone hstep
  | insertResult result => exact hsound.insertResult hstep
  | advance duration =>
    rw [← Option.some.inj hstep]
    exact ⟨hsound.results, hsound.done⟩

theorem sound_start (now : Instant) : Sound { now := now } := by
  refine ⟨fun taskId ↦ Finmap.lookup_empty taskId, fun result hresult ↦ ?_⟩
  rcases hresult with hresult | hresult <;> cases hresult

/-- In every interleaving that inserts no task as dispatched after it was done, recorded results
are final. -/
theorem resultsAreFinal_of_dispatchesUndone (base64 : Bytes → String) (now : Instant)
    (actions : List Action) (final : World)
    (hundone : Guarded step DispatchesUndone { now := now } actions)
    (hrun : run step { now := now } actions = some final) : ResultsAreFinal base64 final := by
  have hsound : Sound final :=
    invariant_of_guarded Sound (fun _ _ _ hsound hundone hstep ↦ hsound.step hundone hstep)
      (sound_start now) hundone hrun
  exact hsound.final base64

/-- A result without output. -/
def emptyResult : ProjectResult := ⟨1, 0, [], [], 1000, 7⟩

/-- Base64 on the outputs of `emptyResult`. -/
def base64OfEmpty (bytes : Bytes) : String := if bytes = [] then "" else "?"

/-- The submission returns before its result is recorded. -/
def resultAfterReturn : List Action :=
  [.enqueue 1, .insertDispatched 1, .insertDone emptyResult, .insertResult emptyResult,
    .advance (Duration.fromSecs 1921)]

theorem resultsAreFinal_resultAfterReturn :
    ∃ final, run step { now := 0 } resultAfterReturn = some final ∧
      ResultsAreFinal base64OfEmpty final := by
  refine ⟨_, rfl, resultsAreFinal_of_dispatchesUndone base64OfEmpty 0 resultAfterReturn _ ?_ rfl⟩
  rintro enqueued ⟨⟩
  refine ⟨trivial, ?_⟩
  rintro dispatched ⟨⟩
  refine ⟨fun doneAt hdone ↦ ?_, ?_⟩
  · rw [Finmap.lookup_empty] at hdone
    cases hdone
  rintro done ⟨⟩
  refine ⟨trivial, ?_⟩
  rintro recorded ⟨⟩
  refine ⟨trivial, ?_⟩
  rintro late ⟨⟩
  exact ⟨trivial, trivial⟩

/-- The result is recorded while the submission has not inserted its task yet. -/
def resultBeforeInsertion : List Action :=
  [.enqueue 1, .insertDone emptyResult, .insertResult emptyResult, .insertDispatched 1,
    .advance (Duration.fromSecs 1921)]

theorem completed_task_reported_failed :
    ¬ ∀ (base64 : Bytes → String) (now : Instant) (actions : List Action) (final : World),
      run step { now := now } actions = some final → ResultsAreFinal base64 final := by
  intro hgeneral
  have hfinal := hgeneral base64OfEmpty 0 resultBeforeInsertion _ rfl 1 (by decide) emptyResult rfl
  let client : ProjectClient :=
    ((ProjectClient.insertDone {} 0 emptyResult).insertResult emptyResult).insertDispatched 0 1
  have hdispatched : client.tasks.lookup 1 = some (.dispatched, 0) := Finmap.lookup_insert _
  have hoverdue : resultGrace < Duration.fromSecs 1921 - 0 := by decide
  have hreply := fetchProjectResult_of_overdue base64OfEmpty hdispatched hoverdue
  rcases hreply with ⟨error, herror⟩
  cases hfinal.symm.trans herror

end EdgeOrchestrator.Node.ResultFinality

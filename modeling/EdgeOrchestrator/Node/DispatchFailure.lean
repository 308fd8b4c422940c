import EdgeOrchestrator.Node.ProjectTraffic

/-!
# Failed dispatches

When the request of a task fails, the swarm logs the failure and raises no event, so the client
goes on as if the build was slow. A fetch reports the task as failed only where it would do so
anyway: the submission has not inserted the task yet, or the grace period is over.
-/

namespace EdgeOrchestrator.Node.ProjectTraffic

open Execution P2P

variable (base64 : Bytes → String)

/-- Every task whose request failed before a result was recorded is reported as failed. -/
def FailuresVisible (world : World) : Prop :=
  ∀ taskId ∈ world.failedDispatches, ∃ error,
    fetchProjectResult base64 world.client world.now taskId = .failed error

/-- The client does not know the task, or has waited for its result longer than the grace
period. -/
def LooksFailed (client : ProjectClient) (now : Instant) (taskId : TaskId) : Prop :=
  client.tasks.lookup taskId = none ∨ ∃ dispatchedAt,
    client.tasks.lookup taskId = some (.dispatched, dispatchedAt) ∧
      resultGrace < now - dispatchedAt

/-- A request fails only when its task looks failed already, or has a result. Afterwards the task is
neither inserted as dispatched nor named by a result that is handled. -/
def HidesNoFailure (world : World) : Action → Prop
  | .failOutbound request _ => ∀ peer task, world.outbound request = some (peer, task) →
      task.taskId ∉ world.client.results → LooksFailed world.client world.now task.taskId
  | .insertDispatched taskId => taskId ∉ world.failedDispatches
  | .handleEvent => ∀ peer result rest,
      world.events = .projectResultReceived peer result :: rest →
      result.taskId ∉ world.failedDispatches
  | _ => True

/-- No task is stored as failed. -/
def NoStoredFailure (client : ProjectClient) : Prop :=
  ∀ taskId message since, client.tasks.lookup taskId ≠ some (.failed message, since)

/-- Without stored failures a fetch reports exactly the tasks that look failed as failed. -/
theorem fetch_failed_iff_looksFailed {client : ProjectClient} (hunfailed : NoStoredFailure client)
    (now : Instant) (taskId : TaskId) :
    (∃ error, fetchProjectResult base64 client now taskId = .failed error) ↔
      LooksFailed client now taskId := by
  constructor
  · rintro ⟨error, hfetch⟩
    have hstatus : client.taskStatus now taskId = .failed error := by
      unfold fetchProjectResult at hfetch
      split at hfetch
      · next message hmessage =>
        rw [hmessage, FetchReply.failed.inj hfetch]
      · split at hfetch <;> cases hfetch
    unfold ProjectClient.taskStatus at hstatus
    split at hstatus
    · exact Or.inl ‹_›
    · next dispatchedAt hlookup =>
      split_ifs at hstatus with hoverdue
      exact Or.inr ⟨dispatchedAt, hlookup, hoverdue⟩
    · next state since _ hlookup =>
      rw [hstatus] at hlookup
      exact absurd hlookup (hunfailed taskId error since)
  · rintro (hunknown | ⟨dispatchedAt, hdispatched, hoverdue⟩)
    · have hstatus : client.taskStatus now taskId =
          .failed ("unknown task_id " ++ Uuid.display taskId) := by
        rw [ProjectClient.taskStatus, hunknown]
      exact ⟨_, by rw [fetchProjectResult, hstatus]⟩
    · exact fetchProjectResult_of_overdue base64 hdispatched hoverdue

/-- A task looks failed for good as long as it is not inserted anew. -/
theorem LooksFailed.mono {client later : ProjectClient} {now laterNow : Instant} {taskId : TaskId}
    (hlooks : LooksFailed client now taskId)
    (hsame : later.tasks.lookup taskId = client.tasks.lookup taskId) (hnow : now ≤ laterNow) :
    LooksFailed later laterNow taskId := by
  rw [LooksFailed, hsame]
  rcases hlooks with hunknown | ⟨dispatchedAt, hdispatched, hoverdue⟩
  · exact Or.inl hunknown
  · exact Or.inr ⟨dispatchedAt, hdispatched, lt_of_lt_of_le hoverdue (Nat.sub_le_sub_right hnow _)⟩

/-- Inserting a task in another state stores no failure. -/
theorem NoStoredFailure.insert {client later : ProjectClient} (hunfailed : NoStoredFailure client)
    {taskId : TaskId} {state : TaskState} {now : Instant} (hstate : ∀ message, state ≠ .failed message)
    (hlater : later.tasks = client.tasks.insert taskId (state, now)) : NoStoredFailure later := by
  intro other message since hlookup
  rw [hlater] at hlookup
  rcases eq_or_of_lookup_insert_eq_some hlookup with ⟨-, hnew⟩ | hearlier
  · exact hstate message (Prod.mk.inj hnew).1.symm
  · exact hunfailed other message since hearlier

theorem NoStoredFailure.move {hasExecutor : Bool} {world next : World} {action : Action}
    (hunfailed : NoStoredFailure world.client) (hmove : Move hasExecutor world action next) :
    NoStoredFailure next.client := by
  cases hmove with
  | insertDispatched hsubmitting =>
    apply hunfailed.insert _ rfl
    intro message hstate
    cases hstate
  | handleEvent hevents hidle =>
    apply hunfailed.insert _ rfl
    intro message hstate
    cases hstate
  | _ => exact hunfailed

/-- Failed dispatches look failed, and nothing is stored as failed. -/
structure Visible (world : World) : Prop where
  unfailed : NoStoredFailure world.client
  failed : ∀ taskId ∈ world.failedDispatches, LooksFailed world.client world.now taskId

theorem Visible.failuresVisible {world : World} (hvisible : Visible world) :
    FailuresVisible base64 world := by
  intro taskId hfailed
  apply (fetch_failed_iff_looksFailed base64 hvisible.unfailed world.now taskId).mpr
  exact hvisible.failed taskId hfailed

theorem visible_start (now : Instant) : Visible { now := now } :=
  ⟨fun taskId message since hlookup ↦ (by cases hlookup), nofun⟩

theorem Visible.move {hasExecutor : Bool} {world next : World} {action : Action}
    (hvisible : Visible world) (hhides : HidesNoFailure world action)
    (hmove : Move hasExecutor world action next) : Visible next := by
  apply Visible.mk (hvisible.unfailed.move hmove)
  intro taskId hfailed
  cases hmove with
  | @insertDispatched inserted hsubmitting =>
    have hother : taskId ≠ inserted := by
      rintro rfl
      exact hhides hfailed
    exact (hvisible.failed taskId hfailed).mono (Finmap.lookup_insert_of_ne _ hother) le_rfl
  | @failOutbound request error peer task houtbound =>
    change taskId ∈ (if _ then _ else _) at hfailed
    split_ifs at hfailed with hrecorded
    · exact hvisible.failed taskId hfailed
    · rcases List.mem_cons.mp hfailed with hself | hearlier
      · rw [hself]
        exact hhides peer task houtbound hrecorded
      · exact hvisible.failed taskId hearlier
  | @handleEvent peer result rest hevents hidle =>
    have hother : taskId ≠ result.taskId := by
      rintro rfl
      exact hhides peer result rest hevents hfailed
    exact (hvisible.failed taskId hfailed).mono (Finmap.lookup_insert_of_ne _ hother) le_rfl
  | @advance duration =>
    exact (hvisible.failed taskId hfailed).mono rfl (Nat.le_add_right _ _)
  | _ => exact hvisible.failed taskId hfailed

/-- A task that was just inserted does not look failed. -/
theorem not_looksFailed_of_insert {client later : ProjectClient} {taskId : TaskId}
    {state : TaskState} {now : Instant}
    (hlater : later.tasks = client.tasks.insert taskId (state, now)) :
    ¬ LooksFailed later now taskId := by
  have hlookup : later.tasks.lookup taskId = some (state, now) := by
    rw [hlater]
    exact Finmap.lookup_insert _
  rw [LooksFailed, hlookup]
  rintro (hunknown | ⟨dispatchedAt, hdispatched, hoverdue⟩)
  · cases hunknown
  · rw [← (Prod.mk.inj (Option.some.inj hdispatched)).2, Nat.sub_self] at hoverdue
    exact absurd hoverdue (Nat.not_lt_zero _)

/-- A step that hides a failure is seen by the next fetch. -/
theorem Visible.hidesNoFailure_of_move {hasExecutor : Bool} {world next : World} {action : Action}
    (hvisible : Visible world) (hmove : Move hasExecutor world action next)
    (hnext : FailuresVisible base64 next) : HidesNoFailure world action := by
  have hlooks : ∀ taskId ∈ next.failedDispatches, LooksFailed next.client next.now taskId :=
    fun taskId hfailed ↦ (fetch_failed_iff_looksFailed base64 (hvisible.unfailed.move hmove)
      next.now taskId).mp (hnext taskId hfailed)
  cases hmove with
  | @insertDispatched inserted hsubmitting =>
    intro hfailed
    exact not_looksFailed_of_insert rfl (hlooks inserted hfailed)
  | @failOutbound request error peer task houtbound =>
    intro otherPeer other hother hunrecorded
    cases houtbound.symm.trans hother
    apply hlooks task.taskId
    change task.taskId ∈ (if _ then _ else _)
    rw [if_neg hunrecorded]
    exact List.mem_cons_self
  | @handleEvent peer result rest hevents hidle =>
    intro otherPeer other otherRest hother hfailed
    cases hevents.symm.trans hother
    exact not_looksFailed_of_insert rfl (hlooks result.taskId hfailed)
  | _ => trivial

/-- Failed dispatches are reported as failed in every state of a run exactly when every request that
fails without a result is of a task that looks failed already, and such a task is neither inserted
as dispatched nor completed afterwards. -/
theorem failuresVisible_throughout_iff (hasExecutor : Bool) (now : Instant)
    (actions : List Action) :
    Throughout (step hasExecutor) (FailuresVisible base64) { now := now } actions ↔
      Guarded (step hasExecutor) HidesNoFailure { now := now } actions := by
  apply throughout_iff_guarded Visible
  · exact fun world hvisible ↦ hvisible.failuresVisible base64
  · intro world action next hvisible hhides hstep
    exact hvisible.move hhides (move_of_step hstep)
  · intro world action next hvisible hstep hnext
    exact hvisible.hidesNoFailure_of_move base64 (move_of_step hstep) hnext
  · exact visible_start now

/-- A task that only builds on its snapshot is dispatched to a peer that cannot be dialed. -/
def failedDial : List Action :=
  [.submit ⟨[1]⟩ ⟨1, ⟨"", []⟩, "/root/project", [], ["./app"], 0, {}, none⟩, .insertDispatched 1,
    .sendRequest, .failOutbound 0 "Failed to dial the requested peer"]

theorem not_failuresVisible_after_failedDial :
    ¬ ∀ (base64 : Bytes → String) (now : Instant) (actions : List Action),
      Throughout (step false) (FailuresVisible base64) { now := now } actions := by
  intro hgeneral
  have hfinal := (hgeneral (fun _ ↦ "") 0 failedDial).final rfl
  rcases hfinal 1 List.mem_cons_self with ⟨error, hfailed⟩
  cases hfailed

end EdgeOrchestrator.Node.ProjectTraffic

import EdgeOrchestrator.Node.ProjectTraffic

/-!
# Whose tasks the project client tracks

The monitor records every result it is handed under the task id in the payload. So the client
tracks only tasks of its own exactly when every result that is handled names one, which the results
that the node forwards for others do not. And a peer completes only its own tasks as long as every
response names the task of its request and the node forwards nothing for others.
-/

namespace EdgeOrchestrator.Node.ProjectTraffic

open Execution P2P

/-- Every task in the maps of the client was submitted by this node. -/
def OnlyOwnTasks (world : World) : Prop :=
  (∀ taskId ∈ world.client.tasks, taskId ∈ world.submitted) ∧
    ∀ taskId ∈ world.client.results, taskId ∈ world.submitted

/-- A result that is handled names a task that this node submitted. -/
def HandlesOwnResults (world : World) : Action → Prop
  | .handleEvent => ∀ peer result rest,
      world.events = .projectResultReceived peer result :: rest → result.taskId ∈ world.submitted
  | _ => True

/-- The maps, the submissions under way and the result being recorded are about own tasks. -/
structure Owned (world : World) : Prop where
  own : OnlyOwnTasks world
  submitting : ∀ taskId ∈ world.submitting, taskId ∈ world.submitted
  recording : ∀ peer result, world.recording = some (peer, result) →
    result.taskId ∈ world.submitted

theorem owned_start (now : Instant) : Owned { now := now } := by
  refine ⟨⟨fun taskId hmem ↦ ?_, fun taskId hmem ↦ ?_⟩, fun taskId hmem ↦ ?_, nofun⟩
  · exact absurd hmem Finmap.notMem_empty
  · exact absurd hmem Finmap.notMem_empty
  · exact absurd hmem List.not_mem_nil

theorem Owned.move {hasExecutor : Bool} {world next : World} {action : Action}
    (howned : Owned world) (hhandles : HandlesOwnResults world action)
    (hmove : Move hasExecutor world action next) : Owned next := by
  cases hmove with
  | submit hnew =>
    refine ⟨⟨fun taskId hmem ↦ ?_, fun taskId hmem ↦ ?_⟩, fun taskId hmem ↦ ?_,
      fun peer result hrecording ↦ ?_⟩
    · exact List.mem_cons_of_mem _ (howned.own.1 taskId hmem)
    · exact List.mem_cons_of_mem _ (howned.own.2 taskId hmem)
    · rcases List.mem_cons.mp hmem with hself | hearlier
      · rw [hself]
        exact List.mem_cons_self
      · exact List.mem_cons_of_mem _ (howned.submitting taskId hearlier)
    · exact List.mem_cons_of_mem _ (howned.recording peer result hrecording)
  | @insertDispatched inserted hsubmitting =>
    refine ⟨⟨fun taskId hmem ↦ ?_, howned.own.2⟩, fun taskId hmem ↦ ?_, howned.recording⟩
    · rcases Finmap.mem_insert.mp hmem with hself | hearlier
      · rw [hself]
        exact howned.submitting inserted hsubmitting
      · exact howned.own.1 taskId hearlier
    · exact howned.submitting taskId (List.mem_of_mem_erase hmem)
  | @handleEvent peer result rest hevents hidle =>
    have hown := hhandles peer result rest hevents
    refine ⟨⟨fun taskId hmem ↦ ?_, howned.own.2⟩, howned.submitting, fun other found hfound ↦ ?_⟩
    · rcases Finmap.mem_insert.mp hmem with hself | hearlier
      · rw [hself]
        exact hown
      · exact howned.own.1 taskId hearlier
    · cases hfound
      exact hown
  | @insertResult peer result hrecording =>
    refine ⟨⟨howned.own.1, fun taskId hmem ↦ ?_⟩, howned.submitting, nofun⟩
    rcases Finmap.mem_insert.mp hmem with hself | hearlier
    · rw [hself]
      exact howned.recording peer result hrecording
    · exact howned.own.2 taskId hearlier
  | _ => exact ⟨howned.own, howned.submitting, howned.recording⟩

/-- A foreign result is in the maps as soon as it is handled. -/
theorem handlesOwnResults_of_move {hasExecutor : Bool} {world next : World} {action : Action}
    (hmove : Move hasExecutor world action next) (hnext : OnlyOwnTasks next) :
    HandlesOwnResults world action := by
  cases hmove with
  | @handleEvent peer result rest hevents hidle =>
    intro otherPeer other otherRest hother
    cases hevents.symm.trans hother
    exact hnext.1 result.taskId (Finmap.mem_insert.mpr (Or.inl rfl))
  | _ => trivial

/-- The client tracks only own tasks in every state of a run exactly when every result that the
monitor handles names a task that the node submitted before. -/
theorem onlyOwnTasks_throughout_iff (hasExecutor : Bool) (now : Instant) (actions : List Action) :
    Throughout (step hasExecutor) OnlyOwnTasks { now := now } actions ↔
      Guarded (step hasExecutor) HandlesOwnResults { now := now } actions := by
  apply throughout_iff_guarded Owned
  · exact fun world howned ↦ howned.own
  · intro world action next howned hhandles hstep
    exact howned.move hhandles (move_of_step hstep)
  · intro world action next _ hstep hnext
    exact handlesOwnResults_of_move (move_of_step hstep) hnext
  · exact owned_start now

/-- A task that only builds on its snapshot. -/
def smallTask (taskId : TaskId) : ProjectTask :=
  ⟨taskId, ⟨"", []⟩, "/root/project", [], ["./app"], 0, {}, none⟩

/-- A successful result without output. -/
def successOf (taskId : TaskId) : ProjectResult := ⟨taskId, 0, [], [], 0, 0⟩

/-- The node executes a task for another node, and its monitor records the result. -/
def executionForOthers : List Action :=
  [.exchange (.request 0 ⟨[9]⟩ (smallTask 5)), .exchange (.finish 0 (.ok (successOf 5))),
    .exchange (.forward 0), .handleEvent, .insertResult]

theorem not_onlyOwnTasks_after_execution :
    ¬ ∀ (hasExecutor : Bool) (now : Instant) (actions : List Action),
      Throughout (step hasExecutor) OnlyOwnTasks { now := now } actions := by
  intro hgeneral
  have hfinal := (hgeneral true 0 executionForOthers).final rfl
  exact absurd (hfinal.1 5 (Finmap.mem_insert.mpr (Or.inl rfl))) List.not_mem_nil

/-- Every stored result came in the response to the request of its task. -/
def Attributed (world : World) : Prop :=
  ∀ taskId result, world.client.results.lookup taskId = some result →
    (taskId, result) ∈ world.responses

/-- The peer whose result the monitor records with this step. -/
def recordsFrom (world : World) : Action → Option PeerId
  | .handleEvent =>
    match world.events with
    | .projectResultReceived peer _ :: _ => some peer
    | _ => none
  | .insertResult => world.recording.map Prod.fst
  | _ => none

/-- A step that records a result of a peer changes no task that was not dispatched to it. -/
def SparesOtherTasks (hasExecutor : Bool) (world : World) (action : Action) : Prop :=
  ∀ peer next taskId, recordsFrom world action = some peer →
    step hasExecutor world action = some next → (taskId, peer) ∉ world.dispatched →
    next.client.tasks.lookup taskId = world.client.tasks.lookup taskId ∧
      next.client.results.lookup taskId = world.client.results.lookup taskId

/-- A response names the task of its request, and no result of a job is forwarded. -/
def EchoesTaskId (world : World) : Action → Prop
  | .respond request result => ∀ peer task,
      world.outbound request = some (peer, task) → result.taskId = task.taskId
  | .exchange (.forward _) => False
  | _ => True

/-- The result is the response of the peer to the request of the task that it names. -/
def Answered (world : World) (peer : PeerId) (result : ProjectResult) : Prop :=
  (result.taskId, peer) ∈ world.dispatched ∧ (result.taskId, result) ∈ world.responses

/-- Requests go where their tasks were dispatched, and results answer requests, from the event
queue to the maps of the client. -/
structure Attribution (world : World) : Prop where
  commanded : ∀ peer task, .sendProjectTask peer task ∈ world.commands →
    (task.taskId, peer) ∈ world.dispatched
  requested : ∀ request peer task, world.outbound request = some (peer, task) →
    (task.taskId, peer) ∈ world.dispatched
  queued : ∀ peer result, .projectResultReceived peer result ∈ world.events →
    Answered world peer result
  recording : ∀ peer result, world.recording = some (peer, result) → Answered world peer result
  stored : Attributed world

theorem attribution_start (now : Instant) : Attribution { now := now } :=
  ⟨nofun, nofun, nofun, nofun, fun taskId result hlookup ↦ by cases hlookup⟩

/-- Dispatches and responses are only ever added. -/
theorem Answered.mono {world next : World} {peer : PeerId} {result : ProjectResult}
    (hanswered : Answered world peer result)
    (hdispatched : world.dispatched ⊆ next.dispatched)
    (hresponses : world.responses ⊆ next.responses) : Answered next peer result :=
  ⟨hdispatched hanswered.1, hresponses hanswered.2⟩

/-- A new task is sent where it is dispatched. -/
theorem Attribution.submit {world : World} (hattribution : Attribution world) (peer : PeerId)
    (task : ProjectTask) :
    Attribution { world with
      submitting := task.taskId :: world.submitting
      commands := world.commands ++ [.sendProjectTask peer task]
      submitted := task.taskId :: world.submitted
      dispatched := (task.taskId, peer) :: world.dispatched } := by
  have hmore := List.subset_cons_self (task.taskId, peer) world.dispatched
  refine ⟨fun other sent hsent ↦ ?_, fun request other sent hsent ↦ ?_,
    fun other result hevent ↦ ?_, fun other result hrecording ↦ ?_, hattribution.stored⟩
  · rcases List.mem_append.mp hsent with hearlier | hlast
    · exact hmore (hattribution.commanded other sent hearlier)
    · cases List.mem_singleton.mp hlast
      exact List.mem_cons_self
  · exact hmore (hattribution.requested request other sent hsent)
  · exact (hattribution.queued other result hevent).mono hmore (List.Subset.refl _)
  · exact (hattribution.recording other result hrecording).mono hmore (List.Subset.refl _)

/-- The next command becomes a request. -/
theorem Attribution.sendRequest {world : World} (hattribution : Attribution world) {peer : PeerId}
    {task : ProjectTask} {rest : List SwarmCommand}
    (hcommands : world.commands = .sendProjectTask peer task :: rest) :
    Attribution { world with
      commands := rest
      requests := world.requests + 1
      outbound := Function.update world.outbound world.requests (some (peer, task)) } := by
  have hcommanded := hattribution.commanded
  rw [hcommands] at hcommanded
  refine ⟨fun other sent hsent ↦ ?_, fun request other sent hsent ↦ ?_,
    hattribution.queued, hattribution.recording, hattribution.stored⟩
  · exact hcommanded other sent (List.mem_cons_of_mem _ hsent)
  · rcases eq_or_of_update_eq_some hsent with ⟨-, hnew⟩ | hearlier
    · cases hnew
      exact hcommanded peer task List.mem_cons_self
    · exact hattribution.requested request other sent hearlier

/-- A response that names the task of its request answers it. -/
theorem Attribution.respond {world : World} (hattribution : Attribution world) {request : ℕ}
    {result : ProjectResult} {peer : PeerId} {task : ProjectTask}
    (houtbound : world.outbound request = some (peer, task)) (hsame : result.taskId = task.taskId) :
    Attribution { world with
      outbound := Function.update world.outbound request none
      events := world.events ++ [.projectResultReceived peer result]
      responses := (task.taskId, result) :: world.responses } := by
  have hmore := List.subset_cons_self (task.taskId, result) world.responses
  refine ⟨hattribution.commanded, fun other otherPeer sent hsent ↦ ?_,
    fun other found hevent ↦ ?_, fun other found hrecording ↦ ?_, fun taskId found hfound ↦ ?_⟩
  · exact hattribution.requested other otherPeer sent (of_update_none_eq_some hsent)
  · rcases List.mem_append.mp hevent with hearlier | hlast
    · exact (hattribution.queued other found hearlier).mono (List.Subset.refl _) hmore
    · cases List.mem_singleton.mp hlast
      rw [Answered, hsame]
      exact ⟨hattribution.requested request peer task houtbound, List.mem_cons_self⟩
  · exact (hattribution.recording other found hrecording).mono (List.Subset.refl _) hmore
  · exact hmore (hattribution.stored taskId found hfound)

/-- The monitor takes the next result and completes its task. -/
theorem Attribution.handleEvent {world : World} (hattribution : Attribution world) {peer : PeerId}
    {result : ProjectResult} {rest : List Event}
    (hevents : world.events = .projectResultReceived peer result :: rest) :
    Attribution { world with
      client := world.client.insertDone world.now result
      events := rest
      recording := some (peer, result) } := by
  have hqueued := hattribution.queued
  rw [hevents] at hqueued
  refine ⟨hattribution.commanded, hattribution.requested, fun other found hevent ↦ ?_,
    fun other found hfound ↦ ?_, hattribution.stored⟩
  · exact hqueued other found (List.mem_cons_of_mem _ hevent)
  · cases hfound
    exact hqueued peer result List.mem_cons_self

/-- The result that the monitor took is stored. -/
theorem Attribution.insertResult {world : World} (hattribution : Attribution world) {peer : PeerId}
    {result : ProjectResult} (hrecording : world.recording = some (peer, result)) :
    Attribution { world with
      client := world.client.insertResult result
      recording := none } := by
  refine ⟨hattribution.commanded, hattribution.requested, hattribution.queued, nofun,
    fun taskId found hfound ↦ ?_⟩
  rcases eq_or_of_lookup_insert_eq_some hfound with ⟨hsame, hnew⟩ | hearlier
  · rw [hsame, hnew]
    exact (hattribution.recording peer result hrecording).2
  · exact hattribution.stored taskId found hearlier

theorem Attribution.move {hasExecutor : Bool} {world next : World} {action : Action}
    (hattribution : Attribution world) (hechoes : EchoesTaskId world action)
    (hmove : Move hasExecutor world action next) : Attribution next := by
  cases hmove with
  | submit hnew => exact hattribution.submit _ _
  | sendRequest hcommands => exact hattribution.sendRequest hcommands
  | respond houtbound => exact hattribution.respond houtbound (hechoes _ _ houtbound)
  | @failOutbound request error peer task houtbound =>
    refine ⟨hattribution.commanded, fun other otherPeer sent hsent ↦ ?_,
      fun other found hevent ↦ ?_, hattribution.recording, hattribution.stored⟩
    · exact hattribution.requested other otherPeer sent (of_update_none_eq_some hsent)
    · rw [List.append_nil] at hevent
      exact hattribution.queued other found hevent
  | @exchange exchangeAction exchange hstep =>
    have hnothing : forwardedEvents world.exchange exchangeAction = [] := by
      cases exchangeAction with
      | forward channel => exact hechoes.elim
      | _ => rfl
    refine ⟨hattribution.commanded, hattribution.requested, fun other found hevent ↦ ?_,
      hattribution.recording, hattribution.stored⟩
    rw [hnothing, List.append_nil] at hevent
    exact hattribution.queued other found hevent
  | handleEvent hevents hidle => exact hattribution.handleEvent hevents
  | insertResult hrecording => exact hattribution.insertResult hrecording
  | insertDispatched hsubmitting =>
    exact ⟨hattribution.commanded, hattribution.requested, hattribution.queued,
      hattribution.recording, hattribution.stored⟩
  | advance =>
    exact ⟨hattribution.commanded, hattribution.requested, hattribution.queued,
      hattribution.recording, hattribution.stored⟩

/-- A result that answers a request is stored under a task that was dispatched to its peer. -/
theorem Attribution.sparesOtherTasks {world : World} (hattribution : Attribution world)
    (hasExecutor : Bool) (action : Action) : SparesOtherTasks hasExecutor world action := by
  intro peer next taskId hpeer hstep hother
  cases move_of_step hstep with
  | @handleEvent sender result rest hevents hidle =>
    rw [recordsFrom, hevents] at hpeer
    have hsender : sender = peer := Option.some.inj hpeer
    have hqueued := hattribution.queued sender result (by rw [hevents]; exact List.mem_cons_self)
    have hne : taskId ≠ result.taskId := by
      rintro rfl
      exact hother (hsender ▸ hqueued.1)
    exact ⟨Finmap.lookup_insert_of_ne _ hne, rfl⟩
  | @insertResult sender result hrecording =>
    rw [recordsFrom, hrecording] at hpeer
    have hsender : sender = peer := Option.some.inj hpeer
    have hne : taskId ≠ result.taskId := by
      rintro rfl
      exact hother (hsender ▸ (hattribution.recording sender result hrecording).1)
    exact ⟨rfl, Finmap.lookup_insert_of_ne _ hne⟩
  | _ => cases hpeer

/-- As long as every response names the task of its request and the node forwards nothing for
others, every stored result came in the response to the request of its task, and no peer changes a
task that was not dispatched to it. -/
theorem attributed_of_echoesTaskId (hasExecutor : Bool) (now : Instant) (actions : List Action)
    (hechoes : Guarded (step hasExecutor) EchoesTaskId { now := now } actions) :
    Throughout (step hasExecutor) Attributed { now := now } actions ∧
      Guarded (step hasExecutor) (SparesOtherTasks hasExecutor) { now := now } actions := by
  have hkeep : ∀ world action next, Attribution world → EchoesTaskId world action →
      step hasExecutor world action = some next → Attribution next := by
    intro world action next hattribution hguard hstep
    exact hattribution.move hguard (move_of_step hstep)
  constructor
  · apply throughout_of_guarded Attribution _ hkeep (attribution_start now) hechoes
    exact fun world hattribution ↦ hattribution.stored
  · apply guarded_of_guarded Attribution _ hkeep (attribution_start now) hechoes
    exact fun world action _ hattribution _ _ ↦ hattribution.sparesOtherTasks hasExecutor action

/-- Two tasks are dispatched to two peers, and the first peer answers with the given task id. -/
def twoDispatches (answeredId : TaskId) : List Action :=
  [.submit ⟨[1]⟩ (smallTask 1), .insertDispatched 1, .submit ⟨[2]⟩ (smallTask 2),
    .insertDispatched 2, .sendRequest, .sendRequest, .respond 0 (successOf answeredId),
    .handleEvent, .insertResult]

theorem attributed_of_echoesTaskId_twoDispatches :
    Throughout (step false) Attributed { now := 0 } (twoDispatches 1) ∧
      Guarded (step false) (SparesOtherTasks false) { now := 0 } (twoDispatches 1) := by
  apply attributed_of_echoesTaskId
  -- only the response, after six steps, has anything to meet
  iterate 6
    apply (guarded_cons_iff rfl).mpr
    apply And.intro trivial
  apply (guarded_cons_iff rfl).mpr
  constructor
  · intro peer task hsent
    cases hsent
    rfl
  · iterate 2
      apply (guarded_cons_iff rfl).mpr
      apply And.intro trivial
    trivial

theorem not_attributed_after_foreign_answer :
    ¬ ∀ (now : Instant) (actions : List Action),
      Throughout (step false) Attributed { now := now } actions ∧
        Guarded (step false) (SparesOtherTasks false) { now := now } actions := by
  intro hgeneral
  have hfinal := (hgeneral 0 (twoDispatches 2)).1.final rfl
  have hstored := hfinal 2 (successOf 2) (Finmap.lookup_insert _)
  cases List.mem_singleton.mp hstored

end EdgeOrchestrator.Node.ProjectTraffic

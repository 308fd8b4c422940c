import EdgeOrchestrator.Node.ProjectTraffic
import EdgeOrchestrator.P2P.ExactlyOnce

/-!
# The books of a submitting node

The tasks that a node submits become requests one after the other, so the number of a request is
the position of its task among the submissions. A request ends with a response, whose result goes
through the event queue and the monitor into the map of the client, or with a failure. So nothing a
node submitted is ever unaccounted for, as long as responses are about the tasks they answer. The
monitor records nothing but what responses and the jobs of the node brought it.
-/

namespace EdgeOrchestrator.Node.ProjectTraffic

open P2P

/-- A result for the task is queued, is being recorded, or is recorded. -/
def ResultUnderway (world : World) (taskId : TaskId) : Prop :=
  (∃ peer result, .projectResultReceived peer result ∈ world.events ∧ result.taskId = taskId) ∨
    (∃ peer result, world.recording = some (peer, result) ∧ result.taskId = taskId) ∨
    taskId ∈ world.client.results

/-- The commands are the submissions that are no requests yet. A request is open with the task that
was submitted at its position, or it ended with a result or a failure. -/
structure Dispatching (submissions : List (PeerId × ProjectTask)) (world : World) : Prop where
  commands : world.commands =
    (submissions.drop world.requests).map fun sent ↦ .sendProjectTask sent.1 sent.2
  requests : world.requests ≤ submissions.length
  outbound : ∀ request sent, world.outbound request = some sent →
    submissions[request]? = some sent
  ended : ∀ request peer task, request < world.requests →
    submissions[request]? = some (peer, task) →
      (world.outbound request).isSome ∨ task.taskId ∈ world.failedDispatches ∨
        ResultUnderway world task.taskId

/-- A response is about the task of its request. -/
def AnswersTask (world : World) : Action → Prop
  | .respond request result => ∀ peer task, world.outbound request = some (peer, task) →
      result.taskId = task.taskId
  | _ => True

/-- The submissions of the node after an action. -/
def submittedAfter (submissions : List (PeerId × ProjectTask)) :
    Action → List (PeerId × ProjectTask)
  | .submit peer task => submissions ++ [(peer, task)]
  | _ => submissions

variable {hasExecutor : Bool} {world next : World} {action : Action}
  {submissions : List (PeerId × ProjectTask)}

/-- Only sending a request counts one. -/
theorem requests_of_move (hmove : Move hasExecutor world action next)
    (haction : action ≠ .sendRequest) : next.requests = world.requests := by
  cases hmove with
  | sendRequest hcommands => exact absurd rfl haction
  | _ => rfl

/-- The exchange of the node takes a step of its own, or stays as it is. -/
theorem exchange_of_move (hmove : Move hasExecutor world action next) :
    (∃ own, action = .exchange own ∧
      world.exchange.step hasExecutor own = some next.exchange) ∨
      (∀ own, action ≠ .exchange own) ∧ next.exchange = world.exchange := by
  cases hmove with
  | exchange hstep => exact Or.inl ⟨_, rfl, hstep⟩
  | _ => exact Or.inr ⟨nofun, rfl⟩

theorem dispatching_start (now : Instant) : Dispatching [] { now := now } where
  commands := rfl
  requests := le_rfl
  outbound _ _ hsent := by cases hsent
  ended _ _ _ hrequest := by cases hrequest

/-- The oldest command is the submission with the number of the next request. -/
theorem Dispatching.getElem?_requests (hdispatching : Dispatching submissions world) {peer : PeerId}
    {task : ProjectTask} {rest : List SwarmCommand}
    (hcommands : world.commands = .sendProjectTask peer task :: rest) :
    submissions[world.requests]? = some (peer, task) ∧
      rest = (submissions.drop (world.requests + 1)).map fun sent ↦
        .sendProjectTask sent.1 sent.2 := by
  rw [hdispatching.commands] at hcommands
  obtain ⟨sent, later, hdrop, hsent, hlater⟩ := List.map_eq_cons_iff.mp hcommands
  obtain rfl : sent = (peer, task) := by
    obtain ⟨rfl, rfl⟩ := SwarmCommand.sendProjectTask.inj hsent
    rfl
  refine ⟨?_, ?_⟩
  · rw [← List.head?_drop, hdrop, List.head?_cons]
  · rw [← hlater, ← List.drop_drop, hdrop, List.drop_one, List.tail_cons]

/-- Results under way stay so when the queue and the maps only grow. -/
theorem ResultUnderway.mono {taskId : TaskId} (hunderway : ResultUnderway world taskId)
    (hevents : world.events ⊆ next.events) (hrecording : next.recording = world.recording)
    (hclient : next.client.results = world.client.results) : ResultUnderway next taskId := by
  rw [ResultUnderway, hrecording, hclient]
  exact hunderway.imp_left fun ⟨peer, result, hmem, hsame⟩ ↦ ⟨peer, result, hevents hmem, hsame⟩

/-- A step that neither submits nor ends a request, and keeps what is under way, keeps the books. -/
theorem Dispatching.of_same (hdispatching : Dispatching submissions world)
    (hcommands : next.commands = world.commands) (hrequests : next.requests = world.requests)
    (houtbound : next.outbound = world.outbound)
    (hfailed : next.failedDispatches = world.failedDispatches)
    (hunderway : ∀ taskId, ResultUnderway world taskId → ResultUnderway next taskId) :
    Dispatching submissions next := by
  constructor
  · rw [hcommands, hrequests]
    exact hdispatching.commands
  · rw [hrequests]
    exact hdispatching.requests
  · rw [houtbound]
    exact hdispatching.outbound
  · rw [hrequests, houtbound, hfailed]
    intro request peer task hrequest hsent
    exact (hdispatching.ended request peer task hrequest hsent).imp_right
      (Or.imp_right (hunderway task.taskId))

theorem Dispatching.submit (hdispatching : Dispatching submissions world) (peer : PeerId)
    (task : ProjectTask) :
    Dispatching (submissions ++ [(peer, task)]) { world with
      submitting := task.taskId :: world.submitting
      commands := world.commands ++ [.sendProjectTask peer task]
      submitted := task.taskId :: world.submitted
      dispatched := (task.taskId, peer) :: world.dispatched } where
  commands := by
    rw [List.drop_append_of_le_length hdispatching.requests, List.map_append,
      ← hdispatching.commands]
    rfl
  requests := by
    rw [List.length_append]
    exact Nat.le_add_right_of_le hdispatching.requests
  outbound request sent hsent := by
    have hearlier := hdispatching.outbound request sent hsent
    rwa [List.getElem?_append_left (List.getElem?_eq_some_iff.mp hearlier).1]
  ended request other sent hrequest hsent := by
    rw [List.getElem?_append_left (lt_of_lt_of_le hrequest hdispatching.requests)] at hsent
    exact hdispatching.ended request other sent hrequest hsent

theorem Dispatching.sendRequest (hdispatching : Dispatching submissions world) {peer : PeerId}
    {task : ProjectTask} {rest : List SwarmCommand}
    (hcommands : world.commands = .sendProjectTask peer task :: rest) :
    Dispatching submissions { world with
      commands := rest
      requests := world.requests + 1
      outbound := Function.update world.outbound world.requests (some (peer, task)) } := by
  obtain ⟨hsubmission, hrest⟩ := hdispatching.getElem?_requests hcommands
  refine ⟨hrest, ?_, fun request sent hsent ↦ ?_, fun request other sent hrequest hsent ↦ ?_⟩
  · exact (List.getElem?_eq_some_iff.mp hsubmission).1
  · rcases Execution.eq_or_of_update_eq_some hsent with ⟨rfl, rfl⟩ | hearlier
    · exact hsubmission
    · exact hdispatching.outbound request sent hearlier
  · dsimp only
    by_cases hnew : request = world.requests
    · rw [hnew, Function.update_self]
      exact Or.inl rfl
    · rw [Function.update_of_ne hnew]
      exact hdispatching.ended request other sent
        (Nat.lt_of_le_of_ne (Nat.le_of_lt_succ hrequest) hnew) hsent

/-- A request ends, and what is known of its task afterwards. -/
theorem Dispatching.close (hdispatching : Dispatching submissions world) {request : ℕ}
    {peer : PeerId} {task : ProjectTask} (houtbound : world.outbound request = some (peer, task))
    (hcommands : next.commands = world.commands) (hrequests : next.requests = world.requests)
    (hclosed : next.outbound = Function.update world.outbound request none)
    (hfailed : world.failedDispatches ⊆ next.failedDispatches)
    (hunderway : ∀ taskId, ResultUnderway world taskId → ResultUnderway next taskId)
    (htask : task.taskId ∈ next.failedDispatches ∨ ResultUnderway next task.taskId) :
    Dispatching submissions next := by
  constructor
  · rw [hcommands, hrequests]
    exact hdispatching.commands
  · rw [hrequests]
    exact hdispatching.requests
  · rw [hclosed]
    intro other sent hsent
    exact hdispatching.outbound other sent (Execution.of_update_none_eq_some hsent)
  · rw [hrequests, hclosed]
    intro other otherPeer sent hother hsent
    by_cases hself : other = request
    · rw [hself, hdispatching.outbound request _ houtbound, Option.some.injEq,
        Prod.mk.injEq] at hsent
      rw [← hsent.2]
      exact Or.inr htask
    · rw [Function.update_of_ne hself]
      exact (hdispatching.ended other otherPeer sent hother hsent).imp_right
        (Or.imp (@hfailed _) (hunderway sent.taskId))

theorem Dispatching.move (hdispatching : Dispatching submissions world)
    (hanswers : AnswersTask world action) (hmove : Move hasExecutor world action next) :
    Dispatching (submittedAfter submissions action) next := by
  cases hmove with
  | submit hnew => exact hdispatching.submit _ _
  | sendRequest hcommands => exact hdispatching.sendRequest hcommands
  | @respond request result peer task houtbound =>
    refine hdispatching.close houtbound rfl rfl rfl (List.Subset.refl _) ?_ ?_
    · exact fun taskId hunderway ↦ hunderway.mono (List.subset_append_left ..) rfl rfl
    · exact Or.inr (Or.inl ⟨peer, result, by simp, hanswers peer task houtbound⟩)
  | @failOutbound request error peer task houtbound =>
    have hgrows : world.failedDispatches ⊆
        if task.taskId ∈ world.client.results then world.failedDispatches
        else task.taskId :: world.failedDispatches := by
      split_ifs
      · exact List.Subset.refl _
      · exact List.subset_cons_self ..
    refine hdispatching.close houtbound rfl rfl rfl hgrows ?_ ?_
    · exact fun taskId hunderway ↦ hunderway.mono (List.subset_append_left ..) rfl rfl
    · by_cases hknown : task.taskId ∈ world.client.results
      · exact Or.inr (Or.inr (Or.inr hknown))
      · refine Or.inl ?_
        rw [if_neg hknown]
        exact List.mem_cons_self
  | exchange hstep =>
    refine hdispatching.of_same rfl rfl rfl rfl fun taskId hunderway ↦ ?_
    exact hunderway.mono (List.subset_append_left ..) rfl rfl
  | @handleEvent peer result rest hevents hidle =>
    refine hdispatching.of_same rfl rfl rfl rfl fun taskId hunderway ↦ ?_
    rcases hunderway with ⟨other, found, hmem, hsame⟩ | ⟨other, found, hrecording, -⟩ | hstored
    · rw [hevents] at hmem
      rcases List.mem_cons.mp hmem with hfirst | hlater
      · obtain ⟨rfl, rfl⟩ := Event.projectResultReceived.inj hfirst
        exact Or.inr (Or.inl ⟨other, found, rfl, hsame⟩)
      · exact Or.inl ⟨other, found, hlater, hsame⟩
    · rw [hidle] at hrecording
      cases hrecording
    · exact Or.inr (Or.inr hstored)
  | @insertResult peer result hrecording =>
    refine hdispatching.of_same rfl rfl rfl rfl fun taskId hunderway ↦ ?_
    rcases hunderway with hqueued | ⟨other, found, hfound, hsame⟩ | hstored
    · exact Or.inl hqueued
    · rw [hrecording, Option.some.injEq, Prod.mk.injEq] at hfound
      refine Or.inr (Or.inr (Finmap.mem_insert.mpr (Or.inl ?_)))
      rw [hfound.2, hsame]
    · exact Or.inr (Or.inr (Finmap.mem_insert.mpr (Or.inr hstored)))
  | insertDispatched hsubmitting =>
    exact hdispatching.of_same rfl rfl rfl rfl fun _ hunderway ↦ hunderway
  | advance => exact hdispatching.of_same rfl rfl rfl rfl fun _ hunderway ↦ hunderway

/-- The node has nothing left to do for its submissions. -/
structure Idle (world : World) : Prop where
  commands : world.commands = []
  outbound : ∀ request, world.outbound request = none
  events : world.events = []
  recording : world.recording = none

/-- A node that has nothing left to do has a result for every submission whose request did not
fail. -/
theorem Dispatching.settled (hdispatching : Dispatching submissions world) (hidle : Idle world)
    {peer : PeerId} {task : ProjectTask} (hsubmitted : (peer, task) ∈ submissions) :
    task.taskId ∈ world.client.results ∨ task.taskId ∈ world.failedDispatches := by
  have hall : submissions.length ≤ world.requests := by
    have hcommands := hdispatching.commands
    rw [hidle.commands, eq_comm, List.map_eq_nil_iff, List.drop_eq_nil_iff] at hcommands
    exact hcommands
  obtain ⟨request, hrequest⟩ := List.getElem?_of_mem hsubmitted
  have hnumber := (List.getElem?_eq_some_iff.mp hrequest).1
  rcases hdispatching.ended request peer task (lt_of_lt_of_le hnumber hall) hrequest with
    hopen | hfailed | ⟨other, result, hmem, -⟩ | ⟨other, result, hrecording, -⟩ | hstored
  · rw [hidle.outbound] at hopen
    cases hopen
  · exact Or.inr hfailed
  · rw [hidle.events] at hmem
    cases hmem
  · rw [hidle.recording] at hrecording
    cases hrecording
  · exact Or.inl hstored

/-! ## What the monitor records -/

/-- Every result that is queued, being recorded or recorded has a property. -/
structure Recording (reported : ProjectResult → Prop) (world : World) : Prop where
  queued : ∀ peer result, .projectResultReceived peer result ∈ world.events → reported result
  recording : ∀ peer result, world.recording = some (peer, result) → reported result
  stored : ∀ taskId result, world.client.results.lookup taskId = some result →
    result.taskId = taskId ∧ reported result

/-- An action brings the monitor a result. -/
def Brings (world : World) (result : ProjectResult) : Action → Prop
  | .respond _ response => response = result
  | .exchange action => ∃ peer, .projectResultReceived peer result ∈
      forwardedEvents world.exchange action
  | _ => False

/-- What a job forwards to the monitor was produced. -/
theorem forwarded_produced {exchange : Exchange} (hsound : ExactlyOnce.Sound exchange)
    {own : ExchangeAction} {peer : PeerId} {result : ProjectResult}
    (hforwarded : .projectResultReceived peer result ∈ forwardedEvents exchange own) :
    ∃ channel, (channel, result) ∈ exchange.produced := by
  cases own with
  | forward channel =>
    rw [forwardedEvents] at hforwarded
    split at hforwarded
    · next jobPeer task produced hjob =>
      obtain ⟨-, rfl⟩ := Event.projectResultReceived.inj (List.mem_singleton.mp hforwarded)
      exact ⟨channel, (hsound.jobs channel _ hjob).2.2 result rfl⟩
    · cases hforwarded
  | _ => cases hforwarded

variable {reported : ProjectResult → Prop}

theorem recording_start (now : Instant) : Recording reported { now := now } where
  queued _ _ hmem := by cases hmem
  recording _ _ hrecording := by cases hrecording
  stored _ _ hlookup := by cases hlookup

theorem Recording.mono {wider : ProjectResult → Prop} (hrecording : Recording reported world)
    (hwider : ∀ result, reported result → wider result) : Recording wider world where
  queued peer result hmem := hwider result (hrecording.queued peer result hmem)
  recording peer result hfound := hwider result (hrecording.recording peer result hfound)
  stored taskId result hlookup :=
    (hrecording.stored taskId result hlookup).imp_right (hwider result)

/-- More results in the queue. -/
theorem Recording.append (hrecording : Recording reported world) (events : List Event)
    (hbrings : ∀ peer result, .projectResultReceived peer result ∈ events → reported result)
    (hevents : next.events = world.events ++ events)
    (hnext : next.recording = world.recording) (hclient : next.client = world.client) :
    Recording reported next := by
  constructor
  · intro peer result hmem
    rw [hevents] at hmem
    rcases List.mem_append.mp hmem with hearlier | hnew
    · exact hrecording.queued peer result hearlier
    · exact hbrings peer result hnew
  · rw [hnext]
    exact hrecording.recording
  · rw [hclient]
    exact hrecording.stored

theorem Recording.move (hrecording : Recording reported world)
    (hbrings : ∀ result, Brings world result action → reported result)
    (hmove : Move hasExecutor world action next) : Recording reported next := by
  cases hmove with
  | @respond request result peer task houtbound =>
    refine hrecording.append [.projectResultReceived peer result] ?_ rfl rfl rfl
    intro other found hmem
    obtain ⟨-, rfl⟩ := Event.projectResultReceived.inj (List.mem_singleton.mp hmem)
    exact hbrings found rfl
  | exchange hstep =>
    refine hrecording.append _ ?_ rfl rfl rfl
    exact fun other found hmem ↦ hbrings found ⟨other, hmem⟩
  | failOutbound houtbound => exact hrecording.append [] nofun rfl rfl rfl
  | @handleEvent peer result rest hevents hidle =>
    have hqueued := hrecording.queued
    rw [hevents] at hqueued
    refine ⟨fun other found hmem ↦ ?_, fun other found hfound ↦ ?_, hrecording.stored⟩
    · exact hqueued other found (List.mem_cons_of_mem _ hmem)
    · obtain ⟨rfl, rfl⟩ := Prod.mk.inj (Option.some.inj hfound)
      exact hqueued peer result List.mem_cons_self
  | @insertResult peer result hfound =>
    refine ⟨hrecording.queued, nofun, fun taskId found hlookup ↦ ?_⟩
    rcases eq_or_of_lookup_insert_eq_some hlookup with ⟨rfl, rfl⟩ | hearlier
    · exact ⟨rfl, hrecording.recording peer found hfound⟩
    · exact hrecording.stored taskId found hearlier
  | submit hnew => exact ⟨hrecording.queued, hrecording.recording, hrecording.stored⟩
  | sendRequest hcommands => exact ⟨hrecording.queued, hrecording.recording, hrecording.stored⟩
  | insertDispatched hsubmitting =>
    exact ⟨hrecording.queued, hrecording.recording, hrecording.stored⟩
  | advance => exact ⟨hrecording.queued, hrecording.recording, hrecording.stored⟩

end EdgeOrchestrator.Node.ProjectTraffic

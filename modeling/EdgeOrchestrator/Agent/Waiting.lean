import EdgeOrchestrator.Agent.ClusterClient
import EdgeOrchestrator.Wire.Serde

/-!
# What the agent gets for a task

While the agent waits, the node takes results of executors and submits other tasks. At every call
the node reports the last result for the task, a failure when there is none and the grace period is
over, and otherwise that the task is pending. So the agent returns what is there at the first call
that finds the task answered or overdue.
-/

namespace EdgeOrchestrator.Agent

open BoundedRounds Node

/-- What changes the tasks of a node: a submission or a result. -/
inductive ClientEvent
  | dispatched (taskId : TaskId) (now : Instant)
  | recorded (result : ProjectResult) (now : Instant)
  deriving DecidableEq, Repr

def handleClientEvent (client : ProjectClient) : ClientEvent → ProjectClient
  | .dispatched taskId now => client.insertDispatched now taskId
  | .recorded result now => (client.insertDone now result).insertResult result

/-- The answer to a task after an event. -/
def answerAfter (taskId : TaskId) (answer : Option ProjectResult) :
    ClientEvent → Option ProjectResult
  | .recorded result _ => if result.taskId = taskId then some result else answer
  | .dispatched _ _ => answer

/-- The event does not submit the task. -/
def Spares (taskId : TaskId) : ClientEvent → Prop
  | .dispatched other _ => other ≠ taskId
  | .recorded _ _ => True

/-- The node has tracked the task since its submission. -/
structure Tracks (client : ProjectClient) (taskId : TaskId) (dispatchedAt : Instant)
    (answer : Option ProjectResult) : Prop where
  result : client.results.lookup taskId = answer
  waiting : answer = none → client.tasks.lookup taskId = some (.dispatched, dispatchedAt)
  done : ∀ found, answer = some found → ∃ doneAt, client.tasks.lookup taskId = some (.done, doneAt)

/-- The answer to a task stays as it was or is one of the results for the task. -/
theorem foldl_answerAfter_cases (taskId : TaskId) (events : List ClientEvent)
    (answer : Option ProjectResult) :
    events.foldl (answerAfter taskId) answer = answer ∨
      ∃ result now, .recorded result now ∈ events ∧ result.taskId = taskId ∧
        events.foldl (answerAfter taskId) answer = some result := by
  induction events generalizing answer with
  | nil => exact Or.inl rfl
  | cons event rest ih =>
    rw [List.foldl_cons]
    rcases ih (answerAfter taskId answer event) with hsame | ⟨result, now, hmem, hown, hlast⟩
    · rw [hsame]
      cases event with
      | dispatched other now => exact Or.inl rfl
      | recorded result now =>
        rw [answerAfter]
        split_ifs with hown
        · exact Or.inr ⟨result, now, List.mem_cons_self, hown, rfl⟩
        · exact Or.inl rfl
    · exact Or.inr ⟨result, now, List.mem_cons_of_mem event hmem, hown, hlast⟩

/-- The only result for a task is the answer to it. -/
theorem foldl_answerAfter_of_mem {taskId : TaskId} {response : ProjectResult} {now : Instant}
    {events : List ClientEvent}
    (hsame : ∀ result now, .recorded result now ∈ events → result.taskId = taskId →
      result = response)
    (hresponse : response.taskId = taskId) (hmem : .recorded response now ∈ events)
    (answer : Option ProjectResult) :
    events.foldl (answerAfter taskId) answer = some response := by
  obtain ⟨before, after, rfl⟩ := List.append_of_mem hmem
  rw [List.foldl_append, List.foldl_cons, answerAfter, if_pos hresponse]
  rcases foldl_answerAfter_cases taskId after (some response) with
    hkept | ⟨result, later, hafter, hown, hlast⟩
  · exact hkept
  · rw [hlast, hsame result later
      (List.mem_append_right before (List.mem_cons_of_mem _ hafter)) hown]

variable {taskId : TaskId} {dispatchedAt : Instant}

theorem Tracks.insertDispatched {client : ProjectClient} (now : Instant)
    (hfresh : client.results.lookup taskId = none) :
    Tracks (client.insertDispatched now taskId) taskId now none where
  result := hfresh
  waiting _ := Finmap.lookup_insert _
  done found hfound := by cases hfound

theorem Tracks.handleClientEvent {client : ProjectClient} {answer : Option ProjectResult}
    (htracks : Tracks client taskId dispatchedAt answer) {event : ClientEvent}
    (hspares : Spares taskId event) :
    Tracks (handleClientEvent client event) taskId dispatchedAt
      (answerAfter taskId answer event) := by
  cases event with
  | dispatched other now =>
    have hsame : (client.insertDispatched now other).tasks.lookup taskId =
        client.tasks.lookup taskId := Finmap.lookup_insert_of_ne _ (Ne.symm hspares)
    exact ⟨htracks.result, fun hnone ↦ hsame.trans (htracks.waiting hnone),
      fun found hfound ↦ (htracks.done found hfound).imp fun _ hdone ↦ hsame.trans hdone⟩
  | recorded result now =>
    rw [answerAfter]
    split_ifs with hown
    · rw [← hown]
      exact ⟨Finmap.lookup_insert _, fun hnone ↦ (by cases hnone),
        fun _ _ ↦ ⟨now, Finmap.lookup_insert _⟩⟩
    · have htask : (Agent.handleClientEvent client (.recorded result now)).tasks.lookup taskId =
          client.tasks.lookup taskId := Finmap.lookup_insert_of_ne _ (Ne.symm hown)
      have hresult : (Agent.handleClientEvent client (.recorded result now)).results.lookup taskId =
          client.results.lookup taskId := Finmap.lookup_insert_of_ne _ (Ne.symm hown)
      exact ⟨hresult.trans htracks.result, fun hnone ↦ htask.trans (htracks.waiting hnone),
        fun found hfound ↦ (htracks.done found hfound).imp fun _ hdone ↦ htask.trans hdone⟩

theorem Tracks.foldl {client : ProjectClient} {answer : Option ProjectResult}
    (htracks : Tracks client taskId dispatchedAt answer) {events : List ClientEvent}
    (hspares : ∀ event ∈ events, Spares taskId event) :
    Tracks (events.foldl Agent.handleClientEvent client) taskId dispatchedAt
      (events.foldl (answerAfter taskId) answer) := by
  induction events generalizing client answer with
  | nil => exact htracks
  | cons event rest ih =>
    rw [List.forall_mem_cons] at hspares
    exact ih (htracks.handleClientEvent hspares.1) hspares.2

/-- The reason for which an overdue task is reported as failed. -/
def overdue : String :=
  "no result within " ++ toString (Duration.asSecs resultGrace) ++
    "s (executor did not answer: check the execution node's logs and whether its project " ++
    "executor is reachable)"

/-- The report of a task that was dispatched once. -/
def report (base64 : Bytes → String) (dispatchedAt now : Instant) :
    Option ProjectResult → FetchReply
  | some result => .ofResult base64 result
  | none => if resultGrace < now - dispatchedAt then .failed overdue else .pending

/-- What the node reports of a task that it tracks. -/
theorem Tracks.fetchProjectResult {client : ProjectClient} {answer : Option ProjectResult}
    (htracks : Tracks client taskId dispatchedAt answer) (base64 : Bytes → String)
    (now : Instant) :
    fetchProjectResult base64 client now taskId = report base64 dispatchedAt now answer := by
  cases answer with
  | some result =>
    obtain ⟨doneAt, hdone⟩ := htracks.done result rfl
    exact fetchProjectResult_of_done base64 hdone htracks.result now
  | none =>
    have hwaiting := htracks.waiting rfl
    have hresult := htracks.result
    have hstatus : client.taskStatus now taskId =
        if resultGrace < now - dispatchedAt then .failed overdue else .dispatched := by
      rw [ProjectClient.taskStatus, hwaiting]
      rfl
    rw [Node.fetchProjectResult, hstatus, ProjectClient.getResult, hresult, report]
    split_ifs
    · rfl
    · rfl

/-! ## The calls of one wait -/

/-- A wait: the node when the task was submitted, what happens to its tasks before each call, and
the time and the request id of each call. -/
structure Wait where
  formats : Formats
  handler : JsonRpcHandler
  submitLocalProject : SubmitProjectParams → Option NodeId → Except CoreError TaskId
  client : ProjectClient
  taskId : TaskId
  dispatchedAt : Instant
  events : ℕ → List ClientEvent
  times : ℕ → Instant
  ids : ℕ → String

namespace Wait

variable (wait : Wait)

/-- What has happened to the tasks of the node at a call. -/
def eventsUntil (round : ℕ) : List ClientEvent := (List.range (round + 1)).flatMap wait.events

def clientAt (round : ℕ) : ProjectClient :=
  (wait.eventsUntil round).foldl handleClientEvent
    (wait.client.insertDispatched wait.dispatchedAt wait.taskId)

/-- The last result that came for the task before a call. -/
def answerAt (round : ℕ) : Option ProjectResult :=
  (wait.eventsUntil round).foldl (answerAfter wait.taskId) none

/-- The node at a call. -/
def handlerAt (round : ℕ) : JsonRpcHandler :=
  { wait.handler with projectClient := some (wait.clientAt round) }

/-- The request of a call. -/
def request (round : ℕ) : JsonRpcRequest where
  jsonrpc := "2.0"
  method := "fetch_project_result"
  params := fetchParams (Uuid.display wait.taskId)
  id := .string (wait.ids round)

/-- A call of `fetch_project_result`. -/
def fetch (taskId : String) (round : ℕ) : Except String Json :=
  rpc wait.formats
    (nodeSocket wait.formats (wait.handlerAt round) wait.submitLocalProject (wait.times round))
    "fetch_project_result" (fetchParams taskId) (wait.ids round)

/-- What `submit_and_wait` returns once the node has returned the task id. -/
def outcome : Except String Json :=
  submitAndWait (.ok (.object [("task_id", .string (Uuid.display wait.taskId))])) wait.fetch

/-- The reply of the node at a call. -/
def replyAt (round : ℕ) : FetchReply :=
  fetchProjectResult wait.formats.base64 (wait.clientAt round) (wait.times round) wait.taskId

/-- The task is new and is submitted once, and the lines of all calls are read back. -/
structure Sound : Prop where
  fresh : wait.client.results.lookup wait.taskId = none
  once : ∀ round, ∀ event ∈ wait.events round, Spares wait.taskId event
  parsesUuid : wait.formats.parseUuid (Uuid.display wait.taskId) = .ok wait.taskId
  readsRequest : ∀ round, ReadsLine wait.formats (callDocument "fetch_project_result"
    (fetchParams (Uuid.display wait.taskId)) (wait.ids round))
  readsResponse : ∀ round, ReadsLine wait.formats (JsonRpcResponse.toJson
    { result := some (wait.replyAt round).toJson, error := none, id := .string (wait.ids round) })

/-- Neither a result nor the end of the grace period came before a call. -/
def Quiet (round : ℕ) : Prop :=
  wait.answerAt round = none ∧ ¬ resultGrace < wait.times round - wait.dispatchedAt

variable {wait}

/-- What comes between two calls acts on the answer that was there at the first. -/
theorem answerAt_succ (round : ℕ) :
    wait.answerAt (round + 1) =
      (wait.events (round + 1)).foldl (answerAfter wait.taskId) (wait.answerAt round) := by
  rw [answerAt, eventsUntil, List.range_succ, List.flatMap_append, List.foldl_append,
    List.flatMap_singleton]
  rfl

/-- A result that comes for the task before one call, and nothing before or after it. -/
theorem answerAt_of_arrival {first : ℕ} {result : ProjectResult}
    (harrives : (wait.events first).foldl (answerAfter wait.taskId) none = some result)
    (hothers : ∀ round ≠ first, ∀ answer,
      (wait.events round).foldl (answerAfter wait.taskId) answer = answer) (round : ℕ) :
    wait.answerAt round = if round < first then none else some result := by
  have hzero : wait.answerAt 0 = (wait.events 0).foldl (answerAfter wait.taskId) none := by
    rw [answerAt, eventsUntil, Nat.zero_add, List.range_one, List.flatMap_singleton]
  induction round with
  | zero =>
    rw [hzero]
    by_cases hfirst : 0 = first
    · rw [hfirst, harrives, if_neg (Nat.lt_irrefl first)]
    · rw [hothers 0 hfirst, if_pos (Nat.pos_of_ne_zero (Ne.symm hfirst))]
  | succ round ih =>
    rw [answerAt_succ, ih]
    by_cases hfirst : round + 1 = first
    · rw [if_pos (Nat.lt_of_succ_le hfirst.le), hfirst, harrives, if_neg (Nat.lt_irrefl first)]
    · rw [hothers _ hfirst]
      exact if_congr (by omega) rfl rfl

theorem replyAt_of_once (hfresh : wait.client.results.lookup wait.taskId = none)
    (honce : ∀ round, ∀ event ∈ wait.events round, Spares wait.taskId event) (round : ℕ) :
    wait.replyAt round =
      report wait.formats.base64 wait.dispatchedAt (wait.times round) (wait.answerAt round) := by
  have hspares : ∀ event ∈ wait.eventsUntil round, Spares wait.taskId event := by
    intro event hmem
    obtain ⟨earlier, -, hevent⟩ := List.mem_flatMap.mp hmem
    exact honce earlier event hevent
  exact ((Tracks.insertDispatched wait.dispatchedAt hfresh).foldl hspares).fetchProjectResult
    wait.formats.base64 (wait.times round)

theorem Sound.replyAt (hsound : wait.Sound) (round : ℕ) :
    wait.replyAt round =
      report wait.formats.base64 wait.dispatchedAt (wait.times round) (wait.answerAt round) :=
  replyAt_of_once hsound.fresh hsound.once round

/-- The agent gets the reply of the node. -/
theorem Sound.fetch (hsound : wait.Sound) (round : ℕ) :
    wait.fetch (Uuid.display wait.taskId) round = .ok (wait.replyAt round).toJson := by
  have hhandled : (wait.handlerAt round).handle wait.formats wait.submitLocalProject
      (wait.times round) (wait.request round) =
        ⟨some (wait.replyAt round).toJson, none, .string (wait.ids round)⟩ := by
    simp only [JsonRpcHandler.handle, request, JsonRpcHandler.fetchProjectResult,
      fromValue_fetchParams, handlerAt, hsound.parsesUuid]
    rfl
  have hresponse := hsound.readsResponse round
  rw [← hhandled] at hresponse
  rw [request] at hhandled hresponse
  rw [Wait.fetch, rpc_nodeSocket (hsound.readsRequest round) hresponse, hhandled]
  rfl

variable (wait) in
/-- A round of the wait. -/
def round : ℕ → Unit → Except String Json ⊕ Unit :=
  pollRound (Uuid.display wait.taskId) (wait.fetch (Uuid.display wait.taskId))

/-- A call that finds the task answered ends the wait with the result. -/
theorem Sound.round_of_answered (hsound : wait.Sound) {round : ℕ} {result : ProjectResult}
    (hanswer : wait.answerAt round = some result) :
    wait.round round () = .inl (.ok (FetchReply.ofResult wait.formats.base64 result).toJson) := by
  simp only [Wait.round, pollRound, hsound.fetch, hsound.replyAt, hanswer, report]
  rfl

/-- A call that finds the task overdue ends the wait with the reason. -/
theorem Sound.round_of_overdue (hsound : wait.Sound) {round : ℕ}
    (hanswer : wait.answerAt round = none)
    (hoverdue : resultGrace < wait.times round - wait.dispatchedAt) :
    wait.round round () = .inl (.error ("task " ++ Uuid.display wait.taskId ++
      " failed on the cluster: " ++ overdue)) := by
  simp only [Wait.round, pollRound, hsound.fetch, hsound.replyAt, hanswer, report, if_pos hoverdue]
  rfl

theorem Sound.round_of_quiet (hsound : wait.Sound) {round : ℕ} (hquiet : wait.Quiet round) :
    wait.round round () = .inr () := by
  simp only [Wait.round, pollRound, hsound.fetch, hsound.replyAt, hquiet.1, report,
    if_neg hquiet.2]
  rfl

/-- The wait goes on exactly after the quiet calls. -/
theorem Sound.quiet_of_round (hsound : wait.Sound) {round : ℕ}
    (hround : wait.round round () = .inr ()) : wait.Quiet round := by
  cases hanswer : wait.answerAt round with
  | some result =>
    rw [hsound.round_of_answered hanswer] at hround
    cases hround
  | none =>
    refine ⟨hanswer, fun hoverdue ↦ ?_⟩
    rw [hsound.round_of_overdue hanswer hoverdue] at hround
    cases hround

/-- The agent returns the result that is there at the first call that finds one, and the reason of
the node when the grace period is over before that. Otherwise it gives up after the last call. -/
theorem outcome_cases (hsound : wait.Sound) :
    (∃ round < maxPolls, (∀ earlier < round, wait.Quiet earlier) ∧
      ((∃ result, wait.answerAt round = some result ∧
          wait.outcome = .ok (FetchReply.ofResult wait.formats.base64 result).toJson) ∨
        wait.answerAt round = none ∧ resultGrace < wait.times round - wait.dispatchedAt ∧
          wait.outcome = .error ("task " ++ Uuid.display wait.taskId ++
            " failed on the cluster: " ++ overdue))) ∨
      (∀ round < maxPolls, wait.Quiet round) ∧
        wait.outcome = .error (timedOut (Uuid.display wait.taskId)) := by
  have houtcome : wait.outcome =
      run wait.round (fun _ ↦ .error (timedOut (Uuid.display wait.taskId))) maxPolls 0 () := rfl
  have hearlier : ∀ {round : ℕ}, Begins wait.round () round () →
      ∀ earlier < round, wait.Quiet earlier := by
    intro round hbegins earlier hlt
    obtain ⟨_, _, -, hstep⟩ := hbegins.earlier hlt
    exact hsound.quiet_of_round hstep
  rcases ends_or_exhausted wait.round () maxPolls with ⟨round, hround, _, result, hbegins, hends⟩ |
    ⟨_, hbegins⟩
  · left
    refine ⟨round, hround, hearlier hbegins, ?_⟩
    have hresult : wait.outcome = result := houtcome.trans (hbegins.run_of_inl hround hends)
    cases hanswer : wait.answerAt round with
    | some answer =>
      rw [hsound.round_of_answered hanswer] at hends
      exact Or.inl ⟨answer, rfl, hresult.trans (Sum.inl.inj hends).symm⟩
    | none =>
      by_cases hoverdue : resultGrace < wait.times round - wait.dispatchedAt
      · rw [hsound.round_of_overdue hanswer hoverdue] at hends
        exact Or.inr ⟨rfl, hoverdue, hresult.trans (Sum.inl.inj hends).symm⟩
      · rw [hsound.round_of_quiet ⟨hanswer, hoverdue⟩] at hends
        cases hends
  · right
    exact ⟨hearlier hbegins, houtcome.trans hbegins.run_exhausted⟩

/-- The wait lasts as long as the calls are quiet, and ends with the first result. -/
theorem Sound.outcome_of_answered (hsound : wait.Sound) {round : ℕ} {result : ProjectResult}
    (hround : round < maxPolls) (hquiet : ∀ earlier < round, wait.Quiet earlier)
    (hanswer : wait.answerAt round = some result) :
    wait.outcome = .ok (FetchReply.ofResult wait.formats.base64 result).toJson := by
  have hbegins : ∀ later ≤ round, Begins wait.round () later () := by
    intro later hlater
    induction later with
    | zero => exact .start
    | succ earlier ih =>
      exact (ih (Nat.le_of_succ_le hlater)).again (hsound.round_of_quiet (hquiet earlier hlater))
  exact (hbegins round le_rfl).run_of_inl hround (hsound.round_of_answered hanswer)

/-- Without a result the wait ends with an error. -/
theorem Sound.outcome_of_unanswered (hsound : wait.Sound)
    (hnone : ∀ round, wait.answerAt round = none) : ∃ error, wait.outcome = .error error := by
  rcases ends_or_exhausted wait.round () maxPolls with ⟨round, hround, _, result, hbegins, hends⟩ |
    ⟨_, hbegins⟩
  · by_cases hoverdue : resultGrace < wait.times round - wait.dispatchedAt
    · exact ⟨_, hbegins.run_of_inl hround (hsound.round_of_overdue (hnone round) hoverdue)⟩
    · have hgoesOn := hsound.round_of_quiet ⟨hnone round, hoverdue⟩
      rw [hends] at hgoesOn
      cases hgoesOn
  · exact ⟨_, hbegins.run_exhausted⟩

end Wait

/-! ## One wait -/

/-- The crates as far as some objects and some UUIDs need them. -/
def formatsOf (documents : List Json) (uuids : List Uuid) (base64 : Bytes → String) :
    Formats where
  parseJson text := documents.find? fun document ↦ Wire.Serde.compact document == text
  printJson := Wire.Serde.compact
  requestError _ := "expected value"
  paramsError _ _ := "missing field"
  parseUuid text :=
    match uuids.find? fun uuid ↦ uuid.display == text with
    | some uuid => .ok uuid
    | none => .error "invalid character"
  base64 := base64

/-- The line break behind an object is trimmed. -/
theorem trim_compact_object (members : List (String × Json)) :
    trim (Wire.Serde.compact (.object members) ++ "\n") = Wire.Serde.compact (.object members) := by
  have hlist : (Wire.Serde.compact (.object members)).toList =
      '\x7b' :: (Wire.Serde.compactMembers members).toList ++ ['\x7d'] := by
    rw [Wire.Serde.compact, String.toList_append, String.toList_append]
    rfl
  have hline : (Wire.Serde.compact (.object members) ++ "\n").toList =
      '\x7b' :: ((Wire.Serde.compactMembers members).toList ++ ['\x7d'] ++ ['\n']) := by
    rw [String.toList_append, hlist]
    rfl
  rw [trim, hline, List.dropWhile_cons_of_neg (by decide), ← List.cons_append,
    List.rdropWhile_concat_pos _ _ _ (by decide), ← List.cons_append,
    List.rdropWhile_concat_neg _ _ _ (by decide), ← hlist, String.ofList_toList]

theorem readsLine_formatsOf {documents : List Json} (uuids : List Uuid) (base64 : Bytes → String)
    (happart : documents.Pairwise Wire.Serde.Apart) {members : List (String × Json)}
    (hmem : .object members ∈ documents) :
    ReadsLine (formatsOf documents uuids base64) (.object members) := by
  have htrim : trim ((formatsOf documents uuids base64).printJson (.object members) ++ "\n") =
      Wire.Serde.compact (.object members) := trim_compact_object members
  rw [ReadsLine, htrim]
  change (documents.find? fun document ↦
    Wire.Serde.compact document == Wire.Serde.compact (.object members)) = _
  cases hfound : documents.find? fun document ↦
      Wire.Serde.compact document == Wire.Serde.compact (.object members) with
  | none => simpa using List.find?_eq_none.mp hfound _ hmem
  | some found =>
    have hequal : Wire.Serde.compact found = Wire.Serde.compact (.object members) := by
      simpa using List.find?_some hfound
    by_contra hne
    have hother := happart.forall (List.mem_of_find?_eq_some hfound) hmem fun hsame ↦
      hne (congrArg some hsame)
    exact hother.1 (hequal ▸ List.prefix_rfl)

theorem parseUuid_formatsOf (documents : List Json) (uuid : Uuid) (base64 : Bytes → String) :
    (formatsOf documents [uuid] base64).parseUuid (Uuid.display uuid) = .ok uuid := by
  simp [formatsOf]

/-- What is read on the socket while the agent waits with one request id: the request, and the two
replies. -/
def waitLines (base64 : Bytes → String) (id : String) (result : ProjectResult) : List Json :=
  [callDocument "fetch_project_result" (fetchParams (Uuid.display result.taskId)) id,
    JsonRpcResponse.toJson ⟨some FetchReply.pending.toJson, none, .string id⟩,
    JsonRpcResponse.toJson ⟨some (FetchReply.ofResult base64 result).toJson, none, .string id⟩]

/-- A wait that is told nothing or the result is sound when its lines are told apart. -/
theorem Wait.sound_of_lines {wait : Wait} {base64 : Bytes → String} {id : String}
    {result : ProjectResult}
    (hformats : wait.formats = formatsOf (waitLines base64 id result) [wait.taskId] base64)
    (happart : (waitLines base64 id result).Pairwise Wire.Serde.Apart)
    (hids : ∀ round, wait.ids round = id) (htask : result.taskId = wait.taskId)
    (hfresh : wait.client.results.lookup wait.taskId = none)
    (honce : ∀ round, ∀ event ∈ wait.events round, Spares wait.taskId event)
    (hreply : ∀ round, wait.replyAt round = .pending ∨
      wait.replyAt round = FetchReply.ofResult base64 result) : wait.Sound where
  fresh := hfresh
  once := honce
  parsesUuid := by
    rw [hformats]
    exact parseUuid_formatsOf _ wait.taskId base64
  readsRequest round := by
    rw [hformats, hids, ← htask]
    exact readsLine_formatsOf _ base64 happart List.mem_cons_self
  readsResponse round := by
    rw [hformats, hids]
    rcases hreply round with hpending | hresult
    · rw [hpending]
      exact readsLine_formatsOf _ base64 happart (List.mem_cons_of_mem _ List.mem_cons_self)
    · rw [hresult]
      exact readsLine_formatsOf _ base64 happart
        (List.mem_cons_of_mem _ (List.mem_cons_of_mem _ (List.mem_singleton_self _)))

def smallResult : ProjectResult where
  taskId := 5
  exitCode := 0
  stdout := []
  stderr := []
  executionTimeMs := 1200
  executedOn := 3

/-- A wait for a task whose result comes between the first call and the second. -/
def smallWait : Wait where
  formats := formatsOf (waitLines (fun _ ↦ "") "a" smallResult) [5] fun _ ↦ ""
  handler := {}
  submitLocalProject _ _ := .ok 5
  client := {}
  taskId := 5
  dispatchedAt := 0
  events round := if round = 1 then [.recorded smallResult 4] else [.dispatched 6 round]
  times round := Duration.fromSecs (3 * (round + 1))
  ids _ := "a"

theorem once_smallWait (round : ℕ) :
    ∀ event ∈ smallWait.events round, Spares smallWait.taskId event := by
  intro event hmem
  change event ∈ if round = 1 then [.recorded smallResult 4] else [.dispatched 6 round] at hmem
  split_ifs at hmem
  · rw [List.mem_singleton.mp hmem]
    trivial
  · rw [List.mem_singleton.mp hmem]
    exact (by decide : (6 : TaskId) ≠ 5)

theorem answerAt_smallWait (round : ℕ) :
    smallWait.answerAt round = if round < 1 then none else some smallResult := by
  apply Wait.answerAt_of_arrival rfl
  intro other hother answer
  have hevents : smallWait.events other = [.dispatched 6 other] := if_neg hother
  rw [hevents]
  rfl

theorem sound_smallWait : smallWait.Sound := by
  refine Wait.sound_of_lines rfl (by decide +kernel) (fun _ ↦ rfl) rfl rfl once_smallWait ?_
  intro round
  rw [Wait.replyAt_of_once rfl once_smallWait, answerAt_smallWait]
  split_ifs with hfirst
  · have hearly : ¬ resultGrace < smallWait.times 0 - smallWait.dispatchedAt := by decide
    rw [Nat.lt_one_iff.mp hfirst, report, if_neg hearly]
    exact Or.inl rfl
  · exact Or.inr rfl

/-- The first call is quiet and the second finds the result. -/
theorem outcome_smallWait :
    smallWait.Quiet 0 ∧
      smallWait.outcome = .ok (FetchReply.ofResult (fun _ ↦ "") smallResult).toJson := by
  have hquiet : smallWait.Quiet 0 := ⟨answerAt_smallWait 0, by decide⟩
  refine ⟨hquiet, ?_⟩
  rcases Wait.outcome_cases sound_smallWait with
    ⟨round, -, -, ⟨result, hanswer, houtcome⟩ | ⟨hnone, hoverdue, -⟩⟩ | ⟨hquiet, -⟩
  · rw [answerAt_smallWait] at hanswer
    split_ifs at hanswer
    rw [houtcome, ← Option.some.inj hanswer]
    rfl
  · rw [answerAt_smallWait] at hnone
    split_ifs at hnone with hfirst
    exact absurd (Nat.lt_one_iff.mp hfirst ▸ hoverdue) hquiet.2
  · have hnone := (hquiet 1 (by decide)).1
    rw [answerAt_smallWait] at hnone
    cases hnone

end EdgeOrchestrator.Agent

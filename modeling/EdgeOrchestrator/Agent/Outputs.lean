import EdgeOrchestrator.Agent.Attempts
import EdgeOrchestrator.Agent.Waiting
import EdgeOrchestrator.Core.Text
import EdgeOrchestrator.Foundation.Base64
import EdgeOrchestrator.Wire.ResultDelivery

/-!
# What the agent shows of the output

The output of a project crosses the wire as arrays of numbers, and the socket as Base64. The agent
decodes it and shows its last lines. Output of up to sixteen MiB gets through whatever its bytes
are, and output of thirty-two MiB never does. The submitting node learns nothing of a result that
exceeds the cap, so the agent then waits until the grace period is over.
-/

namespace EdgeOrchestrator.Agent

open Node P2P Storage Wire Wire.Serde

/-! ## The analysis of a result -/

section Analysis

variable (decodeBase64 : String → Option Bytes)

/-- `decode` -/
def decodeOutput (output : String) : String :=
  match decodeBase64 output with
  | some bytes => fromUtf8Lossy bytes
  | none => ""

/-- The last lines of a text. -/
def tail (text : String) (count : ℕ) : String :=
  "\n".intercalate ((lines text).drop ((lines text).length - count))

def heuristicText (code : ℤ) (stdout stderr : String) : String :=
  if code = 0 then "success (exit 0). last output:\n" ++ tail stdout 5
  else "failure (exit " ++ toString code ++ "). stderr tail:\n" ++ tail stderr 15

def heuristicAnalysis (result : Json) : String :=
  heuristicText (exitCodeOf result)
    (decodeOutput decodeBase64 (textOr (index result "stdout") ""))
    (decodeOutput decodeBase64 (textOr (index result "stderr") ""))

/-- What `llm_analysis` tells the language model. -/
def promptText (code : ℤ) (stdout stderr : String) : String :=
  "exit_code: " ++ toString code ++ "\nstdout tail:\n" ++ tail stdout 30 ++ "\nstderr tail:\n" ++
    tail stderr 30

def analysisPrompt (result : Json) : String :=
  promptText (exitCodeOf result)
    (decodeOutput decodeBase64 (textOr (index result "stdout") ""))
    (decodeOutput decodeBase64 (textOr (index result "stderr") ""))

/-- The analysis of an attempt, given the language model if one is configured. -/
def analysis (llm : Option (String → Except String String)) (result : Json) : String :=
  match llm with
  | none => heuristicAnalysis decodeBase64 result
  | some chat =>
    match chat (analysisPrompt decodeBase64 result) with
    | .ok answer => answer
    | .error _ => heuristicAnalysis decodeBase64 result

end Analysis

/-- The analysis of a result without a language model. -/
def shown (result : ProjectResult) : String :=
  heuristicText result.exitCode (fromUtf8Lossy result.stdout) (fromUtf8Lossy result.stderr)

/-- What the language model is told of a result. -/
def told (result : ProjectResult) : String :=
  promptText result.exitCode (fromUtf8Lossy result.stdout) (fromUtf8Lossy result.stderr)

/-- The tail of printed lines. -/
theorem tail_printed {content : List String} (hlines : ∀ line ∈ content, IsLine line)
    (count : ℕ) :
    tail (printed content) count = "\n".intercalate (content.drop (content.length - count)) := by
  rw [tail, lines_printed hlines]

section Reply

variable {decodeBase64 : String → Option Bytes} {base64 : Bytes → String}

theorem exitCodeOf_ofResult {result : ProjectResult} (hcode : (signed 32).Valid result.exitCode) :
    exitCodeOf (FetchReply.ofResult base64 result).toJson = result.exitCode := by
  have hindex : index (FetchReply.ofResult base64 result).toJson "exit_code" =
      .integer result.exitCode := rfl
  have hlow : -2 ^ 31 ≤ result.exitCode := hcode.1
  have hhigh : result.exitCode < 2 ^ 31 := hcode.2
  rw [exitCodeOf, hindex]
  exact if_pos ⟨by omega, by omega⟩

theorem decodeOutput_ofResult (hbase64 : ∀ bytes, decodeBase64 (base64 bytes) = some bytes)
    (result : ProjectResult) :
    decodeOutput decodeBase64
        (textOr (index (FetchReply.ofResult base64 result).toJson "stdout") "") =
      fromUtf8Lossy result.stdout ∧
    decodeOutput decodeBase64
        (textOr (index (FetchReply.ofResult base64 result).toJson "stderr") "") =
      fromUtf8Lossy result.stderr := by
  have hstdout : textOr (index (FetchReply.ofResult base64 result).toJson "stdout") "" =
      base64 result.stdout := rfl
  have hstderr : textOr (index (FetchReply.ofResult base64 result).toJson "stderr") "" =
      base64 result.stderr := rfl
  rw [hstdout, hstderr, decodeOutput, decodeOutput, hbase64, hbase64]
  exact ⟨rfl, rfl⟩

/-- The analysis and the prompt depend on the reply through its exit code and output only. -/
theorem analysis_ofResult (hbase64 : ∀ bytes, decodeBase64 (base64 bytes) = some bytes)
    {result : ProjectResult} (hcode : (signed 32).Valid result.exitCode) :
    heuristicAnalysis decodeBase64 (FetchReply.ofResult base64 result).toJson = shown result ∧
      analysisPrompt decodeBase64 (FetchReply.ofResult base64 result).toJson = told result := by
  obtain ⟨hstdout, hstderr⟩ := decodeOutput_ofResult hbase64 result
  have hexitCode : exitCodeOf (FetchReply.ofResult base64 result).toJson = result.exitCode :=
    exitCodeOf_ofResult hcode
  exact ⟨congr (congr (congrArg heuristicText hexitCode) hstdout) hstderr,
    congr (congr (congrArg promptText hexitCode) hstdout) hstderr⟩

end Reply

/-! ## The submitting node while the agent waits -/

/-- What the submitting node does between two calls: it handles an event, or it notes that it
submitted a task. -/
inductive NodeStep
  | event (event : Event) (fault : Option WriteFault) (now : Instant)
  | submitted (taskId : TaskId) (now : Instant)

section Node

variable (primitives : Primitives)

def handleNodeStep (monitor : EventMonitor) : NodeStep → EventMonitor
  | .event event fault now => (monitor.handleEvent primitives fault now event).1
  | .submitted taskId now =>
    { monitor with projectClient := monitor.projectClient.insertDispatched now taskId }

/-- What a step means for the tasks of the node. -/
def clientEvent : NodeStep → Option ClientEvent
  | .event (.projectResultReceived _ result) _ now => some (.recorded result now)
  | .event _ _ _ => none
  | .submitted taskId now => some (.dispatched taskId now)

theorem projectClient_handleNodeStep (monitor : EventMonitor) (label : NodeStep) :
    (handleNodeStep primitives monitor label).projectClient =
      (clientEvent label).toList.foldl handleClientEvent monitor.projectClient := by
  cases label with
  | submitted taskId now => rfl
  | event event fault now => cases event <;> rfl

theorem projectClient_foldl (monitor : EventMonitor) (steps : List NodeStep) :
    (steps.foldl (handleNodeStep primitives) monitor).projectClient =
      (steps.filterMap clientEvent).foldl handleClientEvent monitor.projectClient := by
  induction steps generalizing monitor with
  | nil => rfl
  | cons label rest ih =>
    rw [List.foldl_cons, ih, projectClient_handleNodeStep, List.filterMap_cons]
    cases clientEvent label with
    | none => rfl
    | some event => rfl

end Node

/-- A wait on a node: the monitor when the task was submitted, and the steps before each call. -/
structure NodeWait where
  primitives : Primitives
  monitor : EventMonitor
  steps : ℕ → List NodeStep
  formats : Formats
  submitLocalProject : SubmitProjectParams → Option NodeId → Except CoreError TaskId
  taskId : TaskId
  dispatchedAt : Instant
  times : ℕ → Instant
  ids : ℕ → String

namespace NodeWait

variable (nodeWait : NodeWait)

/-- The wait as far as the tasks of the node go. -/
def wait : Wait where
  formats := nodeWait.formats
  handler := {}
  submitLocalProject := nodeWait.submitLocalProject
  client := nodeWait.monitor.projectClient
  taskId := nodeWait.taskId
  dispatchedAt := nodeWait.dispatchedAt
  events round := (nodeWait.steps round).filterMap clientEvent
  times := nodeWait.times
  ids := nodeWait.ids

/-- The monitor at a call. -/
def monitorAt (round : ℕ) : EventMonitor :=
  ((List.range (round + 1)).flatMap nodeWait.steps).foldl (handleNodeStep nodeWait.primitives)
    (handleNodeStep nodeWait.primitives nodeWait.monitor
      (.submitted nodeWait.taskId nodeWait.dispatchedAt))

/-- The agent is answered from what the monitor holds. -/
theorem clientAt_wait (round : ℕ) :
    nodeWait.wait.clientAt round = (nodeWait.monitorAt round).projectClient := by
  rw [monitorAt, projectClient_foldl, Wait.clientAt, Wait.eventsUntil, List.filterMap_flatMap]
  rfl

/-- What reaches the node for the task is the answer of one executing node. -/
def OnlyAnswer (answer : List Event) : Prop :=
  ∀ round event fault now, .event event fault now ∈ nodeWait.steps round →
    ∀ peer result, event = .projectResultReceived peer result → result.taskId = nodeWait.taskId →
      event ∈ answer

variable {nodeWait}

theorem mem_answer_of_recorded {answer : List Event} (honly : nodeWait.OnlyAnswer answer)
    {round : ℕ} {result : ProjectResult} {now : Instant}
    (hmem : .recorded result now ∈ nodeWait.wait.eventsUntil round)
    (htask : result.taskId = nodeWait.taskId) :
    ∃ peer, .projectResultReceived peer result ∈ answer := by
  obtain ⟨earlier, -, hevent⟩ := List.mem_flatMap.mp hmem
  obtain ⟨label, hlabel, hclient⟩ := List.mem_filterMap.mp hevent
  cases label with
  | submitted other at_ => cases hclient
  | event event fault at_ =>
    cases event with
    | projectResultReceived peer other =>
      cases hclient
      exact ⟨peer, honly earlier _ fault _ hlabel peer result rfl htask⟩
    | _ => cases hclient

end NodeWait

variable {text : SerdeReader} {forms : TextForms} {submitter : SwarmContext}
  {executorPeer : PeerId}

/-- The agent shows the end of the output of a run, or of the error of the executing node, whatever
else happens on the submitting node and whenever the answer comes. If the answer exceeds its cap,
the agent gets an error in the end. -/
theorem outputs_reach_agent {nodeWait : NodeWait} {primitives : Primitives}
    {unpackTar : Bytes → Path → Outcome CoreError Unit} {store : LocalObjectStore}
    {task : ProjectTask} {ensured : Except CoreError Bytes} {projectDir : Except String Path}
    {selfNodeId : NodeId} {execution : Except CoreError ExecutionResult}
    {executed : Except String ProjectResult} {decodeBase64 : String → Option Bytes}
    (hsound : nodeWait.wait.Sound) (htask : task.taskId = nodeWait.taskId)
    (hexecuted : JobReturns (QleanProjectExecutor.run primitives unpackTar store task ensured
      projectDir (resultOf selfNodeId task execution)) executed)
    (hreadable : Readable text forms .projectResponse (jobResult task executed))
    (hbase64 : ∀ bytes, decodeBase64 (nodeWait.formats.base64 bytes) = some bytes)
    (honly : nodeWait.OnlyAnswer
      (answerEvents text forms submitter executorPeer (jobResult task executed))) :
    let response := jobResult task executed
    (FitsResponse forms response → ∀ round < maxPolls,
      (∀ earlier < round, nodeWait.wait.Quiet earlier) →
        (∃ fault now, .event (.projectResultReceived executorPeer response) fault now ∈
          nodeWait.steps round) →
        ∃ reply, nodeWait.wait.outcome = .ok reply ∧ exitCodeOf reply = response.exitCode ∧
          heuristicAnalysis decodeBase64 reply = shown response ∧
          analysisPrompt decodeBase64 reply = told response) ∧
    (¬ FitsResponse forms response → ∃ error, nodeWait.wait.outcome = .error error) ∧
    (∀ error, executed = .error error →
      shown response = "failure (exit 1). stderr tail:\n" ++ tail error 15) ∧
    (outputLength response + 48 ≤ 16 * 1024 * 1024 → FitsResponse forms response) ∧
    (32 * 1024 * 1024 ≤ outputLength response → ¬ FitsResponse forms response) := by
  intro response
  have hcode : (signed 32).Valid response.exitCode := hreadable.valid.2.1
  have hresponse : response.taskId = nodeWait.taskId := (taskId_jobResult hexecuted).trans htask
  rw [answerEvents_eq hreadable] at honly
  refine ⟨fun hfits round hround hquiet harrives ↦ ?_, fun hlong ↦ ?_, fun error herror ↦ ?_,
    fitsResponse_of_valid hreadable.valid⟩
  · obtain ⟨fault, now, hmem⟩ := harrives
    rw [if_pos hfits] at honly
    have hsame : ∀ result now, .recorded result now ∈ nodeWait.wait.eventsUntil round →
        result.taskId = nodeWait.taskId → result = response := by
      intro result now hrecorded hown
      obtain ⟨peer, hanswer⟩ := NodeWait.mem_answer_of_recorded honly hrecorded hown
      cases List.mem_singleton.mp hanswer
      rfl
    have harrived : .recorded response now ∈ nodeWait.wait.eventsUntil round :=
      List.mem_flatMap.mpr ⟨round, List.self_mem_range_succ,
        List.mem_filterMap.mpr ⟨_, hmem, rfl⟩⟩
    have hanswer : nodeWait.wait.answerAt round = some response :=
      foldl_answerAfter_of_mem hsame hresponse harrived none
    exact ⟨_, hsound.outcome_of_answered hround hquiet hanswer, exitCodeOf_ofResult hcode,
      analysis_ofResult hbase64 hcode⟩
  · rw [if_neg hlong] at honly
    refine hsound.outcome_of_unanswered fun round ↦ ?_
    rcases foldl_answerAfter_cases nodeWait.taskId (nodeWait.wait.eventsUntil round) none with
      hnone | ⟨result, now, hrecorded, hown, -⟩
    · exact hnone
    · obtain ⟨peer, hanswer⟩ := NodeWait.mem_answer_of_recorded honly hrecorded hown
      cases hanswer
  · have hfailure : response = projectFailure task 1 error := congrArg (jobResult task) herror
    rw [hfailure, shown, projectFailure, heuristicText, if_neg one_ne_zero, fromUtf8Lossy_utf8]
    rfl

/-! ## One line of output -/

def standardBase64 (bytes : Bytes) : String := String.ofList (Base64.standard.encode bytes)

def fromStandardBase64 (text : String) : Option Bytes := Base64.standard.decode text.toList

theorem fromStandardBase64_standardBase64 (bytes : Bytes) :
    fromStandardBase64 (standardBase64 bytes) = some bytes := by
  rw [fromStandardBase64, standardBase64, String.toList_ofList, Base64.Alphabet.decode_encode]

/-- A task that came with its snapshot. -/
def lineTask : ProjectTask where
  taskId := 5
  snapshot := ⟨"", [1]⟩
  workDir := "/root/project"
  buildCmd := []
  runCmd := ["./app"]
  timeoutMs := 1000
  resourceLimits := ⟨1024, 30000, 100, false, 64⟩
  pinnedNode := none

def lineExecution : ExecutionResult := ⟨0, utf8 "ok\n", [], 1200, 0, none⟩

def lineResult : ProjectResult := ⟨5, 0, utf8 "ok\n", [], 1200, 3⟩

/-- A wait for the line, which comes between the first call and the second. -/
def lineWait : NodeWait where
  primitives := tabulated
  monitor := { cas := { store := ⟨[], ∅⟩ } }
  steps round :=
    if round = 1 then [.event (.projectResultReceived ⟨[7]⟩ lineResult) none 4]
    else [.submitted 6 round]
  formats := formatsOf (waitLines standardBase64 "a" lineResult) [5] standardBase64
  submitLocalProject _ _ := .ok 5
  taskId := 5
  dispatchedAt := 0
  times round := Duration.fromSecs (3 * (round + 1))
  ids _ := "a"

theorem steps_lineWait (round : ℕ) : lineWait.steps round =
    if round = 1 then [.event (.projectResultReceived ⟨[7]⟩ lineResult) none 4]
    else [.submitted 6 round] := rfl

theorem events_lineWait (round : ℕ) : lineWait.wait.events round =
    if round = 1 then [.recorded lineResult 4] else [.dispatched 6 round] := by
  change (lineWait.steps round).filterMap clientEvent = _
  rw [steps_lineWait]
  split_ifs
  · rfl
  · rfl

theorem answerAt_lineWait (round : ℕ) :
    lineWait.wait.answerAt round = if round < 1 then none else some lineResult := by
  apply Wait.answerAt_of_arrival rfl
  intro other hother answer
  rw [events_lineWait, if_neg hother]
  rfl

theorem sound_lineWait : lineWait.wait.Sound := by
  have honce : ∀ round, ∀ event ∈ lineWait.wait.events round,
      Spares lineWait.wait.taskId event := by
    intro round event hmem
    rw [events_lineWait] at hmem
    split_ifs at hmem
    · rw [List.mem_singleton.mp hmem]
      trivial
    · rw [List.mem_singleton.mp hmem]
      exact (by decide : (6 : TaskId) ≠ 5)
  refine Wait.sound_of_lines rfl (by decide +kernel) (fun _ ↦ rfl) rfl rfl honce ?_
  intro round
  rw [Wait.replyAt_of_once rfl honce, answerAt_lineWait]
  split_ifs with hfirst
  · have hearly : ¬ resultGrace < lineWait.wait.times 0 - lineWait.wait.dispatchedAt := by decide
    rw [Nat.lt_one_iff.mp hfirst, report, if_neg hearly]
    exact Or.inl rfl
  · exact Or.inr rfl

def lineForms : TextForms := textFormsOf [5, 3] ⟨0⟩ ""

theorem readable_lineResult :
    Readable (textOf [(projectResult lineForms).encode lineResult]) lineForms .projectResponse
      lineResult where
  valid := by
    have htask : lineForms.parseUuid (Uuid.display 5) = some 5 :=
      parseUuid_textFormsOf (by decide)
    have hnode : lineForms.parseUuid (Uuid.display 3) = some 3 :=
      parseUuid_textFormsOf (by decide)
    have hcode : (signed 32).Valid 0 := ⟨by decide, by decide⟩
    have htime : (unsigned 64).Valid 1200 := (by decide : 1200 < 2 ^ 64)
    exact ⟨htask, hcode, fun _ _ ↦ trivial, fun _ _ ↦ trivial, htime, hnode, trivial⟩
  readsBack := readsBack_textOf (List.pairwise_singleton Apart _) List.mem_cons_self

theorem shown_lineResult : shown lineResult = "success (exit 0). last output:\nok" := by
  have hcode : lineResult.exitCode = 0 := rfl
  have hstdout : lineResult.stdout = utf8 (printed ["ok"]) := rfl
  have hline : ∀ line ∈ ["ok"], IsLine line := by decide
  rw [shown, heuristicText, if_pos hcode, hstdout, fromUtf8Lossy_utf8, tail_printed hline]
  rfl

theorem outputs_reach_agent_lineWait :
    ∃ reply, lineWait.wait.outcome = .ok reply ∧ exitCodeOf reply = 0 ∧
      heuristicAnalysis fromStandardBase64 reply = "success (exit 0). last output:\nok" := by
  have hexecuted : JobReturns (QleanProjectExecutor.run tabulated (fun _ _ ↦ .ok ()) ⟨[], ∅⟩
      lineTask (.ok []) (.ok []) (resultOf 3 lineTask (.ok lineExecution))) (.ok lineResult) :=
    .ok lineResult
  have hfits : FitsResponse lineForms lineResult :=
    (fitsResponse_of_valid readable_lineResult.valid).1 (by decide)
  have honly : lineWait.OnlyAnswer (answerEvents
      (textOf [(projectResult lineForms).encode lineResult]) lineForms
        (swarmContext (textOf []) plainForms ⟨[1]⟩ plainNode none) ⟨[7]⟩ lineResult) := by
    rw [answerEvents_eq readable_lineResult, if_pos hfits]
    intro round event fault now hmem peer result hevent htask
    rw [steps_lineWait] at hmem
    split_ifs at hmem
    · cases List.mem_singleton.mp hmem
      exact List.mem_singleton_self _
    · cases List.mem_singleton.mp hmem
  obtain ⟨hshown, -⟩ := outputs_reach_agent sound_lineWait rfl hexecuted readable_lineResult
    fromStandardBase64_standardBase64 honly
  have hquiet : ∀ earlier < 1, lineWait.wait.Quiet earlier := by
    intro earlier hearlier
    rw [Nat.lt_one_iff.mp hearlier]
    exact ⟨answerAt_lineWait 0, by decide⟩
  obtain ⟨reply, hreply, hcode, hanalysis, -⟩ := hshown hfits 1 (by decide) hquiet
    ⟨none, 4, List.mem_singleton_self _⟩
  exact ⟨reply, hreply, hcode, hanalysis.trans shown_lineResult⟩

end EdgeOrchestrator.Agent

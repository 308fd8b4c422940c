import EdgeOrchestrator.Node.RemoteHash
import EdgeOrchestrator.P2P.ProjectExchange
import EdgeOrchestrator.Wire.Exchanges

/-!
# How results get to the node that submitted the task

An executing node answers a request for a project with the result. The output in it is an array of
numbers, so output of up to sixteen MiB gets through whatever its bytes are, and output of
thirty-two MiB never does. Then the submitting node sees a failed request, which it only logs.
-/

namespace EdgeOrchestrator.Wire

open Codecs Node P2P Serde Storage

/-- The result that `QleanProjectExecutor::run` makes of the execution of a task. -/
def resultOf (selfNodeId : NodeId) (task : ProjectTask) :
    Except CoreError ExecutionResult → Except String ProjectResult
  | .ok execution => .ok {
      taskId := task.taskId
      exitCode := execution.exitCode
      stdout := execution.stdout
      stderr := execution.stderr
      executionTimeMs := execution.executionTimeMs
      executedOn := selfNodeId }
  | .error error => .error ("qlean run_project: " ++ error.display)

/-- What a job goes on with when its executor returns. -/
inductive JobReturns : Outcome String ProjectResult → Except String ProjectResult → Prop
  | ok (result : ProjectResult) : JobReturns (.ok result) (.ok result)
  | err (error : String) : JobReturns (.err error) (.error error)

/-- The executor returns a result of the execution. -/
theorem resultOf_of_run_eq_ok {primitives : Primitives}
    {unpackTar : Bytes → Path → Outcome CoreError Unit} {store : LocalObjectStore}
    {task : ProjectTask} {ensured : Except CoreError Bytes} {projectDir : Except String Path}
    {sandboxed : Except String ProjectResult} {result : ProjectResult}
    (hrun : QleanProjectExecutor.run primitives unpackTar store task ensured projectDir
      sandboxed = .ok result) : sandboxed = .ok result := by
  unfold QleanProjectExecutor.run at hrun
  split at hrun
  · cases hrun
  · cases hrun
  · split at hrun <;> cases hrun
    rfl

/-- The answer to a task is about the task. -/
theorem taskId_jobResult {primitives : Primitives}
    {unpackTar : Bytes → Path → Outcome CoreError Unit} {store : LocalObjectStore}
    {task : ProjectTask} {ensured : Except CoreError Bytes} {projectDir : Except String Path}
    {selfNodeId : NodeId} {execution : Except CoreError ExecutionResult}
    {executed : Except String ProjectResult}
    (hexecuted : JobReturns (QleanProjectExecutor.run primitives unpackTar store task ensured
      projectDir (resultOf selfNodeId task execution)) executed) :
    (jobResult task executed).taskId = task.taskId := by
  generalize hrun : QleanProjectExecutor.run primitives unpackTar store task ensured projectDir
    (resultOf selfNodeId task execution) = returned at hexecuted
  cases hexecuted with
  | err error => rfl
  | ok result =>
    have hresult := resultOf_of_run_eq_ok hrun
    cases execution with
    | error error => cases hresult
    | ok execution => rw [jobResult, ← Except.ok.inj hresult]

/-- The decimal digits of a number with a sign. -/
theorem length_compact_integer {value : ℤ} {digits : ℕ} (hdigits : value.natAbs < 10 ^ digits)
    (hpos : 0 < digits) :
    1 ≤ (utf8 (compact (.integer value))).length ∧
      (utf8 (compact (.integer value))).length ≤ digits + 1 := by
  cases value with
  | ofNat number =>
    obtain ⟨hlow, hhigh⟩ := length_utf8_repr hdigits hpos
    exact ⟨hlow, Nat.le_succ_of_le hhigh⟩
  | negSucc number =>
    obtain ⟨hlow, hhigh⟩ := length_utf8_repr hdigits hpos
    have htext : compact (.integer (.negSucc number)) =
        "-" ++ Nat.repr (Int.negSucc number).natAbs := rfl
    have hsign : (utf8 "-").length = 1 := by decide
    rw [htext, utf8_append, List.length_append, hsign]
    omega

/-- The length of a result, up to the digits of its numbers and its output. -/
theorem length_toVec_projectResult (forms : TextForms) (result : ProjectResult) :
    (toVec (projectResult forms) result).length =
      157 + (utf8 (compact (.integer result.exitCode))).length +
        (utf8 (compact ((vec byte).encode result.stdout))).length +
          (utf8 (compact ((vec byte).encode result.stderr))).length +
            (utf8 (compact (.integer result.executionTimeMs))).length := by
  have htext : toVec (projectResult forms) result =
      utf8 ("\x7b" ++ (jsonString "task_id" ++ ":" ++ jsonString result.taskId.display ++ "," ++
        (jsonString "exit_code" ++ ":" ++ compact (.integer result.exitCode) ++ "," ++
          (jsonString "stdout" ++ ":" ++ compact ((vec byte).encode result.stdout) ++ "," ++
            (jsonString "stderr" ++ ":" ++ compact ((vec byte).encode result.stderr) ++ "," ++
              (jsonString "execution_time_ms" ++ ":" ++
                  compact (.integer result.executionTimeMs) ++ "," ++
                (jsonString "executed_on" ++ ":" ++ jsonString result.executedOn.display))))))
          ++ "\x7d") := rfl
  have hopen : (utf8 "\x7b").length = 1 := by decide
  have htaskId : (utf8 (jsonString "task_id")).length = 9 := by decide
  have hexitCode : (utf8 (jsonString "exit_code")).length = 11 := by decide
  have hstdout : (utf8 (jsonString "stdout")).length = 8 := by decide
  have hstderr : (utf8 (jsonString "stderr")).length = 8 := by decide
  have htime : (utf8 (jsonString "execution_time_ms")).length = 19 := by decide
  have hexecutedOn : (utf8 (jsonString "executed_on")).length = 13 := by decide
  have hcolon : (utf8 ":").length = 1 := by decide
  have hcomma : (utf8 ",").length = 1 := by decide
  have hclose : (utf8 "\x7d").length = 1 := by decide
  rw [htext]
  simp only [utf8_append, List.length_append, hopen, htaskId, hexitCode, hstdout, hstderr, htime,
    hexecutedOn, hcolon, hcomma, hclose, length_jsonString_uuid]
  omega

/-- How many bytes of output a result carries. -/
def outputLength (result : ProjectResult) : ℕ := result.stdout.length + result.stderr.length

/-- The result keeps to the cap of an answer. -/
def FitsResponse (forms : TextForms) (result : ProjectResult) : Prop :=
  (toVec (projectResult forms) result).length ≤ MessageKind.projectResponse.maxSize

instance (forms : TextForms) : DecidablePred (FitsResponse forms) :=
  fun _ ↦ inferInstanceAs (Decidable (_ ≤ _))

variable {text : SerdeReader} {forms : TextForms}

/-- A result keeps to the cap when its output is 48 bytes short of 16 MiB, whatever the output is,
and does not when its output has 32 MiB. -/
theorem fitsResponse_of_valid {result : ProjectResult}
    (hvalid : (projectResult forms).Valid result) :
    (outputLength result + 48 ≤ 16 * 1024 * 1024 → FitsResponse forms result) ∧
      (32 * 1024 * 1024 ≤ outputLength result → ¬ FitsResponse forms result) := by
  have hcode : result.exitCode.natAbs < 10 ^ 10 := by
    have hlow : -2 ^ 31 ≤ result.exitCode := hvalid.2.1.1
    have hhigh : result.exitCode < 2 ^ 31 := hvalid.2.1.2
    omega
  have htime : result.executionTimeMs < 10 ^ 20 := by
    have hhigh : result.executionTimeMs < 2 ^ 64 := hvalid.2.2.2.2.1
    omega
  have hcodeDigits := length_compact_integer hcode (by decide)
  have htimeDigits : 1 ≤ (utf8 (compact (.integer result.executionTimeMs))).length ∧
      (utf8 (compact (.integer result.executionTimeMs))).length ≤ 20 :=
    length_utf8_repr htime (by decide)
  have hstdout := length_compact_bytes result.stdout
  have hstderr := length_compact_bytes result.stderr
  have hcap : MessageKind.projectResponse.maxSize = 64 * 1024 * 1024 := rfl
  rw [FitsResponse, length_toVec_projectResult, hcap, outputLength]
  omega

/-- What the submitting node sees of the answer that it gets or does not get. -/
def projectOutcome (executorPeer : PeerId) :
    Except IoError ProjectResult → RequestResponse ProjectTask ProjectResult
  | .ok response => .response executorPeer response
  | .error _ => .outboundFailure executorPeer "io error"

/-- The events of the submitting node when an executing node answers. -/
def answerEvents (text : SerdeReader) (forms : TextForms) (submitter : SwarmContext)
    (executorPeer : PeerId) (result : ProjectResult) : List Event :=
  (submitter.handleSwarmEvent (.behaviour (.projectExchange
    (projectOutcome executorPeer (transfer text forms .projectResponse result))))).1

variable {submitter : SwarmContext} {executorPeer : PeerId} {result : ProjectResult}

/-- A result of an executing node brings the submitting node the result if it keeps to the cap, and
no event otherwise. -/
theorem answerEvents_eq (hreadable : Readable text forms .projectResponse result) :
    answerEvents text forms submitter executorPeer result =
      if FitsResponse forms result then [.projectResultReceived executorPeer result] else [] := by
  split_ifs with hfits
  · rw [answerEvents, transfer_of_fits hreadable hfits]
    rfl
  · obtain ⟨error, hlost⟩ := transfer_of_too_long hreadable (Nat.lt_of_not_le hfits)
    rw [answerEvents, hlost]
    rfl

end EdgeOrchestrator.Wire

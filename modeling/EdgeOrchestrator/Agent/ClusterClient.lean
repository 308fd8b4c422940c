import EdgeOrchestrator.Agent.Workspace
import EdgeOrchestrator.Agent.Plan
import EdgeOrchestrator.Foundation.BoundedRounds
import EdgeOrchestrator.Node.IpcServer

/-!
# The agent as a client of a node

Every call of the agent is one line to the socket of the node and one line back. To run a project it
submits the workspace with the commands of the plan and then asks for the result every three
seconds, six hundred times at most. The random ids of the requests and what the socket gives for a
line are inputs.
-/

namespace EdgeOrchestrator.Agent

open BoundedRounds Node

/-- `Value::get`: of several members with one name the last. -/
def get (name : String) : Json → Option Json
  | .object members => members.reverse.lookup name
  | _ => none

/-- `value[name]` -/
def index (value : Json) (name : String) : Json := (get name value).getD .null

/-- The request of a call. Its members are in the order of their names. -/
def callDocument (method : String) (params : Json) (id : String) : Json :=
  .object [("id", .string id), ("jsonrpc", .string "2.0"), ("method", .string method),
    ("params", params)]

def rpc (formats : Formats) (socket : String → Except String String) (method : String)
    (params : Json) (id : String) : Except String Json :=
  match socket (formats.printJson (callDocument method params id) ++ "\n") with
  | .error error => .error error
  | .ok line =>
    match formats.parseJson (trim line) with
    | none => .error "invalid RPC response"
    | some response =>
      match get "error" response with
      | some error => .error ("RPC " ++ method ++ " failed: " ++ formats.printJson error)
      | none => .ok ((get "result" response).getD .null)

def texts (values : List String) : Json := .array (values.map .string)

/-- The parameters of `submit_project`. -/
def submitParams (info : WorkspaceInfo) (plan : Plan) (targetNode : Option String) : Json :=
  .object [("build_cmd", texts plan.buildCmd), ("project_dir", .string info.root),
    ("run_cmd", texts plan.runCmd), ("target_node", (targetNode.map .string).getD .null),
    ("timeout_ms", .integer 900000), ("work_dir", .string plan.workDir)]

def fetchParams (taskId : String) : Json := .object [("task_id", .string taskId)]

def textOr (value : Json) (default : String) : String := value.asString.getD default

/-- One round of the wait: the reply ends it, or it goes on. -/
def pollRound (taskId : String) (fetch : ℕ → Except String Json) (round : ℕ) (_ : Unit) :
    Except String Json ⊕ Unit :=
  match fetch round with
  | .error error => .inl (.error error)
  | .ok reply =>
    match textOr (index reply "status") "pending" with
    | "completed" => .inl (.ok reply)
    | "failed" => .inl (.error ("task " ++ taskId ++ " failed on the cluster: " ++
        textOr (index reply "error") "<no reason given>"))
    | _ => .inr ()

/-- How often a result is asked for. -/
def maxPolls : ℕ := 600

def timedOut (taskId : String) : String :=
  "timed out after 30 min waiting for project result of task " ++ taskId ++
    "; check the node logs of the executing node (look for 'project task ... accepted')"

/-- `submit_and_wait`, given what the call of `submit_project` returns and, for the id of a task,
what each call of `fetch_project_result` returns. -/
def submitAndWait (submitted : Except String Json) (fetch : String → ℕ → Except String Json) :
    Except String Json :=
  match submitted with
  | .error error => .error error
  | .ok result =>
    match (index result "task_id").asString with
    | none => .error "submit_project returned no task_id"
    | some taskId =>
      run (pollRound taskId (fetch taskId)) (fun _ ↦ .error (timedOut taskId)) maxPolls 0 ()

/-! ## Calls through the socket -/

/-- The socket of a node whose calls do not fail. -/
def nodeSocket (formats : Formats) (handler : JsonRpcHandler)
    (submitLocalProject : SubmitProjectParams → Option NodeId → Except CoreError TaskId)
    (now : Instant) (line : String) : Except String String :=
  .ok (handleConnection formats handler submitLocalProject now ⟨.ok line, .ok (), .ok ()⟩).written

/-- A document that is printed on a line is read back from the line. -/
def ReadsLine (formats : Formats) (document : Json) : Prop :=
  formats.parseJson (trim (formats.printJson document ++ "\n")) = some document

section Calls

variable {formats : Formats} {handler : JsonRpcHandler}
  {submitLocalProject : SubmitProjectParams → Option NodeId → Except CoreError TaskId}
  {now : Instant} {method id : String} {params : Json}

/-- The node reads the call as it was made. -/
theorem fromJson_callDocument (method : String) (params : Json) (id : String) :
    JsonRpcRequest.fromJson (callDocument method params id) =
      some { jsonrpc := "2.0", method, params, id := .string id } := by
  rw [fromJson_eq_some_iff]
  refine ⟨fun name ↦ [("id", Json.string id), ("jsonrpc", .string "2.0"),
    ("method", .string method), ("params", params)].lookup name, ?_, ?_⟩
  · rw [callDocument, Json.fields, if_pos (by simp)]
  · simp [List.lookup_cons]

/-- What the agent makes of a response. -/
theorem get_toJson (response : JsonRpcResponse) :
    get "error" response.toJson = response.error.map JsonRpcErrorPayload.toJson ∧
      get "result" response.toJson = response.result := by
  rcases response with ⟨_ | result, _ | error, id⟩ <;>
    simp [get, JsonRpcResponse.toJson, List.lookup_cons]

/-- A call through the socket returns what the handler returns. -/
theorem rpc_nodeSocket (hrequest : ReadsLine formats (callDocument method params id))
    (hresponse : ReadsLine formats (handler.handle formats submitLocalProject now
      { jsonrpc := "2.0", method, params, id := .string id }).toJson) :
    rpc formats (nodeSocket formats handler submitLocalProject now) method params id =
      match handler.handle formats submitLocalProject now
        { jsonrpc := "2.0", method, params, id := .string id } with
      | ⟨_, some error, _⟩ =>
        .error ("RPC " ++ method ++ " failed: " ++ formats.printJson error.toJson)
      | ⟨result, none, _⟩ => .ok (result.getD .null) := by
  have hline : formats.printJson (callDocument method params id) ++ "\n" ≠ "" := by
    intro hempty
    have hlist := congrArg String.toList hempty
    rw [String.toList_append] at hlist
    exact List.append_ne_nil_of_right_ne_nil _ (List.cons_ne_nil '\n' []) hlist
  have hwritten : (handleConnection formats handler submitLocalProject now
      ⟨.ok (formats.printJson (callDocument method params id) ++ "\n"), .ok (), .ok ()⟩).written =
        formats.printJson (handler.handle formats submitLocalProject now
          { jsonrpc := "2.0", method, params, id := .string id }).toJson ++ "\n" :=
    written_of_fromJson hline hrequest (fromJson_callDocument method params id)
  rw [ReadsLine] at hresponse
  obtain ⟨herror, hresult⟩ := get_toJson (handler.handle formats submitLocalProject now
    { jsonrpc := "2.0", method, params, id := .string id })
  simp only [rpc, nodeSocket, hwritten, hresponse, herror, hresult]
  rcases handler.handle formats submitLocalProject now
    { jsonrpc := "2.0", method, params, id := .string id } with ⟨result, _ | error, other⟩ <;> rfl

theorem asStrings_texts (values : List String) : (texts values).asStrings = some values := by
  rw [texts, Json.asStrings]
  induction values with
  | nil => rfl
  | cons value rest ih => simp [List.mapM_cons, ih, Json.asString]

/-- What the agent submits is what the node reads. -/
theorem fromValue_submitParams (info : WorkspaceInfo) (plan : Plan) (targetNode : Option String) :
    SubmitProjectParams.fromValue (submitParams info plan targetNode) =
      some ⟨info.root, plan.workDir, plan.buildCmd, plan.runCmd, 900000, targetNode⟩ := by
  have htarget : ((targetNode.map Json.string).getD .null).asStringOption = some targetNode := by
    cases targetNode <;> rfl
  simp [SubmitProjectParams.fromValue, submitParams, Json.fields, List.lookup_cons, Json.asString,
    withDefault, asStrings_texts, htarget, Json.asNat]

theorem fromValue_fetchParams (taskId : String) :
    FetchProjectParams.fromValue (fetchParams taskId) = some { taskId } := by
  simp [FetchProjectParams.fromValue, fetchParams, Json.fields, List.lookup_cons, Json.asString]

end Calls

end EdgeOrchestrator.Agent

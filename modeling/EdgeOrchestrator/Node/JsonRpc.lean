import EdgeOrchestrator.Core.Error
import EdgeOrchestrator.Node.ProjectClient

/-!
# JSON-RPC methods

A request names one of three methods, and a response carries a result or an error, never both.
Structs are read the way `serde` reads them: from an object whose other members are passed over, or
from an array in the order of the fields. Reading and writing text is left to the crates that do it.
-/

namespace EdgeOrchestrator.Node

/-- A JSON document. Its own members are in the order of the text, also where a name occurs twice.
An object inside it is a `Value`, which keeps the last member of each name. -/
inductive Json
  | null
  | bool (value : Bool)
  | integer (value : ℤ)
  | float (bits : UInt64)
  | string (text : String)
  | array (values : List Json)
  | object (members : List (String × Json))

/-- What the crates for JSON, UUIDs and Base64 do, and the texts of their errors. -/
structure Formats where
  parseJson : String → Option Json
  printJson : Json → String
  requestError : String → String
  paramsError : String → Json → String
  parseUuid : String → Except String Uuid
  base64 : Bytes → String

namespace Json

def asString : Json → Option String
  | .string text => some text
  | _ => none

def asStrings : Json → Option (List String)
  | .array values => values.mapM asString
  | _ => none

/-- A `u64`. -/
def asNat : Json → Option ℕ
  | .integer value => if 0 ≤ value ∧ value < 2 ^ 64 then some value.toNat else none
  | _ => none

/-- An optional string, for which `null` stands for none. -/
def asStringOption : Json → Option (Option String)
  | .null => some none
  | value => value.asString.map some

/-- The values of the fields of a struct, by name. A field that occurs twice is an error, and so are
more values than fields. -/
def fields (names : List String) : Json → Option (String → Option Json)
  | .object members =>
    if ∀ name ∈ names, members.countP (fun member ↦ member.1 == name) ≤ 1 then
      some fun name ↦ members.lookup name
    else none
  | .array values =>
    if values.length ≤ names.length then some fun name ↦ values[names.idxOf name]? else none
  | _ => none

end Json

/-- A field with a default, which is taken when the field is missing. -/
def withDefault {Value : Type} (default : Value) (read : Json → Option Value) :
    Option Json → Option Value
  | none => some default
  | some value => read value

structure JsonRpcRequest where
  jsonrpc : String
  method : String
  params : Json
  id : Json

def JsonRpcRequest.fromJson (document : Json) : Option JsonRpcRequest := do
  let field ← document.fields ["jsonrpc", "method", "params", "id"]
  let jsonrpc ← (field "jsonrpc").bind Json.asString
  let method ← (field "method").bind Json.asString
  let params ← withDefault .null some (field "params")
  let id ← field "id"
  return { jsonrpc, method, params, id }

structure JsonRpcErrorPayload where
  code : ℤ
  message : String

structure JsonRpcResponse where
  result : Option Json
  error : Option JsonRpcErrorPayload
  id : Json

def JsonRpcErrorPayload.toJson (error : JsonRpcErrorPayload) : Json :=
  .object [("code", .integer error.code), ("message", .string error.message)]

/-- A response without the member for what is absent. -/
def JsonRpcResponse.toJson (response : JsonRpcResponse) : Json :=
  .object (("jsonrpc", .string "2.0") :: response.result.toList.map (("result", ·)) ++
    response.error.toList.map (("error", ·.toJson)) ++ [("id", response.id)])

structure SubmitProjectParams where
  projectDir : String
  workDir : String
  buildCmd : List String
  runCmd : List String
  timeoutMs : ℕ
  targetNode : Option String

def defaultProjectWorkDir : String := "/root/project"

def defaultTimeout : ℕ := 30000

def SubmitProjectParams.fromValue (params : Json) : Option SubmitProjectParams := do
  let field ← params.fields
    ["project_dir", "work_dir", "build_cmd", "run_cmd", "timeout_ms", "target_node"]
  let projectDir ← (field "project_dir").bind Json.asString
  let workDir ← withDefault defaultProjectWorkDir Json.asString (field "work_dir")
  let buildCmd ← withDefault [] Json.asStrings (field "build_cmd")
  let runCmd ← withDefault [] Json.asStrings (field "run_cmd")
  let timeoutMs ← withDefault defaultTimeout Json.asNat (field "timeout_ms")
  let targetNode ← withDefault none Json.asStringOption (field "target_node")
  return { projectDir, workDir, buildCmd, runCmd, timeoutMs, targetNode }

structure FetchProjectParams where
  taskId : String

def FetchProjectParams.fromValue (params : Json) : Option FetchProjectParams := do
  let field ← params.fields ["task_id"]
  let taskId ← (field "task_id").bind Json.asString
  return { taskId }

/-- A reply as an object. Like every object that is built as a value, it has its members in the
order of their names. -/
def FetchReply.toJson : FetchReply → Json
  | .failed error => .object [("error", .string error), ("status", .string "failed")]
  | .completed exitCode stdout stderr executionTimeMs executedOn => .object
    [("executed_on", .string executedOn), ("execution_time_ms", .integer executionTimeMs),
      ("exit_code", .integer exitCode), ("status", .string "completed"),
      ("stderr", .string stderr), ("stdout", .string stdout)]
  | .pending => .object [("status", .string "pending")]

/-- The parts of the handler that its replies depend on. -/
structure JsonRpcHandler where
  tasksCompleted : ℕ := 0
  projectClient : Option ProjectClient := none

namespace JsonRpcHandler

variable (formats : Formats) (handler : JsonRpcHandler)

/-- A method returns a value or an error. -/
abbrev Reply := Except JsonRpcErrorPayload Json

def getClusterTopology : Reply :=
  .ok (.object [("nodes", .array []), ("role_assignments", .object []),
    ("tasks_completed", .integer handler.tasksCompleted), ("tasks_pending", .integer 0)])

/-- `submit_project`, given what `submit_local_project` returns. -/
def submitProject
    (submitLocalProject : SubmitProjectParams → Option NodeId → Except CoreError TaskId)
    (params : Json) : Reply :=
  match SubmitProjectParams.fromValue params with
  | none => .error ⟨-32602, "Invalid params: " ++ formats.paramsError "SubmitProjectParams" params⟩
  | some p =>
    match handler.projectClient with
    | none => .error ⟨-32010, "node has no cluster state; cannot submit projects"⟩
    | some _ =>
      match p.targetNode.mapM formats.parseUuid with
      | .error message => .error ⟨-32602, "invalid target_node: " ++ message⟩
      | .ok target =>
        match submitLocalProject p target with
        | .error error => .error ⟨-32011, "submit project failed: " ++ error.display⟩
        | .ok taskId => .ok (.object [("task_id", .string (Uuid.display taskId))])

def fetchProjectResult (now : Instant) (params : Json) : Reply :=
  match FetchProjectParams.fromValue params with
  | none => .error ⟨-32602, "Invalid params: " ++ formats.paramsError "FetchProjectParams" params⟩
  | some p =>
    match handler.projectClient with
    | none => .error ⟨-32010, "node has no cluster state"⟩
    | some client =>
      match formats.parseUuid p.taskId with
      | .error message => .error ⟨-32602, "invalid task_id: " ++ message⟩
      | .ok taskId => .ok (Node.fetchProjectResult formats.base64 client now taskId).toJson

/-- Call the method that a request names, and answer under its id. -/
def handle (submitLocalProject : SubmitProjectParams → Option NodeId → Except CoreError TaskId)
    (now : Instant) (request : JsonRpcRequest) : JsonRpcResponse :=
  let reply : Reply := match request.method with
    | "get_cluster_topology" => handler.getClusterTopology
    | "submit_project" => handler.submitProject formats submitLocalProject request.params
    | "fetch_project_result" => handler.fetchProjectResult formats now request.params
    | unknown => .error ⟨-32601, "Method not found: " ++ unknown⟩
  match reply with
  | .ok value => { result := some value, error := none, id := request.id }
  | .error error => { result := none, error := some error, id := request.id }

end JsonRpcHandler

/-! ## What is a request -/

/-- A document with the four parts of a request, where `params` may be missing from an object. -/
def Json.IsRequest : Json → Prop
  | .object members =>
    (∀ name ∈ ["jsonrpc", "method", "params", "id"],
      members.countP (fun member ↦ member.1 == name) ≤ 1) ∧
    (∃ jsonrpc, members.lookup "jsonrpc" = some (.string jsonrpc)) ∧
    (∃ method, members.lookup "method" = some (.string method)) ∧
    ∃ id, members.lookup "id" = some id
  | .array values => ∃ jsonrpc method params id, values = [.string jsonrpc, .string method, params, id]
  | _ => False

/-- The id of a request, whether or not the rest of it can be read. -/
def Json.requestId : Json → Option Json
  | .object members => members.lookup "id"
  | .array values => values[3]?
  | _ => none

/-- A call of a known method with parameters that this method takes. -/
def IsValidCall (formats : Formats) (request : JsonRpcRequest) : Prop :=
  request.method = "get_cluster_topology" ∨
  (request.method = "submit_project" ∧
    ∃ params, SubmitProjectParams.fromValue request.params = some params ∧
      ∀ text, params.targetNode = some text → ∃ node, formats.parseUuid text = .ok node) ∨
  (request.method = "fetch_project_result" ∧
    ∃ params, FetchProjectParams.fromValue request.params = some params ∧
      ∃ taskId, formats.parseUuid params.taskId = .ok taskId)

theorem asString_eq_some_iff {value : Json} {text : String} :
    value.asString = some text ↔ value = .string text := by
  cases value <;> simp [Json.asString]

theorem withDefault_some (default : Json) (value : Option Json) :
    withDefault default some value = some (value.getD default) := by
  cases value <;> rfl

/-- What a request is read from. -/
theorem fromJson_eq_some_iff {document : Json} {request : JsonRpcRequest} :
    JsonRpcRequest.fromJson document = some request ↔
      ∃ field, document.fields ["jsonrpc", "method", "params", "id"] = some field ∧
        field "jsonrpc" = some (.string request.jsonrpc) ∧
        field "method" = some (.string request.method) ∧
        (field "params").getD .null = request.params ∧ field "id" = some request.id := by
  rcases request with ⟨jsonrpc, method, params, id⟩
  simp only [JsonRpcRequest.fromJson, withDefault_some, Option.bind_eq_bind,
    Option.bind_eq_some_iff, asString_eq_some_iff, Option.some.injEq, Option.pure_def,
    JsonRpcRequest.mk.injEq]
  constructor
  · rintro ⟨field, hfields, _, ⟨_, hjsonrpc, rfl⟩, _, ⟨_, hmethod, rfl⟩, _, hparams, _, hid, rfl,
      rfl, rfl, rfl⟩
    exact ⟨field, hfields, hjsonrpc, hmethod, hparams, hid⟩
  · rintro ⟨field, hfields, hjsonrpc, hmethod, hparams, hid⟩
    exact ⟨field, hfields, jsonrpc, ⟨_, hjsonrpc, rfl⟩, method, ⟨_, hmethod, rfl⟩, params, hparams,
      id, hid, rfl, rfl, rfl, rfl⟩

/-- A document is read as a request exactly when it has the parts of one. -/
theorem isSome_fromJson_iff {document : Json} :
    (JsonRpcRequest.fromJson document).isSome ↔ document.IsRequest := by
  rw [Option.isSome_iff_exists]
  simp only [fromJson_eq_some_iff]
  cases document with
  | object members =>
    rw [Json.IsRequest, Json.fields]
    split_ifs with honce
    · rw [and_iff_right honce]
      constructor
      · rintro ⟨request, field, hfield, hjsonrpc, hmethod, -, hid⟩
        cases hfield
        exact ⟨⟨_, hjsonrpc⟩, ⟨_, hmethod⟩, ⟨_, hid⟩⟩
      · rintro ⟨⟨jsonrpc, hjsonrpc⟩, ⟨method, hmethod⟩, ⟨id, hid⟩⟩
        exact ⟨⟨jsonrpc, method, _, id⟩, _, rfl, hjsonrpc, hmethod, rfl, hid⟩
    · exact iff_of_false (by simp) fun hrequest ↦ honce hrequest.1
  | array values =>
    rw [Json.IsRequest, Json.fields]
    split_ifs with hlength
    · constructor
      · rintro ⟨request, field, hfield, hjsonrpc, hmethod, -, hid⟩
        cases hfield
        have hfirst : values[0]? = some (.string request.jsonrpc) := hjsonrpc
        have hsecond : values[1]? = some (.string request.method) := hmethod
        have hfourth : values[3]? = some request.id := hid
        match values, hlength, hfirst, hsecond, hfourth with
        | [_, _, params, _], _, hfirst, hsecond, hfourth =>
          cases hfirst
          cases hsecond
          cases hfourth
          exact ⟨_, _, params, _, rfl⟩
      · rintro ⟨jsonrpc, method, params, id, rfl⟩
        exact ⟨⟨jsonrpc, method, params, id⟩, _, rfl, rfl, rfl, rfl, rfl⟩
    · apply iff_of_false
      · rintro ⟨request, field, hfield, -⟩
        cases hfield
      · rintro ⟨jsonrpc, method, params, id, rfl⟩
        exact hlength le_rfl
  | _ => exact iff_of_false (by simp [Json.fields]) (by simp [Json.IsRequest])

theorem id_of_fromJson {document : Json} {request : JsonRpcRequest}
    (hrequest : JsonRpcRequest.fromJson document = some request) :
    document.requestId = some request.id := by
  obtain ⟨field, hfields, -, -, -, hid⟩ := fromJson_eq_some_iff.mp hrequest
  cases document with
  | object members =>
    rw [Json.fields] at hfields
    split_ifs at hfields
    cases hfields
    exact hid
  | array values =>
    rw [Json.fields] at hfields
    split_ifs at hfields
    cases hfields
    exact hid
  | _ => cases hfields

namespace JsonRpcHandler

variable {formats : Formats} {handler : JsonRpcHandler}
  {submitLocalProject : SubmitProjectParams → Option NodeId → Except CoreError TaskId}
  {now : Instant} {request : JsonRpcRequest}

theorem id_handle : (handler.handle formats submitLocalProject now request).id = request.id := by
  unfold handle
  dsimp only
  split <;> rfl

/-- A response has a result exactly when it has no error. -/
theorem result_isSome_handle_iff :
    (handler.handle formats submitLocalProject now request).result.isSome ↔
      (handler.handle formats submitLocalProject now request).error = none := by
  unfold handle
  dsimp only
  split <;> simp

theorem exists_of_submitProject_ok {params value : Json}
    (hok : handler.submitProject formats submitLocalProject params = .ok value) :
    ∃ read, SubmitProjectParams.fromValue params = some read ∧
      ∀ text, read.targetNode = some text → ∃ node, formats.parseUuid text = .ok node := by
  unfold submitProject at hok
  split at hok
  · cases hok
  · rename_i read hread
    refine ⟨read, hread, fun text htext ↦ ?_⟩
    split at hok
    · cases hok
    · rw [htext] at hok
      cases hparsed : formats.parseUuid text with
      | ok node => exact ⟨node, rfl⟩
      | error message =>
        have hmapped : (some text).mapM formats.parseUuid = .error message := by
          rw [Option.mapM_some, hparsed]
          rfl
        rw [hmapped] at hok
        cases hok

theorem exists_of_fetchProjectResult_ok {params value : Json}
    (hok : handler.fetchProjectResult formats now params = .ok value) :
    ∃ read, FetchProjectParams.fromValue params = some read ∧
      ∃ taskId, formats.parseUuid read.taskId = .ok taskId := by
  unfold fetchProjectResult at hok
  split at hok
  · cases hok
  · rename_i read hread
    refine ⟨read, hread, ?_⟩
    split at hok
    · cases hok
    · split at hok
      · cases hok
      · rename_i taskId hparsed
        exact ⟨taskId, hparsed⟩

/-- What is no valid call is answered with an error. -/
theorem error_handle_of_not_isValidCall (hinvalid : ¬ IsValidCall formats request) :
    (handler.handle formats submitLocalProject now request).error.isSome := by
  unfold handle
  dsimp only
  split
  · rename_i value hok
    refine absurd ?_ hinvalid
    split at hok
    · rename_i hmethod
      exact Or.inl hmethod
    · rename_i hmethod
      exact Or.inr (Or.inl ⟨hmethod, exists_of_submitProject_ok hok⟩)
    · rename_i hmethod
      exact Or.inr (Or.inr ⟨hmethod, exists_of_fetchProjectResult_ok hok⟩)
    · cases hok
  · rfl

end JsonRpcHandler

end EdgeOrchestrator.Node

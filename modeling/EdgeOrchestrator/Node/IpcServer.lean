import EdgeOrchestrator.Node.JsonRpc

/-!
# Answers on the socket

A connection reads one line, calls the handler with the request in it, and writes the response as
one line. A line that cannot be read as a request ends the connection before anything is written,
whatever id it carries. So exactly the lines that are requests are answered.
-/

namespace EdgeOrchestrator.Node

/-- What the calls on the socket of a client return. -/
structure Socket where
  readLine : Except String String
  writeAll : Except String Unit
  shutdown : Except String Unit

/-- What became of a connection: the text that was written in full, and how it ended. -/
structure Connection where
  written : String
  ended : Except CoreError Unit

section Server

variable (formats : Formats) (handler : JsonRpcHandler)
  (submitLocalProject : SubmitProjectParams → Option NodeId → Except CoreError TaskId)
  (now : Instant)

def handleConnection (socket : Socket) : Connection :=
  match socket.readLine with
  | .error message => ⟨"", .error (.network ("IPC read error: " ++ message))⟩
  | .ok line =>
    -- the client disconnected before it sent anything
    if line = "" then ⟨"", .ok ()⟩
    else
      match (formats.parseJson (trim line)).bind JsonRpcRequest.fromJson with
      | none => ⟨"", .error (.serialization
          ("invalid JSON-RPC request: " ++ formats.requestError (trim line)))⟩
      | some request =>
        let response := handler.handle formats submitLocalProject now request
        let text := formats.printJson response.toJson ++ "\n"
        match socket.writeAll with
        | .error message => ⟨"", .error (.network ("IPC write error: " ++ message))⟩
        | .ok () =>
          match socket.shutdown with
          | .error message => ⟨text, .error (.network ("IPC shutdown error: " ++ message))⟩
          | .ok () => ⟨text, .ok ()⟩

/-- A line that holds a request. -/
def IsRequestLine (line : String) : Prop :=
  ∃ document, formats.parseJson (trim line) = some document ∧ document.IsRequest

/-- A line that holds a valid call. -/
def IsValidLine (line : String) : Prop :=
  ∃ document request, formats.parseJson (trim line) = some document ∧
    JsonRpcRequest.fromJson document = some request ∧ IsValidCall formats request

/-- The client gets one line with a result or an error, an error unless it made a valid call, under
the id of its line if that could be read. -/
def IsAnswered (line : String) : Prop :=
  ∃ response : JsonRpcResponse,
    (handleConnection formats handler submitLocalProject now ⟨.ok line, .ok (), .ok ()⟩).written =
      formats.printJson response.toJson ++ "\n" ∧
    '\n' ∉ (formats.printJson response.toJson).toList ∧
    (response.result.isSome ↔ response.error = none) ∧
    (¬ IsValidLine formats line → response.error.isSome) ∧
    ∀ document id, formats.parseJson (trim line) = some document →
      document.requestId = some id → response.id = id

end Server

/-- JSON is printed without a line break. -/
def Formats.PrintsOneLine (formats : Formats) : Prop :=
  ∀ value, '\n' ∉ (formats.printJson value).toList

section Answers

variable {formats : Formats} {handler : JsonRpcHandler}
  {submitLocalProject : SubmitProjectParams → Option NodeId → Except CoreError TaskId}
  {now : Instant} {line : String}

/-- Nothing is written when the line is no request. -/
theorem written_of_not_isRequestLine (hrequest : ¬ IsRequestLine formats line) :
    (handleConnection formats handler submitLocalProject now
      ⟨.ok line, .ok (), .ok ()⟩).written = "" := by
  have hnone : (formats.parseJson (trim line)).bind JsonRpcRequest.fromJson = none := by
    cases hparse : formats.parseJson (trim line) with
    | none => rfl
    | some document =>
      rw [Option.bind_some, ← Option.not_isSome_iff_eq_none, isSome_fromJson_iff]
      intro hparts
      exact hrequest ⟨document, hparse, hparts⟩
  simp only [handleConnection, hnone]
  split_ifs <;> rfl

/-- The response to a request is written as one line. -/
theorem written_of_fromJson {document : Json} {request : JsonRpcRequest} (hline : line ≠ "")
    (hparse : formats.parseJson (trim line) = some document)
    (hrequest : JsonRpcRequest.fromJson document = some request) :
    (handleConnection formats handler submitLocalProject now
      ⟨.ok line, .ok (), .ok ()⟩).written =
        formats.printJson (handler.handle formats submitLocalProject now request).toJson ++ "\n" := by
  have hsome : (formats.parseJson (trim line)).bind JsonRpcRequest.fromJson = some request := by
    rw [hparse, Option.bind_some, hrequest]
  simp only [handleConnection, hsome, if_neg hline]

/-- Only requests are answered. -/
theorem isRequestLine_of_isAnswered
    (hanswered : IsAnswered formats handler submitLocalProject now line) :
    IsRequestLine formats line := by
  obtain ⟨response, hwritten, -⟩ := hanswered
  by_contra hrequest
  rw [written_of_not_isRequestLine hrequest] at hwritten
  have hempty := congrArg String.toList hwritten
  rw [String.toList_append] at hempty
  exact List.append_ne_nil_of_right_ne_nil _ (List.cons_ne_nil '\n' []) hempty.symm

theorem isAnswered_of_isRequestLine (hprint : formats.PrintsOneLine) (hline : line ≠ "")
    (hrequest : IsRequestLine formats line) :
    IsAnswered formats handler submitLocalProject now line := by
  obtain ⟨document, hparse, hparts⟩ := hrequest
  obtain ⟨request, hrequest⟩ := Option.isSome_iff_exists.mp (isSome_fromJson_iff.mpr hparts)
  refine ⟨_, written_of_fromJson hline hparse hrequest, hprint _,
    JsonRpcHandler.result_isSome_handle_iff, ?_, ?_⟩
  · intro hinvalid
    apply JsonRpcHandler.error_handle_of_not_isValidCall
    intro hcall
    exact hinvalid ⟨document, request, hparse, hrequest, hcall⟩
  · intro other id hother hid
    rw [hparse] at hother
    cases hother
    rw [id_of_fromJson hrequest] at hid
    exact JsonRpcHandler.id_handle.trans (Option.some.inj hid)

/-- A line is answered exactly when it holds a request. -/
theorem isAnswered_iff (hprint : formats.PrintsOneLine) (hline : line ≠ "") :
    IsAnswered formats handler submitLocalProject now line ↔ IsRequestLine formats line :=
  ⟨isRequestLine_of_isAnswered, isAnswered_of_isRequestLine hprint hline⟩

end Answers

/-- A request for a method that does not exist, and what is written back. -/
def unknownMethod : String :=
  "\x7b\"jsonrpc\":\"2.0\",\"method\":\"nonexistent_method\",\"params\":\x7b\x7d,\"id\":5\x7d"

/-- The formats on the text of that request and on the response to it. -/
def sampleFormats : Formats where
  parseJson text :=
    if text = unknownMethod then
      some (.object [("jsonrpc", .string "2.0"), ("method", .string "nonexistent_method"),
        ("params", .object []), ("id", .integer 5)])
    else none
  printJson _ := "\x7b\"jsonrpc\":\"2.0\",\"error\":\x7b\"code\":-32601,\"message\":" ++
    "\"Method not found: nonexistent_method\"\x7d,\"id\":5\x7d"
  requestError _ := "EOF while parsing an object at line 1 column 1"
  paramsError _ _ := "missing field"
  parseUuid _ := .error "invalid length"
  base64 _ := ""

theorem printsOneLine_sampleFormats : sampleFormats.PrintsOneLine := by
  intro value
  simp only [sampleFormats]
  decide

theorem isAnswered_iff_unknownMethod :
    IsAnswered sampleFormats {} (fun _ _ ↦ .error (.invalidState "no peer")) 0 unknownMethod ↔
      IsRequestLine sampleFormats unknownMethod :=
  isAnswered_iff printsOneLine_sampleFormats (by decide)

/-- A client that sends half an object gets no answer. -/
theorem malformed_line_is_not_answered :
    ¬ ∀ (formats : Formats) (handler : JsonRpcHandler)
        (submitLocalProject : SubmitProjectParams → Option NodeId → Except CoreError TaskId)
        (now : Instant) (line : String), formats.PrintsOneLine → line ≠ "" →
      IsAnswered formats handler submitLocalProject now line := by
  intro hgeneral
  have hanswered := hgeneral sampleFormats {} (fun _ _ ↦ .error (.invalidState "no peer")) 0
    "\x7b\n" printsOneLine_sampleFormats (by decide)
  obtain ⟨document, hparse, -⟩ := isRequestLine_of_isAnswered hanswered
  have hother : trim "\x7b\n" ≠ unknownMethod := by decide
  simp only [sampleFormats, if_neg hother] at hparse
  cases hparse

end EdgeOrchestrator.Node

import EdgeOrchestrator.Agent.ClusterClient
import EdgeOrchestrator.Wire.Serde

/-!
# Plans in the replies of a language model

A model is asked for a JSON object and may wrap it in prose. The agent reads what stands between the
first opening and the last closing brace, takes what it knows from it and insists on a command to
run.
-/

namespace EdgeOrchestrator.Agent

open Node

/-- `str::find` of a character. -/
def find (char : Char) (text : List Char) : Option ℕ := text.findIdx? (· == char)

/-- `str::rfind` of a character. -/
def rfind (char : Char) (text : List Char) : Option ℕ :=
  (text.reverse.findIdx? (· == char)).map fun behind ↦ text.length - 1 - behind

def extractJson (content : String) : String :=
  let t := (trim content).toList
  match find '\x7b' t, rfind '\x7d' t with
  | some a, some b => if a < b then String.ofList ((t.take (b + 1)).drop a) else String.ofList t
  | _, _ => String.ofList t

/-- The texts of an array, without what is no text. -/
def toVec (value : Json) : List String :=
  match value with
  | .array items => items.filterMap Json.asString
  | _ => []

/-- What a reply says of a plan. -/
def planIn (value : Json) : Plan where
  buildCmd := toVec (index value "build_cmd")
  runCmd := toVec (index value "run_cmd")
  workDir := textOr (index value "work_dir") "/root/project"

def parsePlan (formats : Formats) (content : String) (info : WorkspaceInfo) :
    Except String Plan :=
  match formats.parseJson (extractJson content) with
  | none => .error "plan is not JSON"
  | some value =>
    if (planIn value).runCmd = [] then
      .error ("plan has empty run_cmd (files: " ++ toString info.files.length ++ ")")
    else .ok (planIn value)

/-! ## Noise around an object -/

/-- A text between braces is found behind and in front of text without such braces. -/
theorem find_of_notMem {char : Char} {before after : List Char} (hbefore : char ∉ before) :
    find char (before ++ char :: after) = some before.length := by
  rw [find, List.findIdx?_append, List.findIdx?_eq_none_iff.mpr]
  · simp [List.findIdx?_cons]
  · intro other hother
    simpa using ne_of_mem_of_not_mem hother hbefore

theorem rfind_of_notMem {char : Char} {before after : List Char} (hafter : char ∉ after) :
    rfind char (before ++ char :: after) = some before.length := by
  have hreverse : (before ++ char :: after).reverse = after.reverse ++ char :: before.reverse := by
    simp
  rw [rfind, hreverse, ← find, find_of_notMem (by simpa using hafter)]
  simp

theorem dropWhile_append_cons {p : Char → Bool} {char : Char} (hchar : p char = false)
    (before after : List Char) :
    (before ++ char :: after).dropWhile p = before.dropWhile p ++ char :: after := by
  rw [List.dropWhile_append]
  split_ifs with hempty
  · rw [List.isEmpty_iff.mp hempty, List.dropWhile_cons_of_neg (by simp [hchar]), List.nil_append]
  · rfl

theorem rdropWhile_append_cons {p : Char → Bool} {char : Char} (hchar : p char = false)
    (before after : List Char) :
    (before ++ char :: after).rdropWhile p = before ++ char :: after.rdropWhile p := by
  have hreverse : (before ++ char :: after).reverse = after.reverse ++ char :: before.reverse := by
    simp
  rw [List.rdropWhile, hreverse, dropWhile_append_cons hchar, List.rdropWhile]
  simp

/-- Trimming keeps what stands between braces. -/
theorem exists_trim_eq {content : String} {before inner after : List Char}
    (hcontent : content.toList = before ++ '\x7b' :: (inner ++ '\x7d' :: after)) :
    ∃ front back, front ⊆ before ∧ back ⊆ after ∧
      (trim content).toList = front ++ '\x7b' :: (inner ++ '\x7d' :: back) := by
  refine ⟨before.dropWhile isWhitespace, after.rdropWhile isWhitespace,
    (List.dropWhile_suffix _).subset, (List.rdropWhile_prefix _ _).subset, ?_⟩
  rw [trim, String.toList_ofList, hcontent, dropWhile_append_cons (by decide), ← List.cons_append,
    ← List.append_assoc, rdropWhile_append_cons (by decide), List.append_assoc, List.cons_append]

/-- The object is found in any text around it without the braces that delimit it. -/
theorem extractJson_of_noise {content : String} {before inner after : List Char}
    (hcontent : content.toList = before ++ '\x7b' :: (inner ++ '\x7d' :: after))
    (hbefore : '\x7b' ∉ before) (hafter : '\x7d' ∉ after) :
    extractJson content = String.ofList ('\x7b' :: (inner ++ ['\x7d'])) := by
  obtain ⟨front, back, hfront, hback, htrim⟩ := exists_trim_eq hcontent
  have hopen : find '\x7b' (trim content).toList = some front.length := by
    rw [htrim]
    exact find_of_notMem fun hmem ↦ hbefore (hfront hmem)
  have hclose : rfind '\x7d' (trim content).toList =
      some (front.length + (inner.length + 1)) := by
    have hsplit : (trim content).toList = (front ++ '\x7b' :: inner) ++ '\x7d' :: back := by
      rw [htrim, List.append_assoc, List.cons_append]
    rw [hsplit, rfind_of_notMem fun hmem ↦ hafter (hback hmem), List.length_append,
      List.length_cons]
  simp only [extractJson, hopen, hclose]
  rw [if_pos (by omega), htrim]
  have hcut : front ++ '\x7b' :: (inner ++ '\x7d' :: back) =
      (front ++ '\x7b' :: (inner ++ ['\x7d'])) ++ back := by simp
  rw [hcut, List.take_left' (by simp; omega), List.drop_left' rfl]

/-- The object says the plan, whatever else it says and in whatever order. -/
structure SaysPlan (members : List (String × Json)) (plan : Plan) : Prop where
  buildCmd : index (.object members) "build_cmd" = texts plan.buildCmd
  runCmd : index (.object members) "run_cmd" = texts plan.runCmd
  workDir : index (.object members) "work_dir" = .string plan.workDir

theorem SaysPlan.planIn {members : List (String × Json)} {plan : Plan}
    (hplan : SaysPlan members plan) : planIn (.object members) = plan := by
  have htexts : ∀ values, toVec (texts values) = values := by
    intro values
    simp [toVec, texts, List.filterMap_map, Function.comp_def, Json.asString]
  rw [Agent.planIn, hplan.buildCmd, hplan.runCmd, hplan.workDir, htexts, htexts]
  rfl

/-- A plan is one that the agent submits: it runs something. -/
theorem runCmd_of_parsePlan {formats : Formats} {content : String} {info : WorkspaceInfo}
    {plan : Plan} (hplan : parsePlan formats content info = .ok plan) : plan.runCmd ≠ [] := by
  unfold parsePlan at hplan
  split at hplan
  · cases hplan
  · split_ifs at hplan with hempty
    cases hplan
    exact hempty

/-- The text of an object, in whatever layout: it stands between braces. -/
def objectText (inner : String) : String := "\x7b" ++ inner ++ "\x7d"

/-- A reply is read as the object in it, whatever prose without its braces is around it. -/
theorem parsePlan_of_noise {formats : Formats} {value : Json} {before inner after : String}
    (info : WorkspaceInfo) (hparse : formats.parseJson (objectText inner) = some value)
    (hbefore : '\x7b' ∉ before.toList) (hafter : '\x7d' ∉ after.toList) :
    parsePlan formats (before ++ objectText inner ++ after) info =
      if (planIn value).runCmd = [] then
        .error ("plan has empty run_cmd (files: " ++ toString info.files.length ++ ")")
      else .ok (planIn value) := by
  have hobject : (objectText inner).toList = '\x7b' :: (inner.toList ++ ['\x7d']) := by
    rw [objectText, String.toList_append, String.toList_append]
    rfl
  have hcontent : (before ++ objectText inner ++ after).toList =
      before.toList ++ '\x7b' :: (inner.toList ++ '\x7d' :: after.toList) := by
    rw [String.toList_append, String.toList_append, hobject]
    simp
  have hextract : extractJson (before ++ objectText inner ++ after) = objectText inner := by
    rw [extractJson_of_noise hcontent hbefore hafter, ← hobject, String.ofList_toList]
  rw [parsePlan, hextract, hparse]

/-- A plan with something to run is read from every reply that says it. -/
theorem parsePlan_of_saysPlan {formats : Formats} {members : List (String × Json)} {plan : Plan}
    {before inner after : String} (info : WorkspaceInfo) (hplan : SaysPlan members plan)
    (hparse : formats.parseJson (objectText inner) = some (.object members))
    (hbefore : '\x7b' ∉ before.toList) (hafter : '\x7d' ∉ after.toList)
    (hrun : plan.runCmd ≠ []) :
    parsePlan formats (before ++ objectText inner ++ after) info = .ok plan := by
  rw [parsePlan_of_noise info hparse hbefore hafter, hplan.planIn, if_neg hrun]

/-- A reply that wraps its plan in prose, with a member that the agent does not know. -/
def wrappedPlan : List (String × Json) :=
  [("note", .string "ok"), ("run_cmd", texts ["./app"]), ("work_dir", .string "/root/project"),
    ("build_cmd", texts ["make"])]

/-- How the model lays it out, over several lines. -/
def wrappedLayout : String :=
  "\n  \"note\": \"ok\",\n  \"run_cmd\": [\"./app\"],\n" ++
    "  \"work_dir\": \"/root/project\",\n  \"build_cmd\": [\n    \"make\"\n  ]\n"

def wrappedFormats : Formats where
  parseJson text := if text = objectText wrappedLayout then some (.object wrappedPlan) else none
  printJson := Wire.Serde.compact
  requestError _ := "expected value"
  paramsError _ _ := "missing field"
  parseUuid _ := .error "invalid length"
  base64 _ := ""

theorem parsePlan_wrappedPlan :
    parsePlan wrappedFormats
        ("Here is the plan:\n" ++ objectText wrappedLayout ++ "\nGood luck!")
        { root := "/src", files := [] } = .ok ⟨["make"], ["./app"], "/root/project"⟩ := by
  have hplan : SaysPlan wrappedPlan ⟨["make"], ["./app"], "/root/project"⟩ := by
    constructor <;> simp [index, get, wrappedPlan, List.lookup_cons]
  exact parsePlan_of_saysPlan _ hplan (by simp [wrappedFormats]) (by decide) (by decide) (by decide)

end EdgeOrchestrator.Agent

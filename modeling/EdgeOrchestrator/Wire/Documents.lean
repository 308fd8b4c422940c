import EdgeOrchestrator.P2P.Swarm
import EdgeOrchestrator.Raft.StateMachine
import EdgeOrchestrator.Wire.Serde

/-!
# The documents that nodes exchange

The fields of the exchanged structs, in their order, with the defaults of the fields that an older
sender leaves out, and the variants of the exchanged enums. UUIDs, times and addresses are written
as texts by the crates that own them.
-/

namespace EdgeOrchestrator.Wire

open Codecs Node P2P Raft Serde

/-- How the crates for UUIDs, times and addresses print and parse. -/
structure TextForms where
  parseUuid : String → Option Uuid
  printTime : DateTime → String
  parseTime : String → Option DateTime
  parseMultiaddr : String → Option Multiaddr

theorem mem_hexNibbles {value count : ℕ} {char : Char} (hchar : char ∈ hexNibbles value count) :
    ∃ digit < 16, char = hexDigit digit := by
  induction count with
  | zero => cases hchar
  | succ count ih =>
    rcases List.mem_cons.mp hchar with rfl | hrest
    · exact ⟨_, Nat.mod_lt _ (by decide), rfl⟩
    · exact ih hrest

theorem length_hexNibbles (value count : ℕ) : (hexNibbles value count).length = count := by
  induction count with
  | zero => rfl
  | succ count ih => rw [hexNibbles, List.length_cons, ih]

theorem hexNibbles_injective {count first second : ℕ}
    (hsame : hexNibbles first count = hexNibbles second count) :
    first % 16 ^ count = second % 16 ^ count := by
  have hdigit : ∀ one < 16, ∀ other < 16, hexDigit one = hexDigit other → one = other := by decide
  induction count with
  | zero => rw [pow_zero, Nat.mod_one, Nat.mod_one]
  | succ count ih =>
    obtain ⟨hhead, htail⟩ := List.cons.inj hsame
    rw [pow_succ, Nat.mod_mul, Nat.mod_mul, ih htail,
      hdigit _ (Nat.mod_lt _ (by decide)) _ (Nat.mod_lt _ (by decide)) hhead]

/-- The digits are what is between the hyphens. -/
theorem filter_display (uuid : Uuid) :
    uuid.display.toList.filter (· ≠ '-') = hexNibbles uuid.toNat 32 := by
  have hdigit : ∀ digit < 16, hexDigit digit ≠ '-' := by decide
  have hall : ∀ char ∈ hexNibbles uuid.toNat 32, char ≠ '-' := by
    intro char hmem
    obtain ⟨digit, hlt, rfl⟩ := mem_hexNibbles hmem
    exact hdigit digit hlt
  have hpiece : ∀ piece : List Char, piece.Sublist (hexNibbles uuid.toNat 32) →
      piece.filter (· ≠ '-') = piece :=
    fun piece hsublist ↦ List.filter_eq_self.mpr fun char hmem ↦ by
      simpa using hall char (hsublist.mem hmem)
  rw [Uuid.display, String.toList_ofList]
  generalize hexNibbles uuid.toNat 32 = digits at hpiece ⊢
  have hmiddle : ∀ start, ((digits.drop start).take 4).filter (· ≠ '-') =
      (digits.drop start).take 4 :=
    fun _ ↦ hpiece _ ((List.take_sublist 4 _).trans (List.drop_sublist _ _))
  have hdrop : ∀ start, (digits.drop start).take 4 ++ digits.drop (start + 4) =
      digits.drop start := by
    intro start
    rw [← List.drop_drop, List.take_append_drop]
  have hhyphen : ∀ rest : List Char,
      ('-' :: rest).filter (· ≠ '-') = rest.filter (· ≠ '-') := fun _ ↦ rfl
  simp only [List.filter_append, hhyphen, hmiddle,
    hpiece _ (List.take_sublist 8 digits), hpiece _ (List.drop_sublist 20 digits),
    List.append_assoc, hdrop 16, hdrop 12, hdrop 8, List.take_append_drop]

theorem display_injective : Function.Injective Uuid.display := by
  intro first second hsame
  have hdigits : hexNibbles first.toNat 32 = hexNibbles second.toNat 32 := by
    rw [← filter_display, hsame, filter_display]
  have hvalue := hexNibbles_injective hdigits
  have hrange : ∀ uuid : Uuid, uuid.toNat % 16 ^ 32 = uuid.toNat :=
    fun uuid ↦ Nat.mod_eq_of_lt uuid.isLt
  rw [hrange, hrange] at hvalue
  exact BitVec.eq_of_toNat_eq hvalue

/-- The crates as far as some UUIDs, one time and any addresses need them. -/
def textFormsOf (uuids : List Uuid) (time : DateTime) (timeText : String) : TextForms where
  parseUuid text := uuids.find? fun uuid ↦ uuid.display == text
  printTime _ := timeText
  parseTime text := if text = timeText then some time else none
  parseMultiaddr text := some ⟨text⟩

theorem parseUuid_textFormsOf {uuids : List Uuid} {time : DateTime} {timeText : String}
    {uuid : Uuid} (hmem : uuid ∈ uuids) :
    (textFormsOf uuids time timeText).parseUuid uuid.display = some uuid := by
  change (uuids.find? fun other ↦ other.display == uuid.display) = some uuid
  cases hfound : uuids.find? fun other ↦ other.display == uuid.display with
  | none => simpa using List.find?_eq_none.mp hfound uuid hmem
  | some found =>
    have hsame : found.display = uuid.display := by simpa using List.find?_some hfound
    rw [display_injective hsame]

variable (forms : TextForms)

def uuid : Codec Json Uuid := text Uuid.display forms.parseUuid

def dateTime : Codec Json DateTime := text forms.printTime forms.parseTime

def multiaddr : Codec Json Multiaddr := text Multiaddr.text forms.parseMultiaddr

def NodeType.variant : NodeType → String
  | .heavy => "Heavy"
  | .light => "Light"

def nodeType : Codec Json NodeType :=
  unitEnum NodeType.variant [.heavy, .light] (by rintro ⟨⟩ <;> decide) (by
    rintro ⟨⟩ ⟨⟩ hname <;> first | rfl | exact absurd hname (by decide))

def OsType.variant : OsType → String
  | .macOS => "MacOS"
  | .linux => "Linux"
  | .windows => "Windows"
  | .ios => "Ios"
  | .android => "Android"
  | .unknown => "Unknown"

def osType : Codec Json OsType :=
  unitEnum OsType.variant [.macOS, .linux, .windows, .ios, .android, .unknown]
    (by rintro ⟨⟩ <;> decide) (by
      rintro ⟨⟩ ⟨⟩ hname <;> first | rfl | exact absurd hname (by decide))

/-- A role is written as it is displayed. -/
def role : Codec Json Role :=
  unitEnum Role.display [.storage, .execution, .inference, .coordinator, .bootstrap]
    (by rintro ⟨⟩ <;> decide) (by
      rintro ⟨⟩ ⟨⟩ hname <;> first | rfl | exact absurd hname (by decide))

def capabilitiesParts : Capabilities ≃ Bool × Bool × List String × ℕ × ℕ × Bool × Unit where
  toFun c := (c.storage, c.gpuAcceleration, c.runtimes, c.maxMemoryMb, c.cpuCores,
    c.projectSandbox, ())
  invFun := fun (storage, gpuAcceleration, runtimes, maxMemoryMb, cpuCores, projectSandbox, ()) ↦
    { storage, gpuAcceleration, runtimes, maxMemoryMb, cpuCores, projectSandbox }
  left_inv _ := rfl
  right_inv _ := rfl

def capabilitiesFields : Fields String Json (Bool × Bool × List String × ℕ × ℕ × Bool × Unit) :=
  .required "storage" bool <|
  .required "gpu_acceleration" bool <|
  .required "runtimes" (vec string) <|
  .required "max_memory_mb" (unsigned 64) <|
  .required "cpu_cores" (unsigned 32) <|
  .optional "project_sandbox" false bool .nil

def capabilities : Codec Json Capabilities :=
  struct capabilitiesFields (by decide) capabilitiesParts

def descriptorParts : NodeDescriptor ≃ NodeId × NodeType × OsType × Capabilities ×
    List Multiaddr × List Role × DateTime × Option ℕ × Unit where
  toFun d := (d.nodeId, d.nodeType, d.os, d.capabilities, d.advertisedAddresses,
    d.currentAssignedRoles, d.startedAt, d.raftId, ())
  invFun := fun (nodeId, nodeType, os, capabilities, advertisedAddresses, currentAssignedRoles,
    startedAt, raftId, ()) ↦ ⟨nodeId, nodeType, os, capabilities, advertisedAddresses,
      currentAssignedRoles, startedAt, raftId⟩
  left_inv _ := rfl
  right_inv _ := rfl

def descriptorFields : Fields String Json (NodeId × NodeType × OsType × Capabilities ×
    List Multiaddr × List Role × DateTime × Option ℕ × Unit) :=
  .required "node_id" (uuid forms) <|
  .required "node_type" nodeType <|
  .required "os" osType <|
  .required "capabilities" capabilities <|
  .required "advertised_addresses" (vec (multiaddr forms)) <|
  .required "current_assigned_roles" (vec role) <|
  .required "started_at" (dateTime forms) <|
  .optional "raft_id" none (option (unsigned 64)) .nil

def nodeDescriptor : Codec Json NodeDescriptor :=
  struct (descriptorFields forms) (by simp [descriptorFields]) descriptorParts

/-- The content of the variants about a role of a node. -/
def nodeAndRole : Codec Json (NodeId × Role) :=
  struct (.required "node_id" (uuid forms) <| .required "role" role .nil) (by simp)
    { toFun := fun (nodeId, role) ↦ (nodeId, role, ())
      invFun := fun (nodeId, role, ()) ↦ (nodeId, role)
      left_inv := fun _ ↦ rfl
      right_inv := fun _ ↦ rfl }

def resourceLimits : Codec Json ResourceLimits :=
  struct
    (.required "max_memory_mb" (unsigned 64) <|
    .required "max_cpu_time_ms" (unsigned 64) <|
    .required "max_disk_mb" (unsigned 64) <|
    .required "allow_network" bool <|
    .required "max_fds" (unsigned 32) .nil) (by decide)
    { toFun := fun limits ↦ (limits.maxMemoryMb, limits.maxCpuTimeMs, limits.maxDiskMb,
        limits.allowNetwork, limits.maxFds, ())
      invFun := fun (maxMemoryMb, maxCpuTimeMs, maxDiskMb, allowNetwork, maxFds, ()) ↦
        { maxMemoryMb, maxCpuTimeMs, maxDiskMb, allowNetwork, maxFds }
      left_inv := fun _ ↦ rfl
      right_inv := fun _ ↦ rfl }

/-- The inline payload may be missing. -/
def projectSnapshot : Codec Json ProjectSnapshot :=
  struct (.required "hash" string <| .optional "tar_bytes" [] (vec byte) .nil) (by decide)
    { toFun := fun snapshot ↦ (snapshot.hash, snapshot.tarBytes, ())
      invFun := fun (hash, tarBytes, ()) ↦ { hash, tarBytes }
      left_inv := fun _ ↦ rfl
      right_inv := fun _ ↦ rfl }

def taskParts : ProjectTask ≃ TaskId × ProjectSnapshot × String × List String × List String × ℕ ×
    ResourceLimits × Option NodeId × Unit where
  toFun task := (task.taskId, task.snapshot, task.workDir, task.buildCmd, task.runCmd,
    task.timeoutMs, task.resourceLimits, task.pinnedNode, ())
  invFun := fun (taskId, snapshot, workDir, buildCmd, runCmd, timeoutMs, resourceLimits,
    pinnedNode, ()) ↦
      ⟨taskId, snapshot, workDir, buildCmd, runCmd, timeoutMs, resourceLimits, pinnedNode⟩
  left_inv _ := rfl
  right_inv _ := rfl

def taskFields : Fields String Json (TaskId × ProjectSnapshot × String × List String ×
    List String × ℕ × ResourceLimits × Option NodeId × Unit) :=
  .required "task_id" (uuid forms) <|
  .required "snapshot" projectSnapshot <|
  .required "work_dir" string <|
  .required "build_cmd" (vec string) <|
  .required "run_cmd" (vec string) <|
  .required "timeout_ms" (unsigned 64) <|
  .required "resource_limits" resourceLimits <|
  -- Only an object may do without an option that has no default.
  .optional "pinned_node" none (option (uuid forms)) .nil

def projectTask : Codec Json ProjectTask :=
  (struct (taskFields forms) (by simp [taskFields]) taskParts).among (hasAllFields 8) fun _ ↦ rfl

def projectResult : Codec Json ProjectResult :=
  struct
    (.required "task_id" (uuid forms) <|
    .required "exit_code" (signed 32) <|
    .required "stdout" (vec byte) <|
    .required "stderr" (vec byte) <|
    .required "execution_time_ms" (unsigned 64) <|
    .required "executed_on" (uuid forms) .nil) (by simp)
    { toFun := fun result ↦ (result.taskId, result.exitCode, result.stdout, result.stderr,
        result.executionTimeMs, result.executedOn, ())
      invFun := fun (taskId, exitCode, stdout, stderr, executionTimeMs, executedOn, ()) ↦
        { taskId, exitCode, stdout, stderr, executionTimeMs, executedOn }
      left_inv := fun _ ↦ rfl
      right_inv := fun _ ↦ rfl }

/-- The name of the variant of a proposal. -/
def proposalVariant : Proposal → String
  | .registerNode _ => "RegisterNode"
  | .deregisterNode _ => "DeregisterNode"
  | .assignRole _ _ => "AssignRole"
  | .revokeRole _ _ => "RevokeRole"

/-- The document tagged with the variant of a proposal stands for its content. -/
def ContentStands (content : Json) : Proposal → Prop
  | .registerNode descriptor => (nodeDescriptor forms).Stands content descriptor
  | .deregisterNode nodeId => (uuid forms).Stands content nodeId
  | .assignRole nodeId role => (nodeAndRole forms).Stands content (nodeId, role)
  | .revokeRole nodeId role => (nodeAndRole forms).Stands content (nodeId, role)

def decodeContent (content : Json) : String → Option Proposal
  | "RegisterNode" => ((nodeDescriptor forms).decode content).map .registerNode
  | "DeregisterNode" => ((uuid forms).decode content).map .deregisterNode
  | "AssignRole" => ((nodeAndRole forms).decode content).map fun entry ↦ .assignRole entry.1 entry.2
  | "RevokeRole" => ((nodeAndRole forms).decode content).map fun entry ↦ .revokeRole entry.1 entry.2
  | _ => none

theorem decodeContent_eq_some_iff {content : Json} {variant : String} {proposal : Proposal} :
    decodeContent forms content variant = some proposal ↔
      variant = proposalVariant proposal ∧ ContentStands forms content proposal := by
  unfold decodeContent
  split <;> cases proposal <;>
    simp_all [proposalVariant, ContentStands, Option.map_eq_some_iff,
      Codec.decode_eq_some_iff]

def proposal : Codec Json Proposal where
  encode proposal := .object [(proposalVariant proposal,
    match proposal with
    | .registerNode descriptor => (nodeDescriptor forms).encode descriptor
    | .deregisterNode nodeId => (uuid forms).encode nodeId
    | .assignRole nodeId role => (nodeAndRole forms).encode (nodeId, role)
    | .revokeRole nodeId role => (nodeAndRole forms).encode (nodeId, role))]
  decode
    | .object [(variant, content)] => decodeContent forms content variant
    | _ => none
  Stands document proposal := ∃ content,
    document = .object [(proposalVariant proposal, content)] ∧ ContentStands forms content proposal
  Valid
    | .registerNode descriptor => (nodeDescriptor forms).Valid descriptor
    | .deregisterNode nodeId => (uuid forms).Valid nodeId
    | .assignRole nodeId role => (nodeAndRole forms).Valid (nodeId, role)
    | .revokeRole nodeId role => (nodeAndRole forms).Valid (nodeId, role)
  decode_eq_some_iff := by
    intro document proposal
    split
    · simp [decodeContent_eq_some_iff]
    · rename_i hother
      simp only [reduceCtorEq, false_iff, not_exists, not_and]
      intro content hdocument
      exact absurd hdocument (hother _ _)
  stands_encode := by
    intro proposal hvalid
    refine ⟨_, rfl, ?_⟩
    cases proposal <;> exact Codec.stands_encode _ hvalid

/-! ## A small node -/

/-- A light node without an address. -/
def plainNode : NodeDescriptor :=
  ⟨7, .light, .linux, { projectSandbox := true }, [], [.execution], ⟨0⟩, some 4⟩

def plainForms : TextForms := textFormsOf [7] ⟨0⟩ "1970-01-01T00:00:00Z"

theorem valid_plainNode : (nodeDescriptor plainForms).Valid plainNode := by
  have huuid : plainForms.parseUuid (Uuid.display 7) = some 7 :=
    parseUuid_textFormsOf List.mem_cons_self
  have htime : plainForms.parseTime "1970-01-01T00:00:00Z" = some ⟨0⟩ := by
    simp [plainForms, textFormsOf]
  have hmemory : (unsigned 64).Valid 1024 := (by decide : 1024 < 2 ^ 64)
  have hcores : (unsigned 32).Valid 2 := (by decide : 2 < 2 ^ 32)
  have hcapabilities : capabilities.Valid { projectSandbox := true } :=
    ⟨trivial, trivial, fun _ _ ↦ trivial, hmemory, hcores, trivial, trivial⟩
  have haddresses : (vec (multiaddr plainForms)).Valid [] := fun _ hmem ↦ by cases hmem
  have hraftId : (option (unsigned 64)).Valid (some 4) := by
    intro held hheld
    rw [← Option.some.inj hheld]
    exact ⟨(by decide : 4 < 2 ^ 64), by simp [unsigned]⟩
  exact ⟨huuid, trivial, trivial, hcapabilities, haddresses, fun _ _ ↦ trivial, htime, hraftId,
    trivial⟩

end EdgeOrchestrator.Wire

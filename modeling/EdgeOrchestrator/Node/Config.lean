import EdgeOrchestrator.Sandbox.ImageTemplates
import EdgeOrchestrator.Sandbox.Qlean

/-!
# The configuration of a node

A configuration file gives some of the members of the configuration, and the others get their
defaults. A file without `capabilities` leaves the storage on, an empty `capabilities` turns it off.
What is loaded was validated; what the command line overrides afterwards was not. Failures are
chains of messages, the outermost one first.
-/

namespace EdgeOrchestrator.Sandbox

def VmMode.parse (raw : String) : Except CoreError VmMode :=
  match (trim raw).toLower with
  | "" | "reuse" | "warm" => .ok .reuse
  | "fresh" | "per-task" | "isolated" => .ok .fresh
  | other => .error (.configuration
      ("unknown project sandbox vm_mode '" ++ other ++ "' (expected 'reuse' or 'fresh')"))

end EdgeOrchestrator.Sandbox

namespace EdgeOrchestrator.Node

open Sandbox

structure CapabilitiesConfig where
  storage : Bool
  gpuAcceleration : Bool
  runtimes : List String
  maxMemoryMb : UInt64
  cpuCores : UInt32
  projectSandbox : Bool
  projectVmMode : String
  projectVmPoolSize : UInt64
  projectImageSource : Option String
  projectImageDigest : Option String
  deriving DecidableEq, Repr

structure NodeConfig where
  nodeId : String
  nodeType : String
  listenAddresses : List String
  bootstrapPeers : List String
  capabilities : CapabilitiesConfig
  roles : List String
  raftId : Option UInt64
  raftPeers : List UInt64
  identitySeed : Option String
  deriving DecidableEq, Repr

/-! ## Defaults -/

def defaultProjectVmMode : String := "reuse"

def defaultProjectVmPool : UInt64 := 1

def defaultNodeType : String := "Heavy"

def defaultListenAddresses : List String := ["/ip4/0.0.0.0/tcp/0"]

def defaultRuntimes : List String := ["qlean"]

def defaultMaxMemoryMb : UInt64 := 16384

def defaultCpuCores : UInt32 := 4

/-- `CapabilitiesConfig::default` -/
def CapabilitiesConfig.default : CapabilitiesConfig where
  storage := true
  gpuAcceleration := false
  runtimes := defaultRuntimes
  maxMemoryMb := defaultMaxMemoryMb
  cpuCores := defaultCpuCores
  projectSandbox := false
  projectVmMode := defaultProjectVmMode
  projectVmPoolSize := defaultProjectVmPool
  projectImageSource := none
  projectImageDigest := none

/-- The members of `capabilities` that a file gives. -/
structure CapabilitiesMembers where
  storage : Option Bool := none
  gpuAcceleration : Option Bool := none
  runtimes : Option (List String) := none
  maxMemoryMb : Option UInt64 := none
  cpuCores : Option UInt32 := none
  projectSandbox : Option Bool := none
  projectVmMode : Option String := none
  projectVmPoolSize : Option UInt64 := none
  projectImageSource : Option String := none
  projectImageDigest : Option String := none
  deriving DecidableEq, Repr

/-- The members that a file gives. -/
structure ConfigMembers where
  nodeId : Option String := none
  nodeType : Option String := none
  listenAddresses : Option (List String) := none
  bootstrapPeers : Option (List String) := none
  capabilities : Option CapabilitiesMembers := none
  roles : Option (List String) := none
  raftId : Option UInt64 := none
  raftPeers : Option (List UInt64) := none
  identitySeed : Option String := none
  deriving DecidableEq, Repr

/-- The capabilities with the defaults of the single members. -/
def CapabilitiesMembers.toConfig (members : CapabilitiesMembers) : CapabilitiesConfig where
  storage := members.storage.getD false
  gpuAcceleration := members.gpuAcceleration.getD false
  runtimes := members.runtimes.getD defaultRuntimes
  maxMemoryMb := members.maxMemoryMb.getD defaultMaxMemoryMb
  cpuCores := members.cpuCores.getD defaultCpuCores
  projectSandbox := members.projectSandbox.getD false
  projectVmMode := members.projectVmMode.getD defaultProjectVmMode
  projectVmPoolSize := members.projectVmPoolSize.getD defaultProjectVmPool
  projectImageSource := members.projectImageSource
  projectImageDigest := members.projectImageDigest

def ConfigMembers.toConfig (members : ConfigMembers) : NodeConfig where
  nodeId := members.nodeId.getD ""
  nodeType := members.nodeType.getD defaultNodeType
  listenAddresses := members.listenAddresses.getD defaultListenAddresses
  bootstrapPeers := members.bootstrapPeers.getD []
  -- Capabilities that are missing as a whole have defaults of their own.
  capabilities := (members.capabilities.map CapabilitiesMembers.toConfig).getD .default
  roles := members.roles.getD []
  raftId := members.raftId
  raftPeers := members.raftPeers.getD []
  identitySeed := members.identitySeed

/-! ## Loading -/

/-- What a configuration is read with. -/
structure ConfigReaders where
  readToString : String → Except String String
  parseYaml : String → Except String ConfigMembers
  parseUuid : String → Except String Uuid
  parseMultiaddr : String → Except String Multiaddr

def withContext {Value : Type} (context : String) :
    Except String Value → Except (List String) Value
  | .ok value => .ok value
  | .error cause => .error [context, cause]

/-- Two calls succeed one after the other. -/
theorem bind_eq_ok_iff {Error First Second : Type} {call : Except Error First}
    {next : First → Except Error Second} {result : Second} :
    (call >>= next) = .ok result ↔ ∃ value, call = .ok value ∧ next value = .ok result := by
  cases call <;> simp [bind, Except.bind]

theorem withContext_eq_ok_iff {Value : Type} {context : String} {result : Except String Value}
    {value : Value} : withContext context result = .ok value ↔ result = .ok value := by
  cases result <;> simp [withContext]

namespace NodeConfig

variable (readers : ConfigReaders)

/-- The check of the node id. An empty one stands for a new one. -/
def validateNodeId (config : NodeConfig) : Except (List String) Unit :=
  if config.nodeId = "" then .ok ()
  else (withContext ("Invalid node_id UUID: " ++ config.nodeId)
    (readers.parseUuid config.nodeId)).map fun _ ↦ ()

def validateNodeType (config : NodeConfig) : Except (List String) Unit :=
  if config.nodeType = "Heavy" ∨ config.nodeType = "Light" then .ok ()
  else .error ["node_type must be 'Heavy' or 'Light', got '" ++ config.nodeType ++ "'"]

def validateAddresses : List String → Except (List String) Unit
  | [] => .ok ()
  | address :: rest =>
    match withContext ("Invalid listen address: " ++ address) (readers.parseMultiaddr address) with
    | .error error => .error error
    | .ok _ => validateAddresses rest

def validate (config : NodeConfig) : Except (List String) Unit := do
  config.validateNodeId readers
  config.validateNodeType
  validateAddresses readers config.listenAddresses

def load (path : String) : Except (List String) NodeConfig := do
  let contents ← withContext ("Failed to read config file: " ++ path) (readers.readToString path)
  let members ← withContext ("Failed to parse config file: " ++ path) (readers.parseYaml contents)
  members.toConfig.validate readers
  return members.toConfig

/-- What a configuration that is accepted looks like. -/
structure IsValid (config : NodeConfig) : Prop where
  nodeId : config.nodeId = "" ∨ ∃ nodeId, readers.parseUuid config.nodeId = .ok nodeId
  nodeType : config.nodeType = "Heavy" ∨ config.nodeType = "Light"
  listenAddresses : ∀ address ∈ config.listenAddresses, ∃ multiaddr,
    readers.parseMultiaddr address = .ok multiaddr

variable {readers}

theorem validateNodeId_eq_ok_iff {config : NodeConfig} :
    config.validateNodeId readers = .ok () ↔
      config.nodeId = "" ∨ ∃ nodeId, readers.parseUuid config.nodeId = .ok nodeId := by
  unfold validateNodeId
  by_cases hempty : config.nodeId = ""
  · simp [hempty]
  · cases hparse : readers.parseUuid config.nodeId <;> simp [hempty, withContext, Except.map]

theorem validateAddresses_eq_ok_iff {addresses : List String} :
    validateAddresses readers addresses = .ok () ↔
      ∀ address ∈ addresses, ∃ multiaddr, readers.parseMultiaddr address = .ok multiaddr := by
  induction addresses with
  | nil => simp [validateAddresses]
  | cons address rest ih =>
    rw [validateAddresses, List.forall_mem_cons]
    cases hparse : readers.parseMultiaddr address with
    | error error => simp [withContext]
    | ok multiaddr => simpa [withContext] using ih

theorem validate_eq_ok_iff {config : NodeConfig} :
    config.validate readers = .ok () ↔ config.IsValid readers := by
  have hnodeType : config.validateNodeType = .ok () ↔
      config.nodeType = "Heavy" ∨ config.nodeType = "Light" := by
    unfold validateNodeType
    split <;> simp_all
  have hboth : config.validate readers = .ok () ↔ config.validateNodeId readers = .ok () ∧
      config.validateNodeType = .ok () ∧
        validateAddresses readers config.listenAddresses = .ok () := by
    simp only [validate, bind_eq_ok_iff]
    exact ⟨fun ⟨_, hid, _, htype, haddresses⟩ ↦ ⟨hid, htype, haddresses⟩,
      fun ⟨hid, htype, haddresses⟩ ↦ ⟨(), hid, (), htype, haddresses⟩⟩
  rw [hboth, validateNodeId_eq_ok_iff, hnodeType, validateAddresses_eq_ok_iff]
  exact ⟨fun ⟨hid, htype, haddresses⟩ ↦ ⟨hid, htype, haddresses⟩,
    fun hvalid ↦ ⟨hvalid.nodeId, hvalid.nodeType, hvalid.listenAddresses⟩⟩

/-- What is loaded is in the file, apart from the defaults, and is valid. -/
theorem load_eq_ok_iff {path : String} {config : NodeConfig} :
    load readers path = .ok config ↔ ∃ contents members,
      readers.readToString path = .ok contents ∧ readers.parseYaml contents = .ok members ∧
        members.toConfig = config ∧ config.IsValid readers := by
  simp only [load, bind_eq_ok_iff, withContext_eq_ok_iff]
  constructor
  · rintro ⟨contents, hread, members, hparse, checked, hvalidate, hresult⟩
    obtain rfl : members.toConfig = config := Except.ok.inj hresult
    exact ⟨contents, members, hread, hparse, rfl, validate_eq_ok_iff.mp hvalidate⟩
  · rintro ⟨contents, members, hread, hparse, rfl, hvalid⟩
    exact ⟨contents, hread, members, hparse, (), validate_eq_ok_iff.mpr hvalid, rfl⟩

/-- Every default passes the check. -/
theorem isValid_defaults {multiaddr : Multiaddr}
    (hparse : readers.parseMultiaddr "/ip4/0.0.0.0/tcp/0" = .ok multiaddr) :
    (({} : ConfigMembers).toConfig).IsValid readers where
  nodeId := .inl rfl
  nodeType := .inl rfl
  listenAddresses address hmem := by
    rw [List.mem_singleton.mp hmem]
    exact ⟨multiaddr, hparse⟩

end NodeConfig

/-! ## What a configuration says -/

namespace NodeConfig

variable (config : NodeConfig)

def projectImageTemplate : Except String (Option ImageTemplate) :=
  match ImageTemplate.fromConfig config.capabilities.projectImageSource
      config.capabilities.projectImageDigest with
  | .ok template => .ok template
  | .error error => .error error.display

def projectVmPoolSize : ℕ :=
  min config.capabilities.projectVmPoolSize.toNat maxPoolTarget

def applySandboxOverrides (vmMode : Option String) (poolSize : Option UInt64) : NodeConfig :=
  { config with capabilities := { config.capabilities with
      projectVmMode := vmMode.getD config.capabilities.projectVmMode
      projectVmPoolSize := poolSize.getD config.capabilities.projectVmPoolSize } }

/-- A mode that cannot be read falls back to the warm machine. -/
def projectVmMode : VmMode :=
  match VmMode.parse config.capabilities.projectVmMode with
  | .ok mode => mode
  | .error _ => .reuse

/-- The role of a name in the configuration. -/
def roleOf : String → Option Role
  | "Storage" => some .storage
  | "Execution" => some .execution
  | "Inference" => some .inference
  | "Coordinator" => some .coordinator
  | "Bootstrap" => some .bootstrap
  | _ => none

def toDescriptor (readers : ConfigReaders) (newNodeId : NodeId) (os : OsType) (now : DateTime) :
    NodeDescriptor where
  nodeId :=
    if config.nodeId = "" then newNodeId
    else (readers.parseUuid config.nodeId).toOption.getD newNodeId
  nodeType := if config.nodeType = "Light" then .light else .heavy
  os := os
  capabilities :=
    { storage := config.capabilities.storage
      gpuAcceleration := config.capabilities.gpuAcceleration
      runtimes := config.capabilities.runtimes
      maxMemoryMb := config.capabilities.maxMemoryMb.toNat
      cpuCores := config.capabilities.cpuCores.toNat
      projectSandbox := config.capabilities.projectSandbox }
  advertisedAddresses := []
  currentAssignedRoles := config.roles.filterMap roleOf
  startedAt := now
  raftId := config.raftId.map UInt64.toNat

/-- The names of the roles are the texts that display them. -/
theorem roleOf_eq_some_iff {name : String} {role : Role} :
    roleOf name = some role ↔ name = role.display := by
  unfold roleOf
  split <;> cases role <;> simp_all [Role.display]

end NodeConfig

end EdgeOrchestrator.Node

import EdgeOrchestrator.Node.Config
import EdgeOrchestrator.Node.Routing

/-!
# The start of a node

A node loads its configuration, applies what the command line overrides, and resolves its executor
before it announces anything, so that it never announces a sandbox that it could not set up. What it
announces does not change afterwards. Listen addresses were checked with the configuration and
cannot fail again. A node id from the command line is not checked: where it is no UUID, a new one is
drawn.
-/

namespace EdgeOrchestrator.Node

open Raft Sandbox

/-- What a node finds when it starts. -/
structure Host where
  readers : ConfigReaders
  newNodeId : NodeId
  os : OsType
  now : DateTime
  identity : Option String → Except (List String) PeerId
  openStore : Except (List String) Unit
  makesProjectExecutor : VmMode → ℕ → Option ImageTemplate → Bool
  startSwarm : List Multiaddr → List Multiaddr → Except (List String) Unit
  newRaftNode : ℕ → List ℕ → Except (List String) Unit

/-- What the command line says. -/
structure StartOptions where
  configPath : String
  nodeId : Option String := none
  vmMode : Option String := none
  poolSize : Option UInt64 := none

/-- A started node: its peer id, what it announces, whether it executes projects, and its raft id,
which is 0 for a light client. -/
structure StartedNode where
  peerId : PeerId
  descriptor : NodeDescriptor
  hasExecutor : Bool
  raftId : ℕ
  deriving DecidableEq, Repr

/-- The configuration after the overrides. -/
def StartOptions.override (options : StartOptions) (config : NodeConfig) : NodeConfig :=
  let overridden := config.applySandboxOverrides options.vmMode options.poolSize
  { overridden with nodeId := options.nodeId.getD overridden.nodeId }

/-- A node without an executor announces no sandbox. -/
def announced (hasExecutor : Bool) (descriptor : NodeDescriptor) : NodeDescriptor :=
  if !hasExecutor && descriptor.capabilities.projectSandbox then
    { descriptor with capabilities := { descriptor.capabilities with projectSandbox := false } }
  else descriptor

/-- The addresses to listen on. -/
def parseAddresses (readers : ConfigReaders) :
    List String → Except (List String) (List Multiaddr)
  | [] => .ok []
  | address :: rest => do
    let multiaddr ← withContext "Failed to parse listen addresses" (readers.parseMultiaddr address)
    let others ← parseAddresses readers rest
    return multiaddr :: others

/-- The node that a configuration starts. -/
def startedNode (host : Host) (config : NodeConfig) (peerId : PeerId) : StartedNode :=
  -- A template that cannot be read is ignored.
  let customImage := config.projectImageTemplate.toOption.join
  let hasExecutor :=
    host.makesProjectExecutor config.projectVmMode config.projectVmPoolSize customImage
  { peerId, hasExecutor
    descriptor := announced hasExecutor
      (config.toDescriptor host.readers host.newNodeId host.os host.now)
    raftId := (config.raftId.map UInt64.toNat).getD 0 }

/-- `bootstrap_with_overrides` -/
def bootstrap (host : Host) (options : StartOptions) : Except (List String) StartedNode := do
  let loaded ← NodeConfig.load host.readers options.configPath
  let config := options.override loaded
  let peerId ← host.identity config.identitySeed
  host.openStore
  let listenAddresses ← parseAddresses host.readers config.listenAddresses
  let bootstrapAddrs := config.bootstrapPeers.filterMap fun address ↦
    (host.readers.parseMultiaddr address).toOption
  let node := startedNode host config peerId
  host.startSwarm listenAddresses bootstrapAddrs
  if node.raftId ≠ 0 then host.newRaftNode node.raftId (config.raftPeers.map UInt64.toNat)
  return node

/-- A voter resolves targets from the replicated state, a light client from its peers. -/
def StartedNode.catalog (node : StartedNode) (state : ClusterState) (registry : RaftIdRegistry)
    (known : HashMap PeerId NodeDescriptor) : Catalog :=
  if node.raftId = 0 then .peers known else .raft state registry

/-- Addresses that passed the check are parsed again. -/
theorem exists_parseAddresses {readers : ConfigReaders} {addresses : List String}
    (hparse : ∀ address ∈ addresses, ∃ multiaddr, readers.parseMultiaddr address = .ok multiaddr) :
    ∃ multiaddrs, parseAddresses readers addresses = .ok multiaddrs := by
  induction addresses with
  | nil => exact ⟨[], rfl⟩
  | cons address rest ih =>
    rw [List.forall_mem_cons] at hparse
    obtain ⟨⟨multiaddr, haddress⟩, hrest⟩ := hparse
    obtain ⟨others, hothers⟩ := ih hrest
    refine ⟨multiaddr :: others, ?_⟩
    rw [parseAddresses, haddress, hothers]
    rfl

theorem capabilities_announced {hasExecutor : Bool} {descriptor : NodeDescriptor} :
    (announced hasExecutor descriptor).capabilities.projectSandbox =
      (hasExecutor && descriptor.capabilities.projectSandbox) := by
  unfold announced
  cases hasExecutor <;> cases hsandbox : descriptor.capabilities.projectSandbox <;> simp [hsandbox]

/-- The overrides do not turn the sandbox on. -/
theorem projectSandbox_startedNode (host : Host) (options : StartOptions) (loaded : NodeConfig)
    (peerId : PeerId) :
    let node := startedNode host (options.override loaded) peerId
    node.descriptor.capabilities.projectSandbox =
      (node.hasExecutor && loaded.capabilities.projectSandbox) :=
  capabilities_announced

/-- Everything that has to succeed for a node to start. -/
theorem bootstrap_eq_ok_iff {host : Host} {options : StartOptions} {node : StartedNode} :
    bootstrap host options = .ok node ↔ ∃ loaded peerId listenAddresses,
      NodeConfig.load host.readers options.configPath = .ok loaded ∧
      host.identity (options.override loaded).identitySeed = .ok peerId ∧
      host.openStore = .ok () ∧
      parseAddresses host.readers loaded.listenAddresses = .ok listenAddresses ∧
      host.startSwarm listenAddresses (loaded.bootstrapPeers.filterMap fun address ↦
        (host.readers.parseMultiaddr address).toOption) = .ok () ∧
      startedNode host (options.override loaded) peerId = node ∧
      (node.raftId ≠ 0 →
        host.newRaftNode node.raftId (loaded.raftPeers.map UInt64.toNat) = .ok ()) := by
  simp only [bootstrap, bind_eq_ok_iff]
  constructor
  · rintro ⟨loaded, hload, peerId, hidentity, ⟨⟩, hstore, addresses, hparse, ⟨⟩, hswarm, hraft⟩
    refine ⟨loaded, peerId, addresses, hload, hidentity, hstore, hparse, hswarm, ?_⟩
    split at hraft
    · obtain ⟨⟨⟩, hnew, hnode⟩ := bind_eq_ok_iff.mp hraft
      obtain rfl : _ = node := Except.ok.inj hnode
      exact ⟨rfl, fun _ ↦ hnew⟩
    · rename_i hlight
      obtain rfl : _ = node := Except.ok.inj hraft
      exact ⟨rfl, fun hvoter ↦ absurd hvoter hlight⟩
  · rintro ⟨loaded, peerId, addresses, hload, hidentity, hstore, hparse, hswarm, rfl, hraft⟩
    refine ⟨loaded, hload, peerId, hidentity, (), hstore, addresses, hparse, (), hswarm, ?_⟩
    split
    · rename_i hvoter
      exact bind_eq_ok_iff.mpr ⟨(), hraft hvoter, rfl⟩
    · rfl

/-- The listen addresses of a loaded configuration never stop a node from starting. -/
theorem exists_listenAddresses_of_load {readers : ConfigReaders} {path : String}
    {loaded : NodeConfig} (hload : NodeConfig.load readers path = .ok loaded) :
    ∃ listenAddresses, parseAddresses readers loaded.listenAddresses = .ok listenAddresses := by
  obtain ⟨contents, members, -, -, -, hvalid⟩ := NodeConfig.load_eq_ok_iff.mp hload
  exact exists_parseAddresses hvalid.listenAddresses

end EdgeOrchestrator.Node

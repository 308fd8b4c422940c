import EdgeOrchestrator.Foundation.Execution
import EdgeOrchestrator.Foundation.SharedLog
import EdgeOrchestrator.Raft.SnapshotReplay
import EdgeOrchestrator.Wire.Documents
import Mathlib.Data.List.ReduceOption

/-!
# The replicas of a cluster

A node writes a proposal as JSON and hands the bytes to raft-rs. raft-rs agrees with the other
nodes on one log of such payloads, with empty ones among them after elections, and hands the
committed entries to every node in their order, some in each cycle. A node that is restarted has
lost its replica and is handed the log from its start. So the replicas are past states of one list
of submitted proposals, as long as no proposal comes in a `LightReady`.
-/

namespace EdgeOrchestrator.Raft

open Storage Wire Wire.Serde

section Payloads

variable (text : SerdeReader) (forms : TextForms)

def Proposal.encode (proposal : Proposal) : Bytes := toVec (Wire.proposal forms) proposal

def Proposal.decode (data : Bytes) : Except String Proposal :=
  text.fromSlice (Wire.proposal forms) data

/-- The proposal can be written, and the parser reads the text back. -/
structure Proposal.Readable (proposal : Proposal) : Prop where
  valid : (Wire.proposal forms).Valid proposal
  readsBack : text.ReadsBack ((Wire.proposal forms).encode proposal)

/-- The data of an entry for a proposal, or of an entry without one. -/
def payload : Option Proposal → Bytes
  | none => []
  | some proposal => proposal.encode forms

variable {text forms}

theorem Proposal.decode_encode {proposal : Proposal} (hreadable : proposal.Readable text forms) :
    Proposal.decode text forms (proposal.encode forms) = .ok proposal :=
  SerdeReader.fromSlice_toVec hreadable.valid hreadable.readsBack

/-- A proposal is written as an object, so its entry is not empty. -/
theorem Proposal.encode_ne_nil (proposal : Proposal) : proposal.encode forms ≠ [] := by
  have hopen : utf8 "\x7b" = [123] := by decide
  intro hempty
  have hlength := congrArg List.length hempty
  rw [Proposal.encode, toVec, Wire.proposal, compact, utf8_append, utf8_append, hopen] at hlength
  simp at hlength

end Payloads

namespace Replicas

open ClusterState CommittedReplay Execution RaftNode SharedLog SnapshotReplay

/-- The nodes, how much of the committed log raft-rs has handed to each, the log itself, and the
payloads that raft-rs took from the nodes. -/
structure Cluster where
  nodes : ℕ → RaftNode
  handedOut : ℕ → ℕ
  committed : List Entry
  proposed : List Bytes

inductive ClusterStep
  | propose (node : ℕ) (proposal : Proposal) (accepted : Bool)
  | commit (entry : Entry)
  | cycle (node : ℕ) (cycle : ReadyCycle) (faults : ℕ → Option WriteFault)
  | restart (node : ℕ) (transport : Libp2pRaftTransport)

section Machine

variable (primitives : Primitives) (text : SerdeReader) (forms : TextForms) (voters : List ℕ)

/-- One step of the cluster. raft-rs may refuse a proposal. What it commits is empty or was
proposed, and a cycle carries the next committed entries of the node. -/
def step (cluster : Cluster) : ClusterStep → Option Cluster
  | .propose _ proposal accepted =>
    if accepted then
      some { cluster with proposed := cluster.proposed ++ [proposal.encode forms] }
    else some cluster
  | .commit entry =>
    if entry.data = [] ∨ entry.data ∈ cluster.proposed then
      some { cluster with committed := cluster.committed ++ [entry] }
    else none
  | .cycle node cycle faults =>
    if committedOf cycle <+: cluster.committed.drop (cluster.handedOut node) then
      let after := ((cluster.nodes node).processReady primitives (Proposal.decode text forms) faults
        (some cycle)).1
      some { cluster with
        nodes := Function.update cluster.nodes node after
        handedOut := Function.update cluster.handedOut node
          (cluster.handedOut node + (committedOf cycle).length) }
    else none
  | .restart node transport =>
    -- Neither the replica nor the log of the process before is read again.
    let before := cluster.nodes node
    let after := RaftNode.new before.id voters before.storage.objectStore transport
    some { cluster with
      nodes := Function.update cluster.nodes node after
      handedOut := Function.update cluster.handedOut node 0 }

/-- Nodes that were all started for the first time. -/
def firstStart (stores : ℕ → LocalObjectStore) (transports : ℕ → Libp2pRaftTransport) :
    Cluster where
  nodes node := RaftNode.new node voters (stores node) (transports node)
  handedOut _ := 0
  committed := []
  proposed := []

/-- The submitted proposals can be read, and no cycle loses one. -/
def ClusterStep.Handled : ClusterStep → Prop
  | .propose _ proposal _ => proposal.Readable text forms
  | .commit _ => True
  | .cycle _ turn _ => LightReadyWithoutProposals (Proposal.decode text forms) turn
  | .restart _ _ => True

/-- A node submitted the proposal in one of the steps, and raft-rs took it. -/
def Submitted (steps : List ClusterStep) (proposal : Proposal) : Prop :=
  ∃ node, .propose node proposal true ∈ steps

end Machine

section Invariant

variable {primitives : Primitives} {text : SerdeReader} {forms : TextForms} {voters : List ℕ}

/-- The replicas replay the committed log, whose payloads were proposed. -/
structure Replicating (text : SerdeReader) (forms : TextForms) (submitted : Proposal → Prop)
    (cluster : Cluster) : Prop where
  replays : Replays (applyEntry (Proposal.decode text forms)) {} cluster.committed
    cluster.handedOut (RaftNode.state ∘ cluster.nodes)
  committed : ∀ entry ∈ cluster.committed, entry.data = [] ∨ entry.data ∈ cluster.proposed
  proposed : ∀ data ∈ cluster.proposed, ∃ proposal : Proposal,
    submitted proposal ∧ proposal.Readable text forms ∧ data = proposal.encode forms

theorem replicating_firstStart (submitted : Proposal → Prop) (stores : ℕ → LocalObjectStore)
    (transports : ℕ → Libp2pRaftTransport) :
    Replicating text forms submitted (firstStart voters stores transports) where
  replays := Replays.fresh
  committed _ hmem := by cases hmem
  proposed _ hmem := by cases hmem

/-- Entries without a proposal are passed over. -/
theorem passedOver_of_proposalsOf_eq_nil {decode : Bytes → Except String Proposal}
    {entries : List Entry} (hnone : proposalsOf decode entries = []) :
    ∀ entry ∈ entries, PassedOver decode entry := by
  intro entry hmem
  have hentry : proposalOf decode entry = none := List.filterMap_eq_nil_iff.mp hnone entry hmem
  unfold proposalOf at hentry
  split_ifs at hentry with hempty
  · exact Or.inl hempty
  · cases hdecode : decode entry.data with
    | error message => exact Or.inr ⟨message, hdecode⟩
    | ok proposal =>
      rw [hdecode] at hentry
      cases hentry

/-- A cycle that loses no proposal folds everything that raft-rs hands out in it. -/
theorem processReady_state_of_loses_nothing {decode : Bytes → Except String Proposal}
    (faults : ℕ → Option WriteFault) (node : RaftNode) {cycle : ReadyCycle}
    (hlight : LightReadyWithoutProposals decode cycle) :
    (node.processReady primitives decode faults (some cycle)).1.state =
      (committedOf cycle).foldl (applyEntry decode) node.state := by
  have hlightReady := applyCommitted_of_passedOver (passedOver_of_proposalsOf_eq_nil hlight)
  rw [processReady_state, committedOf, List.foldl_append]
  exact (hlightReady _).symm

theorem Replicating.step {submitted : Proposal → Prop} {cluster next : Cluster}
    {label : ClusterStep} (hreplicating : Replicating text forms submitted cluster)
    (hhandled : label.Handled text forms)
    (hsubmitted : ∀ node proposal, label = .propose node proposal true → submitted proposal)
    (hstep : Replicas.step primitives text forms voters cluster label = some next) :
    Replicating text forms submitted next := by
  obtain ⟨hreplays, hcommitted, hproposed⟩ := hreplicating
  cases label with
  | propose node proposal accepted =>
    cases accepted with
    | false =>
      obtain rfl : cluster = next := Option.some.inj hstep
      exact ⟨hreplays, hcommitted, hproposed⟩
    | true =>
      obtain rfl : _ = next := Option.some.inj hstep
      refine ⟨hreplays, fun entry hmem ↦ ?_, fun data hmem ↦ ?_⟩
      · exact (hcommitted entry hmem).imp_right (List.mem_append_left _)
      · rcases List.mem_append.mp hmem with hbefore | hnew
        · exact hproposed data hbefore
        · exact ⟨proposal, hsubmitted node proposal rfl, hhandled, List.mem_singleton.mp hnew⟩
  | commit entry =>
    obtain ⟨hentry, hcluster⟩ := Option.ite_none_right_eq_some.mp hstep
    obtain rfl : _ = next := Option.some.inj hcluster
    refine ⟨hreplays.commit entry, fun other hmem ↦ ?_, hproposed⟩
    rcases List.mem_append.mp hmem with hbefore | hnew
    · exact hcommitted other hbefore
    · rwa [List.mem_singleton.mp hnew]
  | cycle node cycle faults =>
    obtain ⟨hnext, hcluster⟩ := Option.ite_none_right_eq_some.mp hstep
    obtain rfl : _ = next := Option.some.inj hcluster
    refine ⟨?_, hcommitted, hproposed⟩
    have hadvance := hreplays.advance hnext
    rw [Function.comp_apply, ← processReady_state_of_loses_nothing faults _ hhandled,
      ← Function.comp_update] at hadvance
    exact hadvance
  | restart node transport =>
    obtain rfl : _ = next := Option.some.inj hstep
    refine ⟨?_, hcommitted, hproposed⟩
    rw [Function.comp_update]
    exact hreplays.restart node

theorem replicating_of_run {submitted : Proposal → Prop} {cluster final : Cluster}
    {steps : List ClusterStep} (hreplicating : Replicating text forms submitted cluster)
    (hhandled : ∀ label ∈ steps, label.Handled text forms)
    (hsubmitted : ∀ proposal, Submitted steps proposal → submitted proposal)
    (hrun : run (Replicas.step primitives text forms voters) cluster steps = some final) :
    Replicating text forms submitted final := by
  induction steps generalizing cluster with
  | nil =>
    obtain rfl : cluster = final := Option.some.inj hrun
    exact hreplicating
  | cons label rest ih =>
    obtain ⟨next, hstep, hrest⟩ := (run_cons_eq_some _).mp hrun
    have hnext : Replicating text forms submitted next := by
      apply hreplicating.step (hhandled label List.mem_cons_self) ?_ hstep
      rintro node proposal rfl
      exact hsubmitted proposal ⟨node, List.mem_cons_self⟩
    apply ih hnext (fun other hother ↦ hhandled other (List.mem_cons_of_mem label hother)) ?_ hrest
    rintro proposal ⟨node, hmem⟩
    exact hsubmitted proposal ⟨node, List.mem_cons_of_mem label hmem⟩

/-- The committed log as the proposals that its entries stand for. -/
theorem map_data_committed {submitted : Proposal → Prop} {cluster : Cluster}
    (hreplicating : Replicating text forms submitted cluster) :
    cluster.committed.map Entry.data =
      (cluster.committed.map (proposalOf (Proposal.decode text forms))).map (payload forms) ∧
    ∀ proposal, some proposal ∈ cluster.committed.map (proposalOf (Proposal.decode text forms)) →
      submitted proposal := by
  have hentries : ∀ entry ∈ cluster.committed,
      entry.data = [] ∧ proposalOf (Proposal.decode text forms) entry = none ∨
        ∃ proposal, submitted proposal ∧ entry.data = proposal.encode forms ∧
          proposalOf (Proposal.decode text forms) entry = some proposal := by
    intro entry hmem
    rcases hreplicating.committed entry hmem with hempty | hproposed
    · exact Or.inl ⟨hempty, if_pos hempty⟩
    · obtain ⟨proposal, hsubmitted, hreadable, hdata⟩ := hreplicating.proposed _ hproposed
      refine Or.inr ⟨proposal, hsubmitted, hdata, ?_⟩
      rw [proposalOf, hdata, if_neg proposal.encode_ne_nil, proposal.decode_encode hreadable]
      rfl
  constructor
  · rw [List.map_map]
    apply List.map_congr_left
    intro entry hmem
    rw [Function.comp_apply]
    rcases hentries entry hmem with ⟨hempty, hnone⟩ | ⟨proposal, -, hdata, hsome⟩
    · rw [hempty, hnone, payload]
    · rw [hdata, hsome, payload]
  · intro proposal hproposal
    obtain ⟨entry, hmem, hentry⟩ := List.mem_map.mp hproposal
    rcases hentries entry hmem with ⟨-, hnone⟩ | ⟨other, hsubmitted, -, hsome⟩
    · rw [hnone] at hentry
      cases hentry
    · rw [hsome, Option.some.injEq] at hentry
      rwa [← hentry]

theorem proposalsOf_eq_reduceOption (decode : Bytes → Except String Proposal)
    (entries : List Entry) :
    proposalsOf decode entries = (entries.map (proposalOf decode)).reduceOption := by
  rw [List.reduceOption, List.filterMap_map]
  rfl

end Invariant

variable {primitives : Primitives} {text : SerdeReader} {forms : TextForms} {voters : List ℕ}

/-- The proposal that registers a node, and one that raft-rs refuses. -/
def sampleProposals : List Proposal := [.registerNode plainNode, .deregisterNode plainNode.nodeId]

def sampleText : SerdeReader := textOf (sampleProposals.map (Wire.proposal plainForms).encode)

theorem readable_sampleProposals :
    ∀ proposal ∈ sampleProposals, proposal.Readable sampleText plainForms := by
  have happart : (sampleProposals.map (Wire.proposal plainForms).encode).Pairwise Apart := by
    refine List.pairwise_pair.mpr ?_
    exact apart_of_first_name (by decide) (by decide) (by decide)
  intro proposal hmem
  constructor
  · simp only [sampleProposals, List.mem_cons, List.not_mem_nil, or_false] at hmem
    rcases hmem with rfl | rfl
    · exact valid_plainNode
    · exact valid_plainNode.1
  · exact readsBack_textOf happart (List.mem_map_of_mem hmem)

/-- The entry of an election and the entry of a proposal. -/
def electedAndProposed (data : Bytes) : List Entry :=
  [{ term := 1, index := 1 }, { term := 1, index := 2, data := data }]

/-- Two nodes are handed the log, one of them a second time after a restart. -/
def turnsAroundRestart (log : List Entry) : List ClusterStep :=
  log.map .commit ++
    [.cycle 1 { ready := { committedEntries := log } } fun _ ↦ none,
      .cycle 2 { ready := { committedEntries := log.take 1 } } fun _ ↦ none,
      .restart 1 ⟨∅, []⟩,
      .cycle 1 { ready := { committedEntries := log } } fun _ ↦ none]

-- The payload is a variable here, so that nothing evaluates its encoding.
theorem exists_run_turnsAroundRestart {primitives : Primitives} {text : SerdeReader}
    {forms : TextForms} {voters : List ℕ} {cluster : Cluster} {data : Bytes}
    (hdata : data ∈ cluster.proposed) (hcommitted : cluster.committed = [])
    (hhandedOut : cluster.handedOut = fun _ ↦ 0) :
    ∃ final, run (step primitives text forms voters) cluster
      (turnsAroundRestart (electedAndProposed data)) = some final := by
  simp [turnsAroundRestart, electedAndProposed, run_cons, step, committedOf, hdata, hcommitted,
    hhandedOut]

theorem handled_turnsAroundRestart {text : SerdeReader} {forms : TextForms} (data : Bytes) :
    ∀ label ∈ turnsAroundRestart (electedAndProposed data), label.Handled text forms := by
  intro label hmem
  simp only [turnsAroundRestart, electedAndProposed, List.map_cons, List.map_nil, List.cons_append,
    List.nil_append, List.mem_cons, List.not_mem_nil, or_false] at hmem
  rcases hmem with rfl | rfl | rfl | rfl | rfl | rfl
  · exact trivial
  · exact trivial
  · exact List.filterMap_nil
  · exact List.filterMap_nil
  · exact trivial
  · exact List.filterMap_nil

def restartBetweenTurns : List ClusterStep :=
  .propose 1 (.registerNode plainNode) true ::
    .propose 2 (.deregisterNode plainNode.nodeId) false ::
      turnsAroundRestart (electedAndProposed ((Proposal.registerNode plainNode).encode plainForms))

end Replicas

end EdgeOrchestrator.Raft

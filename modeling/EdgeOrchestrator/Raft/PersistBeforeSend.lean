import EdgeOrchestrator.Raft.Node
import EdgeOrchestrator.Storage.Hashing

/-!
# Persist before acknowledge

The messages that a `Ready` holds back until its writes are done are vote grants and append
acknowledgements. The event loop sends them after the writes, but it only logs a failed write, so
they leave the node even when the state they acknowledge was not persisted. The exact condition
for the rule to hold is that there is nothing to acknowledge or that no write fails.
-/

namespace EdgeOrchestrator.Raft.PersistBeforeSend

open RaftNode Storage

variable (primitives : Primitives) (decode : Bytes → Except String Proposal)

def isWrite : NodeAction → Bool
  | .transportSend _ _ _ => false
  | .hardStateWrite _ => true
  | .entryWrite _ _ => true

/-- The action hands a message that waited for the writes to the transport. -/
def IsAcknowledgement (action : NodeAction) : Prop :=
  ∃ message outcome, action = .transportSend true message outcome

/-- The hard state write of a `Ready`, returning `Ok`. -/
def hardStateWritten (hs : Option HardState) : List NodeAction :=
  hs.toList.map fun _ ↦ .hardStateWrite (.ok ())

/-- The entry writes of a `Ready`, all returning `Ok`. -/
def entriesWritten (entries : List Entry) : List NodeAction :=
  entries.map fun entry ↦ .entryWrite entry.index (.ok ())

/-- Every acknowledgement comes after all the writes of the `Ready`, and all of them returned
`Ok`. -/
def PersistsBeforeSending (ready : Ready) (actions : List NodeAction) : Prop :=
  ∀ before acknowledgement after, actions = before ++ acknowledgement :: after →
    IsAcknowledgement acknowledgement →
    before.filter isWrite = hardStateWritten ready.hs ++ entriesWritten ready.entries

/-- None of the entry writes fails, each on the store the earlier ones left. -/
def NoEntryWriteFails : (ℕ → Option WriteFault) → LocalObjectStore → List Entry → Prop
  | _, _, [] => True
  | faults, store, entry :: rest =>
    ¬ store.WriteFails primitives (faults 0) entry.data ∧
      NoEntryWriteFails (fun write ↦ faults (write + 1))
        (store.putBlob primitives (faults 0) entry.data).2 rest

/-- The write of the hard state, if there is one, does not fail. -/
def NoHardStateWriteFails (fault : Option WriteFault) (store : LocalObjectStore)
    (hs : Option HardState) : Prop :=
  ∀ state ∈ hs, ¬ store.WriteFails primitives fault (hardStateJson state)

/-- The store after the write of the hard state. -/
def afterHardState (fault : Option WriteFault) (store : LocalObjectStore) :
    Option HardState → LocalObjectStore
  | none => store
  | some state => (store.putBlob primitives fault (hardStateJson state)).2

def NoWriteFails (faults : ℕ → Option WriteFault) (store : LocalObjectStore) (ready : Ready) :
    Prop :=
  NoHardStateWriteFails primitives (faults 0) store ready.hs ∧
    NoEntryWriteFails primitives (fun write ↦ faults (write + 1))
      (afterHardState primitives (faults 0) store ready.hs) ready.entries

theorem sendMessages_actions_of_mem (persisted : Bool) (node : RaftNode)
    (messages : List RaftMessage) :
    ∀ action ∈ (node.sendMessages persisted messages).2,
      ∃ message outcome, action = .transportSend persisted message outcome := by
  induction messages generalizing node with
  | nil =>
    intro action haction
    cases haction
  | cons message rest ih =>
    intro action haction
    rcases List.mem_cons.mp haction with hfirst | hrest
    · exact ⟨message, (node.transport.send message).1, hfirst⟩
    · exact ih _ action hrest

theorem length_sendMessages_actions (persisted : Bool) (node : RaftNode)
    (messages : List RaftMessage) :
    (node.sendMessages persisted messages).2.length = messages.length := by
  induction messages generalizing node with
  | nil => rfl
  | cons message rest ih => exact congrArg (· + 1) (ih _)

/-- Handing messages to the transport writes nothing. -/
theorem filter_isWrite_of_sends {persisted : Bool} {actions : List NodeAction}
    (hactions : ∀ action ∈ actions,
      ∃ message outcome, action = .transportSend persisted message outcome) :
    actions.filter isWrite = [] := by
  rw [List.filter_eq_nil_iff]
  intro action haction
  rcases hactions action haction with ⟨message, outcome, rfl⟩
  simp [isWrite]

/-- The rule for a trace that ends with its acknowledgements. -/
theorem persistsBeforeSending_append_iff {ready : Ready} {actions acknowledgements : List NodeAction}
    (hactions : ∀ action ∈ actions, ¬ IsAcknowledgement action)
    (hacknowledgements : ∀ action ∈ acknowledgements, IsAcknowledgement action) :
    PersistsBeforeSending ready (actions ++ acknowledgements) ↔
      acknowledgements = [] ∨
        actions.filter isWrite = hardStateWritten ready.hs ++ entriesWritten ready.entries := by
  constructor
  · intro hrule
    cases acknowledgements with
    | nil => exact Or.inl rfl
    | cons first rest =>
      exact Or.inr (hrule actions first rest rfl (hacknowledgements first List.mem_cons_self))
  · intro hcases before acknowledgement after hsplit hacknowledgement
    have hwritten : actions.filter isWrite =
        hardStateWritten ready.hs ++ entriesWritten ready.entries := by
      rcases hcases with hnone | hwritten
      · have hmem : acknowledgement ∈ actions := by
          rw [hnone, List.append_nil] at hsplit
          rw [hsplit]
          exact List.mem_append_right _ List.mem_cons_self
        exact absurd hacknowledgement (hactions acknowledgement hmem)
      · exact hwritten
    have hsent : ∃ sent, before = actions ++ sent ∧ ∀ action ∈ sent, action ∈ acknowledgements := by
      rcases List.append_eq_append_iff.mp hsplit with ⟨sent, hbefore, hsent⟩ | ⟨tail, htail, hlater⟩
      · refine ⟨sent, hbefore, fun action haction ↦ ?_⟩
        rw [hsent]
        exact List.mem_append_left _ haction
      · cases tail with
        | nil => exact ⟨[], by rw [htail, List.append_nil, List.append_nil], by simp⟩
        | cons head rest =>
          have hhead : acknowledgement = head := (List.cons.inj hlater).1
          have hmem : acknowledgement ∈ actions := by
            rw [htail, hhead]
            exact List.mem_append_right _ List.mem_cons_self
          exact absurd hacknowledgement (hactions acknowledgement hmem)
    rcases hsent with ⟨sent, hbefore, hsent⟩
    have hwrites : sent.filter isWrite = [] :=
      filter_isWrite_of_sends fun action haction ↦ hacknowledgements action (hsent action haction)
    rw [hbefore, List.filter_append, hwrites, List.append_nil, hwritten]

theorem persistHardState_actions_iff (fault : Option WriteFault) (node : RaftNode)
    (hs : Option HardState) :
    (node.persistHardState primitives fault hs).2 = hardStateWritten hs ↔
      NoHardStateWriteFails primitives fault node.storage.objectStore hs := by
  cases hs with
  | none => simp [persistHardState, hardStateWritten, NoHardStateWriteFails]
  | some state =>
    have hwrite := CasRaftStorage.setHardState_fst_eq_ok_iff primitives fault node.storage state
    simpa [persistHardState, hardStateWritten, NoHardStateWriteFails] using hwrite

theorem persistHardState_objectStore (fault : Option WriteFault) (node : RaftNode)
    (hs : Option HardState) :
    (node.persistHardState primitives fault hs).1.storage.objectStore =
      afterHardState primitives fault node.storage.objectStore hs := by
  cases hs with
  | none => rfl
  | some state => exact CasRaftStorage.setHardState_objectStore primitives fault node.storage state

theorem persistEntries_actions_iff (faults : ℕ → Option WriteFault) (node : RaftNode)
    (entries : List Entry) :
    (node.persistEntries primitives faults entries).2 = entriesWritten entries ↔
      NoEntryWriteFails primitives faults node.storage.objectStore entries := by
  induction entries generalizing faults node with
  | nil => simp [persistEntries, entriesWritten, NoEntryWriteFails]
  | cons entry rest ih =>
    have hwrite := CasRaftStorage.appendEntry_fst_eq_ok_iff primitives (faults 0) node.storage entry
    have hstore := CasRaftStorage.appendEntry_objectStore primitives (faults 0) node.storage entry
    have hrest := ih (fun write ↦ faults (write + 1))
      { node with storage := (node.storage.appendEntry primitives (faults 0) entry).2 }
    rw [hstore] at hrest
    simp only [persistEntries, entriesWritten, NoEntryWriteFails, List.map_cons, List.cons.injEq,
      NodeAction.entryWrite.injEq, true_and, hwrite]
    exact and_congr_right fun _ ↦ hrest

theorem length_persistHardState_actions (fault : Option WriteFault) (node : RaftNode)
    (hs : Option HardState) :
    (node.persistHardState primitives fault hs).2.length = (hardStateWritten hs).length := by
  cases hs <;> rfl

theorem isWrite_of_mem_persistHardState {fault : Option WriteFault} {node : RaftNode}
    {hs : Option HardState} {action : NodeAction}
    (haction : action ∈ (node.persistHardState primitives fault hs).2) : isWrite action = true := by
  cases hs with
  | none => cases haction
  | some state =>
    rw [List.mem_singleton.mp haction]
    rfl

theorem isWrite_of_mem_persistEntries {faults : ℕ → Option WriteFault} {node : RaftNode}
    {entries : List Entry} {action : NodeAction}
    (haction : action ∈ (node.persistEntries primitives faults entries).2) :
    isWrite action = true := by
  induction entries generalizing faults node with
  | nil => cases haction
  | cons entry rest ih =>
    rcases List.mem_cons.mp haction with hfirst | hrest
    · rw [hfirst]
      rfl
    · exact ih hrest

theorem not_isAcknowledgement_of_isWrite {action : NodeAction} (hwrite : isWrite action = true) :
    ¬ IsAcknowledgement action := by
  rintro ⟨message, outcome, rfl⟩
  cases hwrite

/-- The writes of a cycle all return `Ok` exactly when none of them fails. -/
theorem writes_eq_iff (faults : ℕ → Option WriteFault) (node : RaftNode) (ready : Ready) :
    (node.persistHardState primitives (faults 0) ready.hs).2 ++
        ((node.persistHardState primitives (faults 0) ready.hs).1.persistEntries primitives
          (fun write ↦ faults (write + 1)) ready.entries).2 =
      hardStateWritten ready.hs ++ entriesWritten ready.entries ↔
    NoWriteFails primitives faults node.storage.objectStore ready := by
  have hentries := persistEntries_actions_iff primitives (fun write ↦ faults (write + 1))
    (node.persistHardState primitives (faults 0) ready.hs).1 ready.entries
  rw [persistHardState_objectStore] at hentries
  rw [NoWriteFails, ← persistHardState_actions_iff, ← hentries]
  constructor
  · intro hwritten
    exact List.append_inj hwritten (length_persistHardState_actions primitives _ node ready.hs)
  · rintro ⟨hhardState, hentries⟩
    rw [hhardState, hentries]

theorem not_isAcknowledgement_of_mem_sendMessages {node : RaftNode} {messages : List RaftMessage}
    {action : NodeAction} (haction : action ∈ (node.sendMessages false messages).2) :
    ¬ IsAcknowledgement action := by
  rcases sendMessages_actions_of_mem false node messages action haction with ⟨_, _, rfl⟩
  rintro ⟨message, outcome, hpersisted⟩
  cases hpersisted

/-- The messages that need no write and the writes of a cycle, in the order of the code. -/
theorem filter_isWrite_of_cycle (faults : ℕ → Option WriteFault) (sender node : RaftNode)
    (messages : List RaftMessage) (ready : Ready) :
    ((sender.sendMessages false messages).2 ++
        (node.persistHardState primitives (faults 0) ready.hs).2 ++
        ((node.persistHardState primitives (faults 0) ready.hs).1.persistEntries primitives
          (fun write ↦ faults (write + 1)) ready.entries).2).filter isWrite =
      (node.persistHardState primitives (faults 0) ready.hs).2 ++
        ((node.persistHardState primitives (faults 0) ready.hs).1.persistEntries primitives
          (fun write ↦ faults (write + 1)) ready.entries).2 := by
  have hmessages := filter_isWrite_of_sends (sendMessages_actions_of_mem false sender messages)
  have hhardState : (node.persistHardState primitives (faults 0) ready.hs).2.filter isWrite =
      (node.persistHardState primitives (faults 0) ready.hs).2 :=
    List.filter_eq_self.mpr fun action ↦ isWrite_of_mem_persistHardState primitives
  have hentries : ((node.persistHardState primitives (faults 0) ready.hs).1.persistEntries
        primitives (fun write ↦ faults (write + 1)) ready.entries).2.filter isWrite =
      ((node.persistHardState primitives (faults 0) ready.hs).1.persistEntries primitives
        (fun write ↦ faults (write + 1)) ready.entries).2 :=
    List.filter_eq_self.mpr fun action ↦ isWrite_of_mem_persistEntries primitives
  rw [List.filter_append, List.filter_append, hmessages, hhardState, hentries, List.nil_append]

/-- An acknowledgement never precedes an unfinished or failed write exactly when there is nothing
to acknowledge or no write of the `Ready` fails. -/
theorem persistsBeforeSending_iff (faults : ℕ → Option WriteFault) (node : RaftNode)
    (cycle : ReadyCycle) :
    PersistsBeforeSending cycle.ready
        (node.processReady primitives decode faults (some cycle)).2 ↔
      cycle.ready.persistedMessages = [] ∨
        NoWriteFails primitives faults node.storage.objectStore cycle.ready := by
  let sent := (node.sendMessages false cycle.ready.messages).1
  let voted := (sent.persistHardState primitives (faults 0) cycle.ready.hs).1
  let logged := (voted.persistEntries primitives (fun write ↦ faults (write + 1))
    cycle.ready.entries).1
  let hardStateWrites := (sent.persistHardState primitives (faults 0) cycle.ready.hs).2
  let entryWrites := (voted.persistEntries primitives (fun write ↦ faults (write + 1))
    cycle.ready.entries).2
  let acknowledgements := (logged.sendMessages true cycle.ready.persistedMessages).2
  have htrace : (node.processReady primitives decode faults (some cycle)).2 =
      (node.sendMessages false cycle.ready.messages).2 ++ hardStateWrites ++ entryWrites ++
        acknowledgements := rfl
  have hactions : ∀ action ∈ (node.sendMessages false cycle.ready.messages).2 ++
      hardStateWrites ++ entryWrites, ¬ IsAcknowledgement action := by
    intro action haction
    rcases List.mem_append.mp haction with hearlier | hentry
    · rcases List.mem_append.mp hearlier with hmessage | hhardState
      · exact not_isAcknowledgement_of_mem_sendMessages hmessage
      · exact not_isAcknowledgement_of_isWrite
          (isWrite_of_mem_persistHardState primitives hhardState)
    · exact not_isAcknowledgement_of_isWrite (isWrite_of_mem_persistEntries primitives hentry)
  have hunsent : acknowledgements = [] ↔ cycle.ready.persistedMessages = [] := by
    rw [← List.length_eq_zero_iff, length_sendMessages_actions, List.length_eq_zero_iff]
  have hwrites : hardStateWrites ++ entryWrites =
        hardStateWritten cycle.ready.hs ++ entriesWritten cycle.ready.entries ↔
      NoWriteFails primitives faults node.storage.objectStore cycle.ready := by
    rw [← sendMessages_storage false node cycle.ready.messages]
    exact writes_eq_iff primitives faults sent cycle.ready
  rw [htrace, persistsBeforeSending_append_iff hactions
    (sendMessages_actions_of_mem true logged cycle.ready.persistedMessages), hunsent,
    filter_isWrite_of_cycle, hwrites]

/-- Node 1 of a cluster of three, on an empty disk. -/
def follower : RaftNode := RaftNode.new 1 [1, 2, 3] ⟨[], ∅⟩ ⟨∅, []⟩

/-- The `MsgRequestVoteResponse` from node 1 to node 2 in term 1. -/
def voteGrant : RaftMessage := ⟨2, [0x08, 0x06, 0x10, 0x02, 0x18, 0x01, 0x20, 0x01]⟩

def grantCycle : ReadyCycle where
  ready := { hs := some { term := 1, vote := 2 }, persistedMessages := [voteGrant] }

/-- Every file that would have to be created meets a full disk. -/
def diskFull (_ : ℕ) : Option WriteFault := some (.create "No space left on device (os error 28)")

theorem vote_granted_on_full_disk :
    ¬ ∀ (primitives : Primitives) (decode : Bytes → Except String Proposal)
      (faults : ℕ → Option WriteFault) (node : RaftNode) (cycle : ReadyCycle),
      PersistsBeforeSending cycle.ready
        (node.processReady primitives decode faults (some cycle)).2 := by
  intro hgeneral
  have hrule := hgeneral tabulated (fun _ ↦ .error "EOF while parsing a value at line 1 column 0")
    diskFull follower grantCycle
  have hwritten := hrule [_] _ [] rfl ⟨voteGrant, _, rfl⟩
  have hok : (follower.storage.setHardState tabulated (diskFull 0) { term := 1, vote := 2 }).1 =
      .ok () := NodeAction.hardStateWrite.inj (List.cons.inj hwritten).1
  have hfails : follower.storage.objectStore.WriteFails tabulated (diskFull 0)
      (hardStateJson { term := 1, vote := 2 }) := by
    refine ⟨rfl, ?_⟩
    rw [LocalObjectStore.objectExists_of_isDigest _ (isDigest_hashBlob tabulated _)]
    intro hexists
    cases hexists
  exact (CasRaftStorage.setHardState_fst_eq_ok_iff tabulated _ _ _).mp hok hfails

end EdgeOrchestrator.Raft.PersistBeforeSend

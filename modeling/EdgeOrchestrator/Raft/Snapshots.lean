import EdgeOrchestrator.Raft.LogReads

/-!
# Snapshots of the log

A snapshot is named after the last index and holds the payloads of the whole log that can be read,
a line each. The commit index of the hard state is not consulted, and the term is a constant. A
snapshot is what it should be only where these make no difference.
-/

namespace EdgeOrchestrator.Raft

open Storage

structure SnapshotMetadata where
  index : ℕ
  term : ℕ
  confState : Option ConfState
  deriving DecidableEq, Repr

structure Snapshot where
  data : Bytes
  metadata : Option SnapshotMetadata
  deriving DecidableEq, Repr

def jsonNumbers (numbers : List ℕ) : String :=
  "[" ++ ",".intercalate (numbers.map toString) ++ "]"

/-- JSON text of a conf state, with the keys in the order of the serializer's sorted map. -/
def confStateJson (state : ConfState) : Bytes :=
  utf8 ("\x7b\"auto_leave\":" ++ toString state.autoLeave ++ ",\"learners\":" ++
    jsonNumbers state.learners ++ ",\"voters\":" ++ jsonNumbers state.voters ++ "\x7d")

/-- The byte between two payloads. -/
def newline : UInt8 := 10

namespace CasRaftStorage

variable (primitives : Primitives)

/-- Write the conf state as a blob and keep it in memory. -/
def setConfState (fault : Option WriteFault) (storage : CasRaftStorage) (state : ConfState) :
    Outcome CoreError Unit × CasRaftStorage :=
  match storage.objectStore.putBlob primitives fault (confStateJson state) with
  | (.err error, store) => (.err error, { storage with objectStore := store })
  | (.lost loss, store) => (.lost loss, { storage with objectStore := store })
  | (.ok _, store) => (.ok (), { storage with objectStore := store, confState := some state })

/-- The loop of `snapshot`: a payload that was never recorded or cannot be read is skipped. -/
def collectPayloads (storage : CasRaftStorage) : List ℕ → Bytes → Outcome RaftError Bytes
  | [], data => .ok data
  | index :: rest, data =>
    match storage.hashAt index with
    | none => storage.collectPayloads rest data
    | some hash =>
      match storage.objectStore.getBlob primitives hash with
      | .ok entryData => storage.collectPayloads rest (data ++ entryData ++ [newline])
      | .err _ => storage.collectPayloads rest data
      | .lost loss => .lost loss

/-- Snapshot of the whole log; `to` is not looked at. -/
def snapshot (storage : CasRaftStorage) (requestIndex _to : ℕ) : Outcome RaftError Snapshot :=
  if storage.lastIndex < requestIndex then .err .snapshotTemporarilyUnavailable
  else
    match storage.collectPayloads primitives (List.range' 1 storage.lastIndex) [] with
    | .ok data => .ok
        { data := data
          metadata := some
            { index := storage.lastIndex
              term := 1
              confState := some (storage.confState.getD {}) } }
    | .err error => .err error
    | .lost loss => .lost loss

end CasRaftStorage

/-! ## Storages and their logs -/

namespace Snapshots

variable (primitives : Primitives)

/-- The storage, and the log that was appended to it: the last entry of every index. -/
structure Session where
  storage : CasRaftStorage
  log : ℕ → Option Entry := fun _ ↦ none

inductive Operation
  | appendEntry (entry : Entry) (fault : Option WriteFault)
  | setHardState (state : HardState) (fault : Option WriteFault)
  | setConfState (state : ConfState) (fault : Option WriteFault)

/-- An entry is in the log when its append has returned. -/
def step (session : Session) : Operation → Session
  | .appendEntry entry fault =>
    match session.storage.appendEntry primitives fault entry with
    | (.ok _, storage) => ⟨storage, Function.update session.log entry.index (some entry)⟩
    | (_, storage) => { session with storage := storage }
  | .setHardState state fault =>
    { session with storage := (session.storage.setHardState primitives fault state).2 }
  | .setConfState state fault =>
    { session with storage := (session.storage.setConfState primitives fault state).2 }

/-- The session after a list of operations on a new storage. -/
def after (objectStore : LocalObjectStore) (voters : List ℕ) (operations : List Operation) :
    Session :=
  operations.foldl (step primitives) { storage := CasRaftStorage.newEmpty objectStore voters }

/-- The recorded hashes are those of the log. -/
def RecordsLog (session : Session) : Prop :=
  ∀ index, session.storage.hashAt index =
    (session.log index).map fun entry ↦ hashBlob primitives entry.data

theorem hashAt_setHardState (storage : CasRaftStorage) (fault : Option WriteFault)
    (state : HardState) :
    (storage.setHardState primitives fault state).2.hashAt = storage.hashAt := by
  unfold CasRaftStorage.setHardState
  rcases storage.objectStore.putBlob primitives fault (hardStateJson state) with ⟨outcome, store⟩
  cases outcome <;> rfl

theorem hashAt_setConfState (storage : CasRaftStorage) (fault : Option WriteFault)
    (state : ConfState) :
    (storage.setConfState primitives fault state).2.hashAt = storage.hashAt := by
  unfold CasRaftStorage.setConfState
  rcases storage.objectStore.putBlob primitives fault (confStateJson state) with ⟨outcome, store⟩
  cases outcome <;> rfl

theorem RecordsLog.appendEntry {session : Session} (hrecords : RecordsLog primitives session)
    (entry : Entry) (fault : Option WriteFault) :
    RecordsLog primitives (step primitives session (.appendEntry entry fault)) := by
  by_cases hfails : session.storage.objectStore.WriteFails primitives fault entry.data
  · obtain ⟨error, herror⟩ := LocalObjectStore.putBlob_of_fails hfails
    rw [step, CasRaftStorage.appendEntry, herror]
    exact hrecords
  · rw [step, CasRaftStorage.appendEntry_of_not_fails hfails]
    intro index
    simp only [CasRaftStorage.hashAt, CasRaftStorage.join_getElem?_recordHash]
    by_cases hindex : index = entry.index
    · rw [if_pos hindex, hindex, Function.update_self, Option.map_some]
    · rw [if_neg hindex, Function.update_of_ne hindex]
      exact hrecords index

theorem RecordsLog.step {session : Session} (hrecords : RecordsLog primitives session)
    (operation : Operation) : RecordsLog primitives (step primitives session operation) := by
  cases operation with
  | appendEntry entry fault => exact hrecords.appendEntry primitives entry fault
  | setHardState state fault =>
    intro index
    rw [Snapshots.step, hashAt_setHardState]
    exact hrecords index
  | setConfState state fault =>
    intro index
    rw [Snapshots.step, hashAt_setConfState]
    exact hrecords index

theorem recordsLog_after (objectStore : LocalObjectStore) (voters : List ℕ)
    (operations : List Operation) :
    RecordsLog primitives (after primitives objectStore voters operations) := by
  induction operations using List.reverseRecOn with
  | nil =>
    intro index
    cases index <;> rfl
  | append_singleton earlier last ih =>
    rw [after, List.foldl_append]
    exact ih.step primitives last

/-! ## The data of a snapshot -/

/-- A payload and the byte behind it, or nothing. -/
def line (payload : Option Bytes) : Bytes := (payload.map fun data ↦ data ++ [newline]).getD []

/-- The payloads of the log at the indices. -/
def logLines (log : ℕ → Option Entry) (indices : List ℕ) : Bytes :=
  indices.flatMap fun index ↦ line ((log index).map Entry.data)

/-- The loop collects the payloads that can be read. -/
theorem collectPayloads_eq {session : Session} (hrecords : RecordsLog primitives session)
    (indices : List ℕ) (data : Bytes) :
    session.storage.collectPayloads primitives indices data =
      .ok (data ++ indices.flatMap fun index ↦
        line (session.storage.payloadAt primitives index)) := by
  induction indices generalizing data with
  | nil => rw [CasRaftStorage.collectPayloads, List.flatMap_nil, List.append_nil]
  | cons index rest ih =>
    rw [CasRaftStorage.collectPayloads, List.flatMap_cons, CasRaftStorage.payloadAt]
    cases hhash : session.storage.hashAt index with
    | none => exact ih data
    | some hash =>
      have hdigest : IsDigest hash := by
        rw [hrecords index, Option.map_eq_some_iff] at hhash
        obtain ⟨entry, -, hentry⟩ := hhash
        rw [← hentry]
        exact isDigest_sha256 primitives _
      cases hblob : session.storage.objectStore.getBlob primitives hash with
      | lost loss =>
        exact absurd hblob (LocalObjectStore.getBlob_returns_of_isDigest hdigest loss)
      | err error => simp only [ih, line, hblob, Option.map_none, Option.getD_none,
          List.nil_append]
      | ok payload => simp only [ih, line, hblob, Option.map_some, Option.getD_some,
          List.append_assoc]

/-- What a snapshot of a reachable storage is. -/
theorem snapshot_eq {session : Session} (hrecords : RecordsLog primitives session)
    (requestIndex peer : ℕ) :
    session.storage.snapshot primitives requestIndex peer =
      if session.storage.lastIndex < requestIndex then .err .snapshotTemporarilyUnavailable
      else .ok
        { data := (List.range' 1 session.storage.lastIndex).flatMap fun index ↦
            line (session.storage.payloadAt primitives index)
          metadata := some
            { index := session.storage.lastIndex
              term := 1
              confState := some (session.storage.confState.getD {}) } } := by
  rw [CasRaftStorage.snapshot, collectPayloads_eq primitives hrecords, List.nil_append]

/-! ## Sound snapshots -/

/-- Commit index of the storage. -/
def Session.commit (session : Session) : ℕ := session.storage.initialState.hardState.commit

/-- A snapshot that is returned covers the request and nothing but committed entries, has the term
of the last entry it covers, and holds the payloads up to that entry. -/
def SnapshotIsSound (session : Session) (requestIndex peer : ℕ) : Prop :=
  ∀ snapshot, session.storage.snapshot primitives requestIndex peer = .ok snapshot →
    ∃ metadata, snapshot.metadata = some metadata ∧
      requestIndex ≤ metadata.index ∧ metadata.index ≤ session.commit ∧
      (∀ entry, session.log metadata.index = some entry → metadata.term = entry.term) ∧
      snapshot.data = logLines session.log (List.range' 1 metadata.index)

/-- The whole log is committed, its last entry has the first term, and its payloads can be read. -/
structure CommittedAndReadable (session : Session) : Prop where
  committed : session.storage.lastIndex ≤ session.commit
  term : ∀ entry, session.log session.storage.lastIndex = some entry → entry.term = 1
  readable : ∀ index entry, 1 ≤ index → index ≤ session.storage.lastIndex →
    session.log index = some entry →
    session.storage.payloadAt primitives index = some entry.data

/-- A payload that can be read is the one that was logged. -/
def Genuine (session : Session) : Prop :=
  ∀ index entry data, session.log index = some entry →
    session.storage.payloadAt primitives index = some data → data = entry.data

/-- When each piece is the expected one or empty, the whole is the expected one exactly when every
piece is. -/
theorem flatMap_eq_flatMap_iff {α β : Type*} {pieces expected : α → List β} {places : List α}
    (hpieces : ∀ place ∈ places, pieces place = expected place ∨ pieces place = []) :
    places.flatMap pieces = places.flatMap expected ↔
      ∀ place ∈ places, pieces place = expected place := by
  have hshort : ∀ places : List α,
      (∀ place ∈ places, pieces place = expected place ∨ pieces place = []) →
        (places.flatMap pieces).length ≤ (places.flatMap expected).length := by
    intro places hpieces
    rw [List.length_flatMap, List.length_flatMap]
    apply List.sum_le_sum
    intro place hplace
    rcases hpieces place hplace with hsame | hempty
    · rw [hsame]
    · rw [hempty]
      exact Nat.zero_le _
  constructor
  · intro hwhole
    induction places with
    | nil => simp
    | cons place rest ih =>
      have hrest : ∀ other ∈ rest, pieces other = expected other ∨ pieces other = [] :=
        fun other hother ↦ hpieces other (List.mem_cons_of_mem place hother)
      have hsame : pieces place = expected place := by
        apply (hpieces place List.mem_cons_self).elim id
        intro hempty
        have hlength := congrArg List.length hwhole
        rw [List.flatMap_cons, List.flatMap_cons, hempty, List.nil_append, List.length_append]
          at hlength
        have hnone : (expected place).length = 0 := by
          have := hshort rest hrest
          omega
        rw [hempty, List.eq_nil_of_length_eq_zero hnone]
      rw [List.flatMap_cons, List.flatMap_cons, hsame] at hwhole
      rw [List.forall_mem_cons]
      exact ⟨hsame, ih hrest (List.append_cancel_left hwhole)⟩
  · exact fun hsame ↦ List.flatMap_congr hsame

theorem line_ne_nil (data : Bytes) : line (some data) ≠ [] := by
  simp [line]

theorem line_injective : Function.Injective line := by
  intro payload other hsame
  cases payload with
  | none =>
    cases other with
    | none => rfl
    | some data => exact absurd hsame.symm (line_ne_nil data)
  | some payload =>
    cases other with
    | none => exact absurd hsame (line_ne_nil payload)
    | some data => exact congrArg some (List.append_cancel_right hsame)

/-- What was never logged cannot be read. -/
theorem payloadAt_of_not_logged {session : Session} (hrecords : RecordsLog primitives session)
    {index : ℕ} (hlog : session.log index = none) :
    session.storage.payloadAt primitives index = none := by
  have hhash : session.storage.hashAt index = none := by rw [hrecords, hlog, Option.map_none]
  rw [CasRaftStorage.payloadAt, hhash]

/-- A snapshot that is refused is sound, and so is one of a committed and readable log. -/
theorem snapshotIsSound_of_readable {session : Session} (hrecords : RecordsLog primitives session)
    {requestIndex : ℕ} (peer : ℕ)
    (hcondition : session.storage.lastIndex < requestIndex ∨
      CommittedAndReadable primitives session) :
    SnapshotIsSound primitives session requestIndex peer := by
  intro snapshot hok
  rw [snapshot_eq primitives hrecords] at hok
  split_ifs at hok with hbeyond
  obtain ⟨hcommitted, hterm, hreadable⟩ := hcondition.resolve_left hbeyond
  rw [← Outcome.ok.inj hok]
  refine ⟨_, rfl, not_lt.mp hbeyond, hcommitted, ?_, ?_⟩
  · intro entry hentry
    exact (hterm entry hentry).symm
  · apply List.flatMap_congr
    intro index hindex
    rw [List.mem_range'_1] at hindex
    cases hlog : session.log index with
    | none => rw [payloadAt_of_not_logged primitives hrecords hlog, Option.map_none]
    | some entry => rw [hreadable index entry hindex.1 (by omega) hlog, Option.map_some]

/-- The line of a payload that is read is the one of the log, or it is left out. -/
theorem line_payloadAt {session : Session} (hrecords : RecordsLog primitives session)
    (hgenuine : Genuine primitives session) (index : ℕ) :
    line (session.storage.payloadAt primitives index) =
        line ((session.log index).map Entry.data) ∨
      line (session.storage.payloadAt primitives index) = [] := by
  cases hpayload : session.storage.payloadAt primitives index with
  | none => exact Or.inr rfl
  | some data =>
    cases hlog : session.log index with
    | none =>
      rw [payloadAt_of_not_logged primitives hrecords hlog] at hpayload
      cases hpayload
    | some entry =>
      rw [hgenuine index entry data hlog hpayload]
      exact Or.inl rfl

/-- Where no payload is mistaken for another, a snapshot that is not refused is sound only for a
committed and readable log. -/
theorem readable_of_snapshotIsSound {session : Session} (hrecords : RecordsLog primitives session)
    (hgenuine : Genuine primitives session) {requestIndex peer : ℕ}
    (hsound : SnapshotIsSound primitives session requestIndex peer)
    (hwithin : ¬ session.storage.lastIndex < requestIndex) :
    CommittedAndReadable primitives session := by
  have hsnapshot := snapshot_eq primitives hrecords requestIndex peer
  rw [if_neg hwithin] at hsnapshot
  obtain ⟨metadata, hmetadata, -, hcommitted, hterm, hdata⟩ := hsound _ hsnapshot
  rw [← Option.some.inj hmetadata] at hcommitted hterm hdata
  refine ⟨hcommitted, fun entry hentry ↦ (hterm entry hentry).symm, ?_⟩
  intro index entry hfirst hlast hlog
  have hlines := (flatMap_eq_flatMap_iff fun index _ ↦
    line_payloadAt primitives hrecords hgenuine index).mp hdata index
      (List.mem_range'_1.mpr ⟨hfirst, by omega⟩)
  rw [line_injective hlines, hlog, Option.map_some]

/-- A snapshot is sound when it is refused, or when everything it covers is committed, in the first
term and readable. Where no payload is mistaken for another it is sound only then. -/
theorem snapshotIsSound_iff (objectStore : LocalObjectStore) (voters : List ℕ)
    (operations : List Operation) (requestIndex peer : ℕ) :
    let session := after primitives objectStore voters operations
    (session.storage.lastIndex < requestIndex ∨ CommittedAndReadable primitives session →
      SnapshotIsSound primitives session requestIndex peer) ∧
    (Genuine primitives session → SnapshotIsSound primitives session requestIndex peer →
      session.storage.lastIndex < requestIndex ∨ CommittedAndReadable primitives session) := by
  intro session
  have hrecords := recordsLog_after primitives objectStore voters operations
  constructor
  · exact snapshotIsSound_of_readable primitives hrecords peer
  · intro hgenuine hsound
    rw [or_iff_not_imp_left]
    exact readable_of_snapshotIsSound primitives hrecords hgenuine hsound

/-- The term of a snapshot is that of the first term whatever entry is last. -/
theorem snapshot_of_second_term :
    ¬ ∀ (primitives : Primitives) (objectStore : LocalObjectStore) (voters : List ℕ)
      (operations : List Operation) (requestIndex peer : ℕ),
      SnapshotIsSound primitives (after primitives objectStore voters operations)
        requestIndex peer := by
  intro hgeneral
  have hsound := hgeneral tabulated ⟨[], ∅⟩ [1]
    [.appendEntry { index := 1, term := 2 } none, .setHardState { term := 2, commit := 1 } none] 1 0
  have hrecords := recordsLog_after tabulated ⟨[], ∅⟩ [1]
    [.appendEntry { index := 1, term := 2 } none, .setHardState { term := 2, commit := 1 } none]
  obtain ⟨metadata, hmetadata, -, -, hterm, -⟩ :=
    hsound _ ((snapshot_eq tabulated hrecords 1 0).trans (if_neg (by decide)))
  rw [← Option.some.inj hmetadata] at hterm
  exact absurd (hterm { index := 1, term := 2 } rfl) (by decide)

end Snapshots

end EdgeOrchestrator.Raft

import EdgeOrchestrator.Foundation.LruCache
import EdgeOrchestrator.Storage.Store

/-!
# Raft storage over the object store

`CasRaftStorage` answers the log queries of raft-rs. The payload of an entry is stored as a blob
and its hash is kept in a vector indexed by log index; whole entries are kept only in a cache of
bounded size. A read that misses the cache rebuilds the entry from the blob. The hard state is
written to the object store and kept in memory.
-/

namespace EdgeOrchestrator.Raft

open Storage

inductive EntryType
  | normal
  | confChange
  | confChangeV2
  deriving DecidableEq, Repr

/-- A log entry of raft-rs. The defaults are those of its protobuf message. -/
structure Entry where
  entryType : EntryType := .normal
  term : ℕ := 0
  index : ℕ := 0
  data : Bytes := []
  context : Bytes := []
  deriving DecidableEq, Repr

structure HardState where
  term : ℕ := 0
  vote : ℕ := 0
  commit : ℕ := 0
  deriving DecidableEq, Repr

structure ConfState where
  voters : List ℕ := []
  learners : List ℕ := []
  votersOutgoing : List ℕ := []
  learnersNext : List ℕ := []
  autoLeave : Bool := false
  deriving DecidableEq, Repr

structure RaftState where
  hardState : HardState
  confState : ConfState
  deriving DecidableEq, Repr

/-- The storage errors that raft-rs is given. -/
inductive RaftError
  | unavailable
  | snapshotTemporarilyUnavailable
  deriving DecidableEq, Repr

/-- Maximum number of log entries to cache in memory. -/
def entryCacheSize : ℕ := 1024

abbrev EntryCache := LruCache ℕ Entry entryCacheSize

structure CasRaftStorage where
  objectStore : LocalObjectStore
  entryCache : EntryCache
  hardState : Option HardState
  confState : Option ConfState
  firstIndex : ℕ
  lastIndex : ℕ
  entryHashes : List (Option Hash)

/-- JSON text of a hard state, with the keys in the order of the serializer's sorted map. -/
def hardStateJson (state : HardState) : Bytes :=
  utf8 ("\x7b\"commit\":" ++ toString state.commit ++ ",\"term\":" ++ toString state.term ++
    ",\"vote\":" ++ toString state.vote ++ "\x7d")

/-- Grow the vector with `none` up to the index and store the hash there. -/
def recordHash (hashes : List (Option Hash)) (index : ℕ) (hash : Hash) : List (Option Hash) :=
  (hashes ++ List.replicate (index + 1 - hashes.length) none).set index (some hash)

def littleEndian : Bytes → ℕ
  | [] => 0
  | byte :: rest => byte.toNat + 256 * littleEndian rest

/-- The size limit stops a read that already has an entry. -/
def overLimit (maxSize : Option ℕ) (entries : List Entry) (totalSize size : ℕ) : Bool :=
  match maxSize with
  | some limit => !entries.isEmpty && decide (limit < totalSize + size)
  | none => false

namespace CasRaftStorage

variable (primitives : Primitives)

/-- Storage of a node that starts with a static configuration and reads nothing back. -/
def newEmpty (objectStore : LocalObjectStore) (voters : List ℕ) : CasRaftStorage where
  objectStore := objectStore
  entryCache := LruCache.empty ℕ Entry entryCacheSize
  hardState := none
  confState := some { voters := voters }
  firstIndex := 1
  lastIndex := 0
  entryHashes := [none]

/-- Store the payload, remember its hash, cache the entry and advance the last index. -/
def appendEntry (fault : Option WriteFault) (storage : CasRaftStorage) (entry : Entry) :
    Outcome CoreError Unit × CasRaftStorage :=
  match storage.objectStore.putBlob primitives fault entry.data with
  | (.err error, store) => (.err error, { storage with objectStore := store })
  | (.lost loss, store) => (.lost loss, { storage with objectStore := store })
  | (.ok hash, store) =>
    (.ok (), { storage with
      objectStore := store
      entryHashes := recordHash storage.entryHashes entry.index hash
      entryCache := storage.entryCache.put entry.index entry
      lastIndex := if storage.lastIndex < entry.index then entry.index else storage.lastIndex })

/-- Write the hard state as a blob and keep it in memory. -/
def setHardState (fault : Option WriteFault) (storage : CasRaftStorage) (state : HardState) :
    Outcome CoreError Unit × CasRaftStorage :=
  match storage.objectStore.putBlob primitives fault (hardStateJson state) with
  | (.err error, store) => (.err error, { storage with objectStore := store })
  | (.lost loss, store) => (.lost loss, { storage with objectStore := store })
  | (.ok _, store) => (.ok (), { storage with objectStore := store, hardState := some state })

def initialState (storage : CasRaftStorage) : RaftState where
  hardState := storage.hardState.getD {}
  confState := storage.confState.getD {}

/-- Hash recorded for a log index. -/
def hashAt (storage : CasRaftStorage) (index : ℕ) : Option Hash := storage.entryHashes[index]?.join

/-- The loop of `entries`. A miss whose blob cannot be read is skipped; one whose blob is read
puts the rebuilt entry into the cache. -/
def readLoop (storage : CasRaftStorage) (maxSize : Option ℕ) :
    List ℕ → EntryCache → List Entry → ℕ → Outcome RaftError (List Entry) × EntryCache
  | [], cache, entries, _ => (.ok entries, cache)
  | index :: rest, cache, entries, totalSize =>
    match cache.get index with
    | (some entry, touched) =>
      if overLimit maxSize entries totalSize entry.data.length then (.ok entries, touched)
      else storage.readLoop maxSize rest touched (entries ++ [entry])
        (totalSize + entry.data.length)
    | (none, touched) =>
      match storage.hashAt index with
      | none => storage.readLoop maxSize rest touched entries totalSize
      | some hash =>
        match storage.objectStore.getBlob primitives hash with
        | .err _ => storage.readLoop maxSize rest touched entries totalSize
        | .lost loss => (.lost loss, touched)
        | .ok data =>
          let entry : Entry := { index := index, data := data }
          if overLimit maxSize entries totalSize data.length then (.ok entries, touched)
          else storage.readLoop maxSize rest (touched.put index entry) (entries ++ [entry])
            (totalSize + data.length)

/-- Entries with an index from `low` up to but not including `high`. -/
def entries (storage : CasRaftStorage) (low high : ℕ) (maxSize : Option ℕ) :
    Outcome RaftError (List Entry) × CasRaftStorage :=
  if storage.lastIndex + 1 < high then
    (.lost (.panic ("entries: requested high=" ++ toString high ++ " exceeds last_index+1=" ++
      toString (storage.lastIndex + 1))), storage)
  else
    let (outcome, cache) :=
      storage.readLoop primitives maxSize (List.range' low (high - low)) storage.entryCache [] 0
    (outcome, { storage with entryCache := cache })

/-- Term of a log index. Behind the cache it is read off the first eight bytes of the payload. -/
def term (storage : CasRaftStorage) (index : ℕ) : Outcome RaftError ℕ × CasRaftStorage :=
  if index < storage.firstIndex - 1 then (.err .unavailable, storage)
  else if index = storage.firstIndex - 1 then (.ok 0, storage)
  else
    match storage.entryCache.get index with
    | (some entry, touched) => (.ok entry.term, { storage with entryCache := touched })
    | (none, touched) =>
      let after := { storage with entryCache := touched }
      match storage.hashAt index with
      | none => (.err .unavailable, after)
      | some hash =>
        match storage.objectStore.getBlob primitives hash with
        | .ok data =>
          if 8 ≤ data.length then (.ok (littleEndian (data.take 8)), after)
          else (.err .unavailable, after)
        | .err _ => (.err .unavailable, after)
        | .lost loss => (.lost loss, after)

/-- An append whose write succeeds. -/
theorem appendEntry_of_not_fails {primitives : Primitives} {fault : Option WriteFault}
    {storage : CasRaftStorage} {entry : Entry}
    (hwrite : ¬ storage.objectStore.WriteFails primitives fault entry.data) :
    storage.appendEntry primitives fault entry = (.ok (), { storage with
      objectStore := (storage.objectStore.putBlob primitives fault entry.data).2
      entryHashes :=
        recordHash storage.entryHashes entry.index (hashBlob primitives entry.data)
      entryCache := storage.entryCache.put entry.index entry
      lastIndex := if storage.lastIndex < entry.index then entry.index else storage.lastIndex }) := by
  unfold appendEntry
  rw [LocalObjectStore.putBlob_of_not_fails hwrite]

/-- An append returns an error exactly when its write fails. -/
theorem appendEntry_fst_eq_ok_iff (fault : Option WriteFault) (storage : CasRaftStorage)
    (entry : Entry) :
    (storage.appendEntry primitives fault entry).1 = .ok () ↔
      ¬ storage.objectStore.WriteFails primitives fault entry.data := by
  constructor
  · intro hok hfails
    rcases LocalObjectStore.putBlob_of_fails hfails with ⟨error, herror⟩
    unfold appendEntry at hok
    rw [herror] at hok
    cases hok
  · intro hwrite
    rw [appendEntry_of_not_fails hwrite]

theorem appendEntry_objectStore (fault : Option WriteFault) (storage : CasRaftStorage)
    (entry : Entry) :
    (storage.appendEntry primitives fault entry).2.objectStore =
      (storage.objectStore.putBlob primitives fault entry.data).2 := by
  unfold appendEntry
  rcases storage.objectStore.putBlob primitives fault entry.data with ⟨outcome, store⟩
  cases outcome <;> rfl

theorem appendEntry_hardState (fault : Option WriteFault) (storage : CasRaftStorage)
    (entry : Entry) :
    (storage.appendEntry primitives fault entry).2.hardState = storage.hardState := by
  unfold appendEntry
  rcases storage.objectStore.putBlob primitives fault entry.data with ⟨outcome, store⟩
  cases outcome <;> rfl

/-- A hard state whose write succeeds. -/
theorem setHardState_of_not_fails {primitives : Primitives} {fault : Option WriteFault}
    {storage : CasRaftStorage} {state : HardState}
    (hwrite : ¬ storage.objectStore.WriteFails primitives fault (hardStateJson state)) :
    storage.setHardState primitives fault state = (.ok (), { storage with
      objectStore := (storage.objectStore.putBlob primitives fault (hardStateJson state)).2
      hardState := some state }) := by
  unfold setHardState
  rw [LocalObjectStore.putBlob_of_not_fails hwrite]

/-- Persisting a hard state returns an error exactly when its write fails. -/
theorem setHardState_fst_eq_ok_iff (fault : Option WriteFault) (storage : CasRaftStorage)
    (state : HardState) :
    (storage.setHardState primitives fault state).1 = .ok () ↔
      ¬ storage.objectStore.WriteFails primitives fault (hardStateJson state) := by
  constructor
  · intro hok hfails
    rcases LocalObjectStore.putBlob_of_fails hfails with ⟨error, herror⟩
    unfold setHardState at hok
    rw [herror] at hok
    cases hok
  · intro hwrite
    rw [setHardState_of_not_fails hwrite]

theorem setHardState_objectStore (fault : Option WriteFault) (storage : CasRaftStorage)
    (state : HardState) :
    (storage.setHardState primitives fault state).2.objectStore =
      (storage.objectStore.putBlob primitives fault (hardStateJson state)).2 := by
  unfold setHardState
  rcases storage.objectStore.putBlob primitives fault (hardStateJson state) with ⟨outcome, store⟩
  cases outcome <;> rfl

/-- Recording a hash changes what is recorded at its index only. -/
theorem join_getElem?_recordHash (hashes : List (Option Hash)) (index : ℕ) (hash : Hash)
    (other : ℕ) :
    (recordHash hashes index hash)[other]?.join =
      if other = index then some hash else hashes[other]?.join := by
  have hlength : index < (hashes ++ List.replicate (index + 1 - hashes.length) none).length := by
    rw [List.length_append, List.length_replicate]
    omega
  unfold recordHash
  by_cases hother : other = index
  · rw [if_pos hother, hother, List.getElem?_set_self hlength]
    rfl
  · rw [if_neg hother, List.getElem?_set_ne (Ne.symm hother)]
    by_cases hinside : other < hashes.length
    · rw [List.getElem?_append_left hinside]
    · rw [List.getElem?_append_right (not_lt.mp hinside), List.getElem?_eq_none (not_lt.mp hinside),
        List.getElem?_replicate]
      split_ifs <;> rfl

/-- A read none of whose indices has to be rebuilt: every index is in the cache, or was never
recorded. It returns what the cache holds and only changes the recency order. -/
theorem readLoop_of_held {storage : CasRaftStorage} {held : ℕ → Option Entry} {indices : List ℕ}
    {cache : EntryCache} (hheld : ∀ index ∈ indices, cache.peek index = held index)
    (hmissing : ∀ index ∈ indices, held index = none → storage.hashAt index = none)
    (entries : List Entry) (totalSize : ℕ) :
    (storage.readLoop primitives none indices cache entries totalSize).1 =
        .ok (entries ++ indices.filterMap held) ∧
      ∀ index, (storage.readLoop primitives none indices cache entries totalSize).2.peek index =
        cache.peek index := by
  induction indices generalizing cache entries totalSize with
  | nil => exact ⟨by rw [List.filterMap_nil, List.append_nil]; rfl, fun _ ↦ rfl⟩
  | cons first rest ih =>
    have hfirst : cache.peek first = held first := hheld first List.mem_cons_self
    have hmiss := hmissing first List.mem_cons_self
    have hlater : ∀ index ∈ rest, held index = none → storage.hashAt index = none :=
      fun index hindex ↦ hmissing index (List.mem_cons_of_mem first hindex)
    have htouched : ∀ index ∈ rest, (cache.get first).2.peek index = held index := by
      intro index hindex
      rw [LruCache.peek_get_snd]
      exact hheld index (List.mem_cons_of_mem first hindex)
    have hlookup : (cache.get first).1 = held first := by rw [LruCache.get_fst, hfirst]
    rw [readLoop, ← Prod.mk.eta (p := cache.get first), hlookup]
    cases hentry : held first with
    | none =>
      rw [hmiss hentry, List.filterMap_cons_none hentry]
      rcases ih htouched hlater entries totalSize with ⟨hread, hcache⟩
      exact ⟨hread, fun index ↦ by rw [hcache, LruCache.peek_get_snd]⟩
    | some entry =>
      rw [List.filterMap_cons_some hentry]
      rcases ih htouched hlater (entries ++ [entry]) (totalSize + entry.data.length) with
        ⟨hread, hcache⟩
      rw [List.append_assoc] at hread
      exact ⟨hread, fun index ↦ by rw [← LruCache.peek_get_snd cache first]; exact hcache index⟩

theorem entries_of_held {storage : CasRaftStorage} {held : ℕ → Option Entry} {low high : ℕ}
    (hhigh : high ≤ storage.lastIndex + 1)
    (hheld : ∀ index ∈ List.range' low (high - low),
      storage.entryCache.peek index = held index)
    (hmissing : ∀ index ∈ List.range' low (high - low),
      held index = none → storage.hashAt index = none) :
    (storage.entries primitives low high none).1 =
      .ok ((List.range' low (high - low)).filterMap held) := by
  rw [entries, if_neg (not_lt.mpr hhigh)]
  exact (readLoop_of_held primitives hheld hmissing [] 0).1

/-- Such a read only changes the recency order of the cache. -/
theorem entries_snd_of_held {storage : CasRaftStorage} {held : ℕ → Option Entry} {low high : ℕ}
    (hheld : high ≤ storage.lastIndex + 1 → ∀ index ∈ List.range' low (high - low),
      storage.entryCache.peek index = held index)
    (hmissing : ∀ index ∈ List.range' low (high - low),
      held index = none → storage.hashAt index = none) :
    ∃ cache, (storage.entries primitives low high none).2 = { storage with entryCache := cache } ∧
      ∀ index, cache.peek index = storage.entryCache.peek index := by
  unfold entries
  by_cases hhigh : storage.lastIndex + 1 < high
  · rw [if_pos hhigh]
    exact ⟨storage.entryCache, rfl, fun _ ↦ rfl⟩
  · rw [if_neg hhigh]
    exact ⟨_, rfl, (readLoop_of_held primitives (hheld (not_lt.mp hhigh)) hmissing [] 0).2⟩

/-- A term query only changes the recency order of the cache. -/
theorem term_snd (storage : CasRaftStorage) (index : ℕ) :
    ∃ cache, (storage.term primitives index).2 = { storage with entryCache := cache } ∧
      ∀ other, cache.peek other = storage.entryCache.peek other := by
  unfold term
  split_ifs
  · exact ⟨storage.entryCache, rfl, fun _ ↦ rfl⟩
  · exact ⟨storage.entryCache, rfl, fun _ ↦ rfl⟩
  · refine ⟨(storage.entryCache.get index).2, ?_, storage.entryCache.peek_get_snd index⟩
    rcases storage.entryCache.get index with ⟨found, touched⟩
    cases found with
    | some entry => rfl
    | none =>
      dsimp only
      split
      · rfl
      · split
        · split_ifs <;> rfl
        · rfl
        · rfl

/-- The term of an entry in the cache. -/
theorem term_of_held {storage : CasRaftStorage} {index : ℕ} {entry : Entry}
    (hindex : storage.firstIndex ≤ index) (hpositive : 0 < index)
    (hheld : storage.entryCache.peek index = some entry) :
    (storage.term primitives index).1 = .ok entry.term := by
  have hlookup : (storage.entryCache.get index).1 = some entry := by rw [LruCache.get_fst, hheld]
  rw [term, if_neg (by omega), if_neg (by omega),
    ← Prod.mk.eta (p := storage.entryCache.get index), hlookup]

/-- An index without an entry or a hash has no term. -/
theorem term_of_unrecorded {storage : CasRaftStorage} {index : ℕ}
    (hindex : storage.firstIndex ≤ index) (hpositive : 0 < index)
    (hheld : storage.entryCache.peek index = none) (hhash : storage.hashAt index = none) :
    (storage.term primitives index).1 = .err .unavailable := by
  have hlookup : (storage.entryCache.get index).1 = none := by rw [LruCache.get_fst, hheld]
  rw [term, if_neg (by omega), if_neg (by omega),
    ← Prod.mk.eta (p := storage.entryCache.get index), hlookup, hhash]

end CasRaftStorage

end EdgeOrchestrator.Raft

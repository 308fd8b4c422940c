import EdgeOrchestrator.Foundation.Execution
import EdgeOrchestrator.Foundation.IndexedLog
import EdgeOrchestrator.Raft.Node

/-!
# The storage against a truncating log

The reference log discards everything from the first index of a batch on before it appends the
batch. The storage overwrites in place and never lowers its last index, so it is the spliced log
instead. As long as the cache holds every entry, the two agree exactly along the sequences of
batches that all reach the end of the log.
-/

namespace EdgeOrchestrator.Raft.LogRefinement

open Execution IndexedLog Storage

variable (primitives : Primitives)

/-- The entry writes of a cycle, without faults. -/
def appendAll (storage : CasRaftStorage) (batch : List Entry) : CasRaftStorage :=
  batch.foldl (fun storage entry ↦ (storage.appendEntry primitives none entry).2) storage

theorem persistEntries_storage (node : RaftNode) (batch : List Entry) :
    (node.persistEntries primitives (fun _ ↦ none) batch).1.storage =
      appendAll primitives node.storage batch := by
  induction batch generalizing node with
  | nil => rfl
  | cons entry rest ih => exact ih _

/-- The entries have consecutive indices from `start` on. -/
def Consecutive (start : ℕ) (batch : List Entry) : Prop :=
  batch.map Entry.index = List.range' start batch.length

instance (start : ℕ) (batch : List Entry) : Decidable (Consecutive start batch) :=
  inferInstanceAs (Decidable (_ = _))

/-- No entry of the batch pushes another one out of the cache. -/
def NoEviction : CasRaftStorage → List Entry → Prop
  | _, [] => True
  | storage, entry :: rest =>
    ¬ storage.entryCache.Evicts entry.index ∧
      NoEviction (storage.appendEntry primitives none entry).2 rest

instance decidableNoEviction : (storage : CasRaftStorage) → (batch : List Entry) →
    Decidable (NoEviction primitives storage batch)
  | _, [] => isTrue trivial
  | storage, entry :: rest =>
    have := decidableNoEviction (storage.appendEntry primitives none entry).2 rest
    inferInstanceAs (Decidable (_ ∧ _))

/-- The batches that may be persisted. -/
def Admissible (storage : CasRaftStorage) : List Entry → Prop
  | [] => True
  | first :: rest =>
    storage.firstIndex ≤ first.index ∧ first.index ≤ storage.lastIndex + 1 ∧
      Consecutive first.index (first :: rest) ∧ NoEviction primitives storage (first :: rest)

instance (storage : CasRaftStorage) (batch : List Entry) :
    Decidable (Admissible primitives storage batch) :=
  match batch with
  | [] => isTrue trivial
  | _ :: _ => inferInstanceAs (Decidable (_ ∧ _))

/-- The reference log after a batch. -/
def truncatingAppend (log : List Entry) : List Entry → List Entry
  | [] => log
  | first :: rest => overwrite log first.index (first :: rest)

/-- The storage and the reference log, side by side. -/
structure Pair where
  storage : CasRaftStorage
  log : List Entry

/-- Persist one batch on both sides. -/
def step (pair : Pair) (batch : List Entry) : Option Pair :=
  if Admissible primitives pair.storage batch then
    some ⟨appendAll primitives pair.storage batch, truncatingAppend pair.log batch⟩
  else none

/-- Term of an index of the reference log, whose first index is one. -/
def logTerm (log : List Entry) (index : ℕ) : Outcome RaftError ℕ :=
  if index = 0 then .ok 0
  else
    match itemAt log index with
    | some entry => .ok entry.term
    | none => .err .unavailable

/-- Entries of a range of the reference log. -/
def logEntries (log : List Entry) (low high : ℕ) : Outcome RaftError (List Entry) :=
  if log.length + 1 < high then
    .lost (.panic ("entries: requested high=" ++ toString high ++ " exceeds last_index+1=" ++
      toString (log.length + 1)))
  else .ok (slice log low high)

/-- Every query of the storage is answered as by the reference log. -/
def Agrees (pair : Pair) : Prop :=
  pair.storage.lastIndex = pair.log.length ∧
    (∀ index, (pair.storage.term primitives index).1 = logTerm pair.log index) ∧
    ∀ low high, (pair.storage.entries primitives low high none).1 = logEntries pair.log low high

/-- The batch is empty or is not shorter than the suffix it replaces. -/
def ReachesEnd (pair : Pair) (batch : List Entry) : Prop :=
  ∀ first ∈ batch.head?, pair.storage.lastIndex + 1 ≤ first.index + batch.length

/-- The storage holds a log, all of it in the cache. -/
structure Mirrors (storage : CasRaftStorage) (log : List Entry) : Prop where
  firstIndex : storage.firstIndex = 1
  lastIndex : storage.lastIndex = log.length
  held : ∀ index, storage.entryCache.peek index = itemAt log index
  unrecorded : ∀ index, itemAt log index = none → storage.hashAt index = none

theorem mirrors_newEmpty (objectStore : LocalObjectStore) (voters : List ℕ) :
    Mirrors (CasRaftStorage.newEmpty objectStore voters) [] where
  firstIndex := rfl
  lastIndex := rfl
  held index := by
    cases index <;> rfl
  unrecorded index _ := by
    cases index <;> rfl

/-- One append splices one entry. -/
theorem mirrors_appendEntry {storage : CasRaftStorage} {log : List Entry} {entry : Entry}
    (hmirrors : Mirrors storage log) (hfirst : 1 ≤ entry.index)
    (hlast : entry.index ≤ log.length + 1) (hroom : ¬ storage.entryCache.Evicts entry.index) :
    Mirrors (storage.appendEntry primitives none entry).2 (splice log entry.index [entry]) := by
  rw [CasRaftStorage.appendEntry_of_not_fails (LocalObjectStore.not_writeFails_none _ _ _)]
  constructor
  · exact hmirrors.firstIndex
  · dsimp only
    rw [length_splice hlast, List.length_singleton, hmirrors.lastIndex]
    split_ifs <;> omega
  · intro index
    rw [itemAt_splice_singleton entry hfirst hlast]
    dsimp only
    by_cases hindex : index = entry.index
    · rw [if_pos hindex, hindex]
      exact LruCache.peek_put_self _ _ _ (by decide)
    · rw [if_neg hindex, LruCache.peek_put_of_ne entry hroom hindex, hmirrors.held]
  · intro index hnone
    rw [itemAt_splice_singleton entry hfirst hlast] at hnone
    by_cases hindex : index = entry.index
    · rw [if_pos hindex] at hnone
      cases hnone
    · rw [if_neg hindex] at hnone
      simp only [CasRaftStorage.hashAt, CasRaftStorage.join_getElem?_recordHash, if_neg hindex]
      exact hmirrors.unrecorded index hnone

theorem consecutive_cons {start : ℕ} {entry : Entry} {rest : List Entry} :
    Consecutive start (entry :: rest) ↔ entry.index = start ∧ Consecutive (start + 1) rest := by
  simp only [Consecutive, List.map_cons, List.length_cons, List.range'_succ, List.cons.injEq]

/-- A batch is spliced as a whole. -/
theorem mirrors_appendAll {storage : CasRaftStorage} {log : List Entry} {start : ℕ}
    {batch : List Entry} (hmirrors : Mirrors storage log) (hfirst : 1 ≤ start)
    (hlast : start ≤ log.length + 1) (hconsecutive : Consecutive start batch)
    (hroom : NoEviction primitives storage batch) :
    Mirrors (appendAll primitives storage batch) (splice log start batch) := by
  induction batch generalizing storage log start with
  | nil =>
    rw [splice_nil]
    exact hmirrors
  | cons entry rest ih =>
    rcases consecutive_cons.mp hconsecutive with ⟨rfl, hrest⟩
    have hentry := mirrors_appendEntry primitives hmirrors hfirst hlast hroom.1
    have hlength : entry.index + 1 ≤ (splice log entry.index [entry]).length + 1 := by
      rw [length_splice hlast, List.length_singleton]
      omega
    rw [splice_cons entry rest hfirst hlast]
    exact ih hentry (by omega) hlength hrest hroom.2

theorem term_eq_logTerm {storage : CasRaftStorage} {log : List Entry} {index : ℕ}
    (hfirst : storage.firstIndex = 1) (hheld : storage.entryCache.peek index = itemAt log index)
    (hunrecorded : itemAt log index = none → storage.hashAt index = none) :
    (storage.term primitives index).1 = logTerm log index := by
  unfold logTerm
  by_cases hzero : index = 0
  · rw [if_pos hzero, CasRaftStorage.term, if_neg (by omega), if_pos (by omega)]
  · rw [if_neg hzero]
    cases hitem : itemAt log index with
    | none =>
      rw [hitem] at hheld
      exact CasRaftStorage.term_of_unrecorded primitives (by omega) (by omega) hheld
        (hunrecorded hitem)
    | some entry =>
      rw [hitem] at hheld
      exact CasRaftStorage.term_of_held primitives (by omega) (by omega) hheld

theorem entries_eq_logEntries {storage : CasRaftStorage} {log : List Entry} {low high : ℕ}
    (hlast : storage.lastIndex = log.length)
    (hheld : high ≤ log.length + 1 → ∀ index ∈ List.range' low (high - low),
      storage.entryCache.peek index = itemAt log index)
    (hunrecorded : ∀ index, itemAt log index = none → storage.hashAt index = none) :
    (storage.entries primitives low high none).1 = logEntries log low high := by
  unfold logEntries
  by_cases hhigh : log.length + 1 < high
  · rw [if_pos hhigh, CasRaftStorage.entries, hlast, if_pos hhigh]
  · rw [if_neg hhigh]
    apply CasRaftStorage.entries_of_held primitives
    · rw [hlast]
      exact not_lt.mp hhigh
    · exact hheld (not_lt.mp hhigh)
    · exact fun index _ ↦ hunrecorded index

/-- A storage that mirrors a log answers as the log does. -/
theorem agrees_of_mirrors {pair : Pair} (hmirrors : Mirrors pair.storage pair.log) :
    Agrees primitives pair := by
  refine ⟨hmirrors.lastIndex, fun index ↦ ?_, fun low high ↦ ?_⟩
  · exact term_eq_logTerm primitives hmirrors.firstIndex (hmirrors.held index)
      (hmirrors.unrecorded index)
  · exact entries_eq_logEntries primitives hmirrors.lastIndex
      (fun _ index _ ↦ hmirrors.held index) hmirrors.unrecorded

/-- What a batch does to both sides. -/
theorem step_cases {pair next : Pair} {batch : List Entry}
    (hmirrors : Mirrors pair.storage pair.log) (hstep : step primitives pair batch = some next) :
    batch = [] ∧ next = pair ∨
      ∃ first rest, batch = first :: rest ∧ 1 ≤ first.index ∧ first.index ≤ pair.log.length + 1 ∧
        Mirrors next.storage (splice pair.log first.index batch) ∧
        next.log = overwrite pair.log first.index batch := by
  rw [step, Option.ite_none_right_eq_some] at hstep
  rcases hstep with ⟨hadmissible, hnext⟩
  rw [← Option.some.inj hnext]
  cases batch with
  | nil => exact Or.inl ⟨rfl, rfl⟩
  | cons first rest =>
    rcases hadmissible with ⟨hfirst, hlast, hconsecutive, hroom⟩
    rw [hmirrors.firstIndex] at hfirst
    rw [hmirrors.lastIndex] at hlast
    exact Or.inr ⟨first, rest, rfl, hfirst, hlast,
      mirrors_appendAll primitives hmirrors hfirst hlast hconsecutive hroom, rfl⟩

theorem mirrors_of_reachesEnd {pair next : Pair} {batch : List Entry}
    (hmirrors : Mirrors pair.storage pair.log) (hreaches : ReachesEnd pair batch)
    (hstep : step primitives pair batch = some next) : Mirrors next.storage next.log := by
  rcases step_cases primitives hmirrors hstep with
    ⟨-, rfl⟩ | ⟨first, rest, rfl, hfirst, -, hspliced, hlog⟩
  · exact hmirrors
  · have hend := hreaches first rfl
    rw [hmirrors.lastIndex] at hend
    rw [hlog, ← splice_eq_overwrite (by omega)]
    exact hspliced

theorem reachesEnd_of_lastIndex {pair next : Pair} {batch : List Entry}
    (hmirrors : Mirrors pair.storage pair.log) (hstep : step primitives pair batch = some next)
    (hlast : next.storage.lastIndex = next.log.length) : ReachesEnd pair batch := by
  rcases step_cases primitives hmirrors hstep with
    ⟨rfl, -⟩ | ⟨first, rest, rfl, hfirst, hstart, hspliced, hlog⟩
  · intro first hhead
    cases hhead
  · intro other hother
    have hsame : first = other := Option.some.inj hother
    rw [hspliced.lastIndex, hlog, length_splice hstart, length_overwrite hstart] at hlast
    rw [hmirrors.lastIndex, ← hsame]
    omega

/-- The storage agrees with the truncating log throughout a sequence of batches exactly when no
batch is shorter than the suffix it replaces. -/
theorem agrees_throughout_iff (objectStore : LocalObjectStore) (voters : List ℕ)
    (batches : List (List Entry)) :
    Throughout (step primitives) (Agrees primitives)
        ⟨CasRaftStorage.newEmpty objectStore voters, []⟩ batches ↔
      Guarded (step primitives) ReachesEnd
        ⟨CasRaftStorage.newEmpty objectStore voters, []⟩ batches := by
  apply throughout_iff_guarded fun pair ↦ Mirrors pair.storage pair.log
  · intro pair hmirrors
    exact agrees_of_mirrors primitives hmirrors
  · intro pair batch next hmirrors hreaches hstep
    exact mirrors_of_reachesEnd primitives hmirrors hreaches hstep
  · intro pair batch next hmirrors hstep hagrees
    exact reachesEnd_of_lastIndex primitives hmirrors hstep hagrees.1
  · exact mirrors_newEmpty objectStore voters

/-- The three entries of an old leader. -/
def oldSuffix : List Entry :=
  [{ term := 1, index := 1 }, { term := 1, index := 2 }, { term := 1, index := 3 }]

/-- The one entry with which a new leader replaces the last two of them. -/
def newSuffix : List Entry := [{ term := 2, index := 2 }]

theorem shorter_suffix_is_not_truncated :
    ¬ ∀ (primitives : Primitives) (objectStore : LocalObjectStore) (voters : List ℕ)
      (batches : List (List Entry)) (final : Pair),
      run (step primitives) ⟨CasRaftStorage.newEmpty objectStore voters, []⟩ batches = some final →
        Agrees primitives final := by
  intro hgeneral
  have hagrees := hgeneral tabulated ⟨[], ∅⟩ [1, 2, 3] [oldSuffix, newSuffix] _ rfl
  have hlast : 3 = 2 := hagrees.1
  omega

end EdgeOrchestrator.Raft.LogRefinement

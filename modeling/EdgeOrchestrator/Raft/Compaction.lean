import EdgeOrchestrator.Raft.LogReads

/-!
# Compaction

A compaction moves the first index behind the compacted entries and drops these from the cache; the
payloads and their hashes stay. The first index is overwritten whatever it was, the term of the
entry in front of it is not kept, and `entries` never looks at it.
-/

namespace EdgeOrchestrator.Raft

open Storage

namespace CasRaftStorage

variable (primitives : Primitives)

/-- Compact log entries up to the given index. -/
def compact (storage : CasRaftStorage) (compactIndex : ℕ) :
    Outcome CoreError Unit × CasRaftStorage :=
  if storage.lastIndex < compactIndex then
    (.err (.invalidState ("compact_index " ++ toString compactIndex ++ " > last_index " ++
      toString storage.lastIndex)), storage)
  else
    (.ok (), { storage with
      firstIndex := compactIndex + 1
      entryCache := (List.range' 1 compactIndex).foldl LruCache.pop storage.entryCache })

section Compact

variable {primitives} {storage : CasRaftStorage} {compactIndex : ℕ}

theorem compact_of_beyond (hbeyond : storage.lastIndex < compactIndex) :
    storage.compact compactIndex =
      (.err (.invalidState ("compact_index " ++ toString compactIndex ++ " > last_index " ++
        toString storage.lastIndex)), storage) :=
  if_pos hbeyond

theorem compact_of_within (hwithin : compactIndex ≤ storage.lastIndex) :
    storage.compact compactIndex = (.ok (), { storage with
      firstIndex := compactIndex + 1
      entryCache := (List.range' 1 compactIndex).foldl LruCache.pop storage.entryCache }) :=
  if_neg (not_lt.mpr hwithin)

/-- A compaction that returns an error changes nothing. -/
theorem compact_snd_of_err {error : CoreError}
    (herror : (storage.compact compactIndex).1 = .err error) :
    (storage.compact compactIndex).2 = storage := by
  by_cases hbeyond : storage.lastIndex < compactIndex
  · rw [compact_of_beyond hbeyond]
  · rw [compact_of_within (not_lt.mp hbeyond)] at herror
    cases herror

/-- The first index moves back when an earlier index is compacted. -/
theorem firstIndex_le_compact_iff :
    storage.firstIndex ≤ (storage.compact compactIndex).2.firstIndex ↔
      storage.lastIndex < compactIndex ∨ storage.firstIndex ≤ compactIndex + 1 := by
  by_cases hbeyond : storage.lastIndex < compactIndex
  · rw [compact_of_beyond hbeyond]
    exact iff_of_true le_rfl (Or.inl hbeyond)
  · rw [compact_of_within (not_lt.mp hbeyond), or_iff_right hbeyond]

/-- A compaction keeps the entries behind the compacted ones: index, term and data. -/
theorem found_compact {index : ℕ} (hbehind : compactIndex < index) :
    (storage.compact compactIndex).2.found primitives (storage.compact compactIndex).2.entryCache
      index = storage.found primitives storage.entryCache index := by
  by_cases hbeyond : storage.lastIndex < compactIndex
  · rw [compact_of_beyond hbeyond]
  · have hkept : index ∉ List.range' 1 compactIndex := by
      rw [List.mem_range'_1]
      omega
    rw [compact_of_within (not_lt.mp hbeyond), found, LruCache.peek_foldl_pop, if_neg hkept]
    rfl

end Compact

/-- The term in front of the first index is always zero. -/
theorem term_boundary (storage : CasRaftStorage) :
    (storage.term primitives (storage.firstIndex - 1)).1 = .ok 0 := by
  rw [term, if_neg (lt_irrefl _), if_pos rfl]

/-- The loop of a read has no error to return. -/
theorem readLoop_ne_err (storage : CasRaftStorage) (maxSize : Option ℕ) (indices : List ℕ)
    (cache : EntryCache) (entries : List Entry) (totalSize : ℕ) (error : RaftError) :
    (storage.readLoop primitives maxSize indices cache entries totalSize).1 ≠ .err error := by
  induction indices generalizing cache entries totalSize with
  | nil =>
    rw [readLoop]
    simp
  | cons index rest ih =>
    rw [readLoop]
    split
    · split_ifs
      · simp
      · exact ih _ _ _
    · split
      · exact ih _ _ _
      · split
        · exact ih _ _ _
        · simp
        · dsimp only
          split_ifs
          · simp
          · exact ih _ _ _

/-- A read never returns an error, whatever it asks for. -/
theorem entries_ne_err (storage : CasRaftStorage) (low high : ℕ) (maxSize : Option ℕ)
    (error : RaftError) : (storage.entries primitives low high maxSize).1 ≠ .err error := by
  rw [entries]
  split_ifs
  · simp
  · exact storage.readLoop_ne_err primitives maxSize _ _ _ _ error

end CasRaftStorage

/-! ## Appends and compactions -/

namespace Compaction

open Execution IndexedLog

variable (primitives : Primitives)

/-- The storage, the entries appended to it, and whether a compaction has succeeded. -/
structure Session where
  storage : CasRaftStorage
  appended : List Entry := []
  compacted : Bool := false

inductive Operation
  | append (entry : Entry)
  | compact (compactIndex : ℕ)

/-- Append the entry that comes next, or compact. -/
def step (session : Session) : Operation → Option Session
  | .append entry =>
    if entry.index = session.storage.lastIndex + 1 then
      some { session with
        storage := (session.storage.appendEntry primitives none entry).2
        appended := session.appended ++ [entry] }
    else none
  | .compact compactIndex =>
    match session.storage.compact compactIndex with
    | (.ok _, storage) => some { session with storage := storage, compacted := true }
    | (_, storage) => some { session with storage := storage }

/-- Behind a compaction, reads below the first index are refused, and the term of the entry in
front of it is known. -/
structure KeepsBoundary (session : Session) : Prop where
  refuses : ∀ low high maxSize, low < session.storage.firstIndex → low < high →
    high ≤ session.storage.lastIndex + 1 →
    ∃ error, (session.storage.entries primitives low high maxSize).1 = .err error
  term : ∀ entry, itemAt session.appended (session.storage.firstIndex - 1) = some entry →
    (session.storage.term primitives (session.storage.firstIndex - 1)).1 = .ok entry.term

/-- What the operation leaves behind: the first index has not moved back, the boundary is kept, a
failed compaction has changed nothing, and a successful one has kept the entries behind it. -/
structure CompactsSoundly (session : Session) (operation : Operation) (next : Session) :
    Prop where
  monotone : session.storage.firstIndex ≤ next.storage.firstIndex
  boundary : next.compacted = true → KeepsBoundary primitives next
  unchanged : ∀ compactIndex error, operation = .compact compactIndex →
    (session.storage.compact compactIndex).1 = .err error → next.storage = session.storage
  kept : ∀ compactIndex, operation = .compact compactIndex →
    (session.storage.compact compactIndex).1 = .ok () →
    ∀ index, next.storage.firstIndex ≤ index →
      next.storage.found primitives next.storage.entryCache index =
        session.storage.found primitives session.storage.entryCache index

/-- An operation that is possible works out. -/
def WorksOut (session : Session) (operation : Operation) : Prop :=
  ∀ next, step primitives session operation = some next →
    CompactsSoundly primitives session operation next

/-- A compaction asks for more than the log has, and is refused. -/
def IsRefused (session : Session) : Operation → Prop
  | .append _ => True
  | .compact compactIndex => session.storage.lastIndex < compactIndex

/-- No storage keeps the boundary: a read from index zero is not refused. -/
theorem not_keepsBoundary {session : Session} (hfirst : 0 < session.storage.firstIndex) :
    ¬ KeepsBoundary primitives session := by
  intro hkeeps
  obtain ⟨error, herror⟩ := hkeeps.refuses 0 1 none hfirst one_pos (by omega)
  exact session.storage.entries_ne_err primitives 0 1 none error herror

/-- A compaction that succeeds does not work out. -/
theorem isRefused_of_worksOut {session : Session} {operation : Operation}
    (hworks : WorksOut primitives session operation) : IsRefused session operation := by
  cases operation with
  | append entry => trivial
  | compact compactIndex =>
    by_contra hwithin
    have hcompact := CasRaftStorage.compact_of_within (not_lt.mp hwithin)
    have hstep : step primitives session (.compact compactIndex) = some { session with
        storage := (session.storage.compact compactIndex).2
        compacted := true } := by
      rw [step, hcompact]
    apply not_keepsBoundary primitives _ ((hworks _ hstep).boundary rfl)
    rw [hcompact]
    exact Nat.succ_pos compactIndex

/-- Without a successful compaction everything works out, and there is none after it. -/
theorem worksOut_of_isRefused {session next : Session} {operation : Operation}
    (hcompacted : session.compacted = false) (hrefused : IsRefused session operation)
    (hstep : step primitives session operation = some next) :
    CompactsSoundly primitives session operation next ∧ next.compacted = false := by
  cases operation with
  | append entry =>
    rw [step, Option.ite_none_right_eq_some] at hstep
    rw [← Option.some.inj hstep.2,
      CasRaftStorage.appendEntry_of_not_fails (LocalObjectStore.not_writeFails_none _ _ _)]
    refine ⟨⟨le_rfl, ?_, ?_, ?_⟩, hcompacted⟩
    · intro hsome
      rw [hcompacted] at hsome
      cases hsome
    · intro compactIndex error hoperation
      cases hoperation
    · intro compactIndex hoperation
      cases hoperation
  | compact compactIndex =>
    have hcompact := CasRaftStorage.compact_of_beyond hrefused
    rw [step, hcompact, Option.some_inj] at hstep
    rw [← hstep]
    refine ⟨⟨le_rfl, ?_, ?_, ?_⟩, hcompacted⟩
    · intro hsome
      rw [hcompacted] at hsome
      cases hsome
    · intro _ _ _ _
      rfl
    · intro _ _ _ _ _
      rfl

/-- In a run of appends and compactions everything works out exactly when no compaction succeeds. -/
theorem worksOut_throughout_iff (objectStore : LocalObjectStore) (voters : List ℕ)
    (operations : List Operation) :
    Guarded (step primitives) (WorksOut primitives)
        { storage := CasRaftStorage.newEmpty objectStore voters } operations ↔
      Guarded (step primitives) IsRefused
        { storage := CasRaftStorage.newEmpty objectStore voters } operations := by
  constructor
  · intro hworks
    apply guarded_of_guarded (fun _ ↦ True) _ _ trivial hworks
    · intro session operation next _ hworks _
      exact isRefused_of_worksOut primitives hworks
    · intro _ _ _ _ _ _
      trivial
  · intro hrefused
    apply guarded_of_guarded (fun session : Session ↦ session.compacted = false) _ _ rfl hrefused
    · intro session operation _ hcompacted hrefused _ next hstep
      exact (worksOut_of_isRefused primitives hcompacted hrefused hstep).1
    · intro session operation next hcompacted hrefused hstep
      exact (worksOut_of_isRefused primitives hcompacted hrefused hstep).2

/-- Compacting an earlier index uncovers entries again. -/
theorem lower_compaction_moves_back :
    ¬ ∀ (primitives : Primitives) (objectStore : LocalObjectStore) (voters : List ℕ)
      (operations : List Operation),
      Guarded (step primitives) (WorksOut primitives)
        { storage := CasRaftStorage.newEmpty objectStore voters } operations := by
  intro hgeneral
  have hworks := hgeneral tabulated ⟨[], ∅⟩ [1]
    [.append (CacheTransparency.emptyEntry 1), .append (CacheTransparency.emptyEntry 2),
      .compact 2, .compact 0]
  have hlast := (((hworks _ rfl).2 _ rfl).2 _ rfl).2 _ rfl
  have hmonotone := (hlast.1 _ rfl).monotone
  exact absurd hmonotone (by decide)

end Compaction

end EdgeOrchestrator.Raft

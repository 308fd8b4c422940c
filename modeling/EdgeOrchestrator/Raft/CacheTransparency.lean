import EdgeOrchestrator.Raft.LogRefinement

/-!
# Transparency of the entry cache

Entries are appended one after the other and read in any order. A read that finds its entries in the
cache returns them as they were appended. A read behind the cache does not: the blob holds the
payload only, so `entries` rebuilds an entry without its term, type and context and leaves it in the
cache, and `term` reads the term off the payload.
-/

namespace EdgeOrchestrator.Raft.CacheTransparency

open Execution IndexedLog LogRefinement Storage

variable (primitives : Primitives)

/-- The storage, and the entries appended to it. -/
structure Session where
  storage : CasRaftStorage
  appended : List Entry

inductive Operation
  | append (entry : Entry)
  | entries (low high : ℕ)
  | term (index : ℕ)

/-- Append the entry that comes next, or read. -/
def step (session : Session) : Operation → Option Session
  | .append entry =>
    if entry.index = session.storage.lastIndex + 1 then
      some ⟨(session.storage.appendEntry primitives none entry).2, session.appended ++ [entry]⟩
    else none
  | .entries low high =>
    some { session with storage := (session.storage.entries primitives low high none).2 }
  | .term index => some { session with storage := (session.storage.term primitives index).2 }

/-- The read returns the entries, or the term, as appended. -/
def AnswersAsAppended (session : Session) : Operation → Prop
  | .append _ => True
  | .entries low high =>
    (session.storage.entries primitives low high none).1 = logEntries session.appended low high
  | .term index => (session.storage.term primitives index).1 = logTerm session.appended index

/-- Every entry that the read asks for is still in the cache. -/
def AsksForHeld (session : Session) : Operation → Prop
  | .append _ => True
  | .entries low high =>
    high ≤ session.storage.lastIndex + 1 → ∀ index, low ≤ index → index < high →
      session.storage.firstIndex ≤ index → (session.storage.entryCache.peek index).isSome
  | .term index =>
    session.storage.firstIndex ≤ index → index ≤ session.storage.lastIndex →
      (session.storage.entryCache.peek index).isSome

/-- The cache holds nothing but entries as they were appended. -/
structure Sound (session : Session) : Prop where
  firstIndex : session.storage.firstIndex = 1
  lastIndex : session.storage.lastIndex = session.appended.length
  held : ∀ index entry, session.storage.entryCache.peek index = some entry →
    itemAt session.appended index = some entry
  unrecorded : ∀ index, itemAt session.appended index = none →
    session.storage.hashAt index = none

theorem Sound.peek_eq_itemAt {session : Session} (hsound : Sound session) {index : ℕ}
    (hheld : (itemAt session.appended index).isSome →
      (session.storage.entryCache.peek index).isSome) :
    session.storage.entryCache.peek index = itemAt session.appended index := by
  cases hpeek : session.storage.entryCache.peek index with
  | some entry => rw [hsound.held index entry hpeek]
  | none =>
    rw [hpeek] at hheld
    cases hitem : itemAt session.appended index with
    | none => rfl
    | some entry =>
      rw [hitem] at hheld
      cases hheld rfl

/-- Reordering the cache keeps it sound. -/
theorem Sound.reordered {session : Session} (hsound : Sound session) {storage : CasRaftStorage}
    (hreordered : ∃ cache, storage = { session.storage with entryCache := cache } ∧
      ∀ index, cache.peek index = session.storage.entryCache.peek index) :
    Sound { session with storage := storage } := by
  rcases hreordered with ⟨cache, rfl, hpeek⟩
  constructor
  · exact hsound.firstIndex
  · exact hsound.lastIndex
  · intro index entry hentry
    exact hsound.held index entry ((hpeek index).symm.trans hentry)
  · exact hsound.unrecorded

theorem Sound.append {session : Session} (hsound : Sound session) {entry : Entry}
    (hindex : entry.index = session.storage.lastIndex + 1) :
    Sound ⟨(session.storage.appendEntry primitives none entry).2, session.appended ++ [entry]⟩ := by
  have hnext : entry.index = session.appended.length + 1 := by rw [hindex, hsound.lastIndex]
  rw [CasRaftStorage.appendEntry_of_not_fails (LocalObjectStore.not_writeFails_none _ _ _)]
  constructor
  · exact hsound.firstIndex
  · dsimp only
    rw [if_pos (by omega), List.length_append, List.length_singleton, hnext]
  · intro index found hfound
    rw [itemAt_append_singleton, ← hnext]
    by_cases hsame : index = entry.index
    · rw [if_pos hsame, ← hfound, hsame]
      exact (LruCache.peek_put_self _ _ _ (by decide)).symm
    · rw [if_neg hsame]
      exact hsound.held index found (LruCache.peek_of_peek_put hsame hfound)
  · intro index hnone
    rw [itemAt_append_singleton, ← hnext] at hnone
    by_cases hsame : index = entry.index
    · rw [if_pos hsame] at hnone
      cases hnone
    · rw [if_neg hsame] at hnone
      simp only [CasRaftStorage.hashAt, CasRaftStorage.join_getElem?_recordHash, if_neg hsame]
      exact hsound.unrecorded index hnone

/-- What a read that finds its entries meets in the cache. -/
theorem Sound.held_range {session : Session} (hsound : Sound session) {low high : ℕ}
    (hasks : AsksForHeld session (.entries low high)) (hhigh : high ≤ session.appended.length + 1) :
    ∀ index ∈ List.range' low (high - low),
      session.storage.entryCache.peek index = itemAt session.appended index := by
  intro index hindex
  rw [List.mem_range'_1] at hindex
  apply hsound.peek_eq_itemAt
  intro hitem
  have hbounds := itemAt_isSome_iff.mp hitem
  rw [← hsound.lastIndex] at hhigh
  exact hasks hhigh index hindex.1 (by omega) (by rw [hsound.firstIndex]; exact hbounds.1)

theorem Sound.held_index {session : Session} (hsound : Sound session) {index : ℕ}
    (hasks : AsksForHeld session (.term index)) :
    session.storage.entryCache.peek index = itemAt session.appended index := by
  apply hsound.peek_eq_itemAt
  intro hitem
  have hbounds := itemAt_isSome_iff.mp hitem
  exact hasks (by rw [hsound.firstIndex]; exact hbounds.1) (by rw [hsound.lastIndex]; exact hbounds.2)

/-- A read that finds its entries in the cache returns them as appended. -/
theorem Sound.answers {session : Session} (hsound : Sound session) {operation : Operation}
    (hasks : AsksForHeld session operation) : AnswersAsAppended primitives session operation := by
  cases operation with
  | append entry => trivial
  | entries low high =>
    exact entries_eq_logEntries primitives hsound.lastIndex (hsound.held_range hasks)
      hsound.unrecorded
  | term index =>
    exact term_eq_logTerm primitives hsound.firstIndex (hsound.held_index hasks)
      (hsound.unrecorded index)

theorem Sound.step {session next : Session} (hsound : Sound session) {operation : Operation}
    (hasks : AsksForHeld session operation)
    (hstep : CacheTransparency.step primitives session operation = some next) : Sound next := by
  cases operation with
  | append entry =>
    rw [CacheTransparency.step, Option.ite_none_right_eq_some] at hstep
    rw [← Option.some.inj hstep.2]
    exact hsound.append primitives hstep.1
  | entries low high =>
    rw [← Option.some.inj hstep]
    apply hsound.reordered
    apply CasRaftStorage.entries_snd_of_held primitives
    · rw [hsound.lastIndex]
      exact hsound.held_range hasks
    · exact fun index _ ↦ hsound.unrecorded index
  | term index =>
    rw [← Option.some.inj hstep]
    exact hsound.reordered (CasRaftStorage.term_snd primitives session.storage index)

theorem sound_newEmpty (objectStore : LocalObjectStore) (voters : List ℕ) :
    Sound ⟨CasRaftStorage.newEmpty objectStore voters, []⟩ where
  firstIndex := rfl
  lastIndex := rfl
  held index entry hentry := by cases hentry
  unrecorded index _ := by cases index <;> rfl

/-- In every run whose reads ask for entries that are still in the cache, every read returns what
was appended. -/
theorem answersAsAppended_of_asksForHeld (objectStore : LocalObjectStore) (voters : List ℕ)
    (operations : List Operation)
    (hasks : Guarded (step primitives) AsksForHeld
      ⟨CasRaftStorage.newEmpty objectStore voters, []⟩ operations) :
    Guarded (step primitives) (AnswersAsAppended primitives)
      ⟨CasRaftStorage.newEmpty objectStore voters, []⟩ operations := by
  apply guarded_of_guarded Sound _ _ (sound_newEmpty objectStore voters) hasks
  · intro session operation _ hsound hasks _
    exact hsound.answers primitives hasks
  · intro session operation next hsound hasks hstep
    exact hsound.step primitives hasks hstep

/-- An entry of the first term without a payload, such as a new leader appends. -/
def emptyEntry (index : ℕ) : Entry := { term := 1, index := index }

theorem answersAsAppended_two_entries :
    Guarded (step tabulated) (AnswersAsAppended tabulated)
      ⟨CasRaftStorage.newEmpty ⟨[], ∅⟩ [1], []⟩
      [.append (emptyEntry 1), .append (emptyEntry 2), .term 1, .entries 1 3] := by
  apply answersAsAppended_of_asksForHeld tabulated
  rintro first ⟨⟩
  refine ⟨trivial, ?_⟩
  rintro second ⟨⟩
  refine ⟨trivial, ?_⟩
  rintro third ⟨⟩
  refine ⟨fun _ _ ↦ rfl, ?_⟩
  rintro fourth ⟨⟩
  refine ⟨?_, trivial⟩
  intro hhigh index hlow hindex hfirst
  interval_cases index <;> rfl

/-! ## One entry more than the cache holds -/

/-- Append entries with the indices from one up to `count`. -/
def fill (count : ℕ) : List Operation :=
  (List.range' 1 count).map fun index ↦ .append (emptyEntry index)

/-- The cache after a fill: the last indices that fit, most recent first. -/
theorem run_fill (objectStore : LocalObjectStore) (voters : List ℕ) (count : ℕ) :
    ∃ session, run (step primitives) ⟨CasRaftStorage.newEmpty objectStore voters, []⟩
        (fill count) = some session ∧
      Sound session ∧ session.appended = (List.range' 1 count).map emptyEntry ∧
      session.storage.entryCache.slots.keys =
        (List.range' 1 count).reverse.take entryCacheSize := by
  induction count with
  | zero => exact ⟨_, rfl, sound_newEmpty objectStore voters, rfl, rfl⟩
  | succ count ih =>
    rcases ih with ⟨session, hrun, hsound, happended, hkeys⟩
    have hrange : List.range' 1 (count + 1) = List.range' 1 count ++ [1 + count] := by
      rw [List.range'_concat, Nat.one_mul]
    have hindex : (emptyEntry (1 + count)).index = session.storage.lastIndex + 1 := by
      rw [hsound.lastIndex, happended, List.length_map, List.length_range', Nat.add_comm]
      rfl
    have hnew : 1 + count ∉ session.storage.entryCache.slots.keys := by
      intro hmem
      rw [hkeys] at hmem
      have hinside := List.mem_reverse.mp (List.mem_of_mem_take hmem)
      rw [List.mem_range'_1] at hinside
      omega
    refine ⟨⟨(session.storage.appendEntry primitives none (emptyEntry (1 + count))).2,
      session.appended ++ [emptyEntry (1 + count)]⟩, ?_, hsound.append primitives hindex, ?_, ?_⟩
    · rw [fill, hrange, List.map_append, run_append]
      rw [fill] at hrun
      rw [hrun]
      exact (run_cons_eq_some _).mpr ⟨_, if_pos hindex, rfl⟩
    · rw [happended, hrange, List.map_append]
      rfl
    · rw [CasRaftStorage.appendEntry_of_not_fails (LocalObjectStore.not_writeFails_none _ _ _)]
      have hput := LruCache.keys_put_of_not_mem (emptyEntry (1 + count)) hnew
      rw [hkeys] at hput
      rw [hrange, List.reverse_append]
      exact hput.trans (by rw [entryCacheSize]; simp [List.take_take])

/-- The tabulated functions read back the empty blob and nothing else. -/
theorem getBlob_tabulated {store : LocalObjectStore} {hash : Hash} {data : Bytes}
    (hread : store.getBlob tabulated hash = .ok data) : data = [] := by
  obtain ⟨bytes, -, serialized, -, hdeserialize⟩ := LocalObjectStore.getBlob_eq_ok_iff.mp hread
  simp only [tabulated] at hdeserialize
  split_ifs at hdeserialize
  rw [Except.ok.injEq, Object.blob.injEq, Blob.mk.injEq] at hdeserialize
  exact hdeserialize.2.symm

/-- Behind the cache there is no term to be had from an empty payload. -/
theorem term_ne_ok_of_not_held {storage : CasRaftStorage} {index : ℕ}
    (hindex : storage.firstIndex ≤ index) (hpositive : 0 < index)
    (hheld : storage.entryCache.peek index = none) (term : ℕ) :
    (storage.term tabulated index).1 ≠ .ok term := by
  have hlookup : (storage.entryCache.get index).1 = none := by rw [LruCache.get_fst, hheld]
  rw [CasRaftStorage.term, if_neg (by omega), if_neg (by omega),
    ← Prod.mk.eta (p := storage.entryCache.get index), hlookup]
  dsimp only
  split
  · simp
  · split
    · rename_i data hdata
      rw [getBlob_tabulated hdata]
      simp
    · simp
    · simp

theorem evicted_entry_loses_its_term :
    ¬ ∀ (primitives : Primitives) (objectStore : LocalObjectStore) (voters : List ℕ)
      (operations : List Operation),
      Guarded (step primitives) (AnswersAsAppended primitives)
        ⟨CasRaftStorage.newEmpty objectStore voters, []⟩ operations := by
  intro hgeneral
  have hguarded := hgeneral tabulated ⟨[], ∅⟩ [1] (fill (entryCacheSize + 1) ++ [.term 1])
  rcases run_fill tabulated ⟨[], ∅⟩ [1] (entryCacheSize + 1) with
    ⟨session, hrun, hsound, happended, hkeys⟩
  rcases ((guarded_append hrun).mp hguarded).2 _ rfl with ⟨hanswer, -⟩
  have hevicted : 1 ∉ session.storage.entryCache.slots.keys := by
    have hrange : List.range' 1 (entryCacheSize + 1) = 1 :: List.range' 2 entryCacheSize :=
      List.range'_succ
    have hfits : (List.range' 2 entryCacheSize).reverse.length = entryCacheSize := by
      rw [List.length_reverse, List.length_range']
    rw [hkeys, hrange, List.reverse_cons, List.take_append_of_le_length hfits.ge,
      List.take_of_length_le hfits.le, List.mem_reverse, List.mem_range'_1]
    omega
  have hpeek : session.storage.entryCache.peek 1 = none := AList.lookup_eq_none.mpr hevicted
  have hterm : logTerm session.appended 1 = .ok 1 := by
    rw [happended]
    rfl
  have hread : (session.storage.term tabulated 1).1 = .ok 1 := hanswer.trans hterm
  exact term_ne_ok_of_not_held (by rw [hsound.firstIndex]) one_pos hpeek 1 hread

end EdgeOrchestrator.Raft.CacheTransparency

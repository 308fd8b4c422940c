import EdgeOrchestrator.Foundation.Gaps
import EdgeOrchestrator.Raft.CacheTransparency
import EdgeOrchestrator.Storage.PutHistory
import Mathlib.Algebra.BigOperators.Intervals
import Mathlib.Algebra.Order.BigOperators.Group.Finset

/-!
# Reads of a contiguous log

A read goes through a range of indices and returns what it finds, in the cache or behind it. An
index where nothing is found is passed over without an error, so the entries behind it follow the
ones before it. Whether that happens can be said of the storage before the read: every entry that is
returned becomes the most recent one of the cache and may cost an entry further on its place.
-/

namespace EdgeOrchestrator.Raft

open Gaps Storage

namespace CasRaftStorage

variable (primitives : Primitives)

/-- Payload recorded for an index, if its blob can be read. -/
def payloadAt (storage : CasRaftStorage) (index : ℕ) : Option Bytes :=
  match storage.hashAt index with
  | none => none
  | some hash =>
    match storage.objectStore.getBlob primitives hash with
    | .ok data => some data
    | _ => none

theorem payloadAt_eq_some_iff {primitives : Primitives} {storage : CasRaftStorage} {index : ℕ}
    {data : Bytes} :
    storage.payloadAt primitives index = some data ↔
      ∃ hash, storage.hashAt index = some hash ∧
        storage.objectStore.getBlob primitives hash = .ok data := by
  rw [payloadAt]
  cases hhash : storage.hashAt index with
  | none => simp
  | some hash => cases hblob : storage.objectStore.getBlob primitives hash <;> simp [hblob]

/-- Entry that a read makes of the payload. -/
def rebuilt (storage : CasRaftStorage) (index : ℕ) : Option Entry :=
  (storage.payloadAt primitives index).map fun data ↦ { index := index, data := data }

/-- What a read finds at an index, in the cache or behind it. -/
def found (storage : CasRaftStorage) (cache : EntryCache) (index : ℕ) : Option Entry :=
  (cache.peek index).or (storage.rebuilt primitives index)

/-- Every entry of the cache is at its index. -/
def KeyedByIndex (cache : EntryCache) : Prop :=
  ∀ index entry, cache.peek index = some entry → entry.index = index

theorem KeyedByIndex.put {cache : EntryCache} (hkeyed : KeyedByIndex cache) {index : ℕ}
    {entry : Entry} (hindex : entry.index = index) : KeyedByIndex (cache.put index entry) := by
  intro other held hheld
  by_cases hother : other = index
  · rw [hother, LruCache.peek_put_self _ _ _ (by decide), Option.some_inj] at hheld
    rw [← hheld, hindex, hother]
  · exact hkeyed other held (LruCache.peek_of_peek_put hother hheld)

theorem KeyedByIndex.reordered {cache other : EntryCache} (hkeyed : KeyedByIndex cache)
    (hpeek : ∀ index, other.peek index = cache.peek index) : KeyedByIndex other := by
  intro index entry hentry
  exact hkeyed index entry ((hpeek index).symm.trans hentry)

/-- Every index of the log has a recorded payload, and every entry of the cache is at its index. -/
structure ContiguousLog (storage : CasRaftStorage) : Prop where
  first : 1 ≤ storage.firstIndex
  recorded : ∀ index, storage.firstIndex ≤ index → index ≤ storage.lastIndex →
    (storage.hashAt index).isSome
  digest : ∀ index hash, storage.hashAt index = some hash → IsDigest hash
  cached : KeyedByIndex storage.entryCache

theorem contiguousLog_newEmpty (objectStore : LocalObjectStore) (voters : List ℕ) :
    (newEmpty objectStore voters).ContiguousLog where
  first := le_rfl
  recorded := by
    intro index hfirst hlast
    simp only [newEmpty] at hfirst hlast
    omega
  digest := by
    intro index hash hhash
    cases index <;> cases hhash
  cached := by
    intro index entry hentry
    cases hentry

/-- An append of the next entry keeps the log contiguous. -/
theorem ContiguousLog.append {storage : CasRaftStorage} (hlog : storage.ContiguousLog)
    {fault : Option WriteFault} {entry : Entry} (hnext : entry.index = storage.lastIndex + 1)
    (hwrite : ¬ storage.objectStore.WriteFails primitives fault entry.data) :
    (storage.appendEntry primitives fault entry).2.ContiguousLog := by
  rw [appendEntry_of_not_fails hwrite]
  constructor
  · exact hlog.first
  · intro index hfirst hlast
    dsimp only at hfirst hlast
    rw [if_pos (by omega)] at hlast
    simp only [hashAt, join_getElem?_recordHash]
    split_ifs with hindex
    · rfl
    · exact hlog.recorded index hfirst (by omega)
  · intro index hash hhash
    simp only [hashAt, join_getElem?_recordHash] at hhash
    split_ifs at hhash with hindex
    · rw [← Option.some.inj hhash]
      exact isDigest_sha256 primitives _
    · exact hlog.digest index hash hhash
  · exact hlog.cached.put rfl

/-- Whatever happens to the blobs, the log stays contiguous. -/
theorem ContiguousLog.withStore {storage : CasRaftStorage} (hlog : storage.ContiguousLog)
    (objectStore : LocalObjectStore) :
    ({ storage with objectStore := objectStore } : CasRaftStorage).ContiguousLog :=
  ⟨hlog.first, hlog.recorded, hlog.digest, hlog.cached⟩

theorem ContiguousLog.withCache {storage : CasRaftStorage} (hlog : storage.ContiguousLog)
    {cache : EntryCache} (hkeyed : KeyedByIndex cache) :
    ({ storage with entryCache := cache } : CasRaftStorage).ContiguousLog :=
  ⟨hlog.first, hlog.recorded, hlog.digest, hkeyed⟩

/-! ## One turn of the loop -/

/-- A recorded hash can be looked up without a panic. -/
theorem ContiguousLog.getBlob_returns {storage : CasRaftStorage} (hlog : storage.ContiguousLog)
    {index : ℕ} {hash : Hash} (hhash : storage.hashAt index = some hash) :
    (storage.objectStore.getBlob primitives hash).Returns :=
  LocalObjectStore.getBlob_returns_of_isDigest (hlog.digest index hash hhash)

section Turn

variable {primitives} {storage : CasRaftStorage} {cache : EntryCache} {index : ℕ}
  (maxSize : Option ℕ) (rest : List ℕ) (entries : List Entry) (totalSize : ℕ)

/-- An index where nothing is found is passed over. -/
theorem readLoop_of_missing (hlog : storage.ContiguousLog)
    (hmissing : storage.found primitives cache index = none) :
    storage.readLoop primitives maxSize (index :: rest) cache entries totalSize =
      storage.readLoop primitives maxSize rest cache entries totalSize := by
  obtain ⟨hpeek, hrebuilt⟩ := Option.or_eq_none_iff.mp hmissing
  have hget : cache.get index = (none, cache) := by rw [LruCache.get, hpeek]
  rw [readLoop, hget]
  dsimp only
  cases hhash : storage.hashAt index with
  | none => rfl
  | some hash =>
    cases hblob : storage.objectStore.getBlob primitives hash with
    | err error => simp only [hblob]
    | lost loss => exact absurd hblob (hlog.getBlob_returns primitives hhash loss)
    | ok data => simp [rebuilt, payloadAt, hhash, hblob] at hrebuilt

/-- An entry that is found is returned unless the size limit stops the read, and becomes the most
recent one. -/
theorem readLoop_of_found {entry : Entry}
    (hfound : storage.found primitives cache index = some entry) :
    storage.readLoop primitives maxSize (index :: rest) cache entries totalSize =
      if overLimit maxSize entries totalSize entry.data.length then (.ok entries, (cache.get index).2)
      else storage.readLoop primitives maxSize rest (cache.put index entry) (entries ++ [entry])
        (totalSize + entry.data.length) := by
  rw [found] at hfound
  cases hpeek : cache.peek index with
  | some held =>
    have hget : cache.get index = (some held, cache.put index held) := by rw [LruCache.get, hpeek]
    rw [hpeek, Option.some_or, Option.some_inj] at hfound
    rw [readLoop, hget, hfound]
  | none =>
    have hget : cache.get index = (none, cache) := by rw [LruCache.get, hpeek]
    rw [hpeek, Option.none_or, rebuilt, Option.map_eq_some_iff] at hfound
    obtain ⟨data, hdata, hentry⟩ := hfound
    obtain ⟨hash, hhash, hblob⟩ := payloadAt_eq_some_iff.mp hdata
    rw [readLoop, hget]
    simp only [hhash, hblob, ← hentry]

end Turn

/-! ## What a read will find -/

/-- The cache after the entries were returned, each under its index. -/
def cacheAfter (storage : CasRaftStorage) (entries : List Entry) : EntryCache :=
  storage.entryCache.putAll (entries.map fun entry ↦ (entry.index, entry))

/-- What a read will find at an index once it has returned the entries from `low` up to `stop`: an
entry of the cache only if the cache has room for everything that is used more recently by then. -/
def foundAfter (storage : CasRaftStorage) (low stop index : ℕ) : Option Entry :=
  if (storage.entryCache.recent index ∪ Finset.Ico low stop).card < entryCacheSize then
    (storage.entryCache.peek index).or (storage.rebuilt primitives index)
  else storage.rebuilt primitives index

/-- Size of what a read from `low` on finds at an index it reaches without a gap. -/
def sizeAt (storage : CasRaftStorage) (low index : ℕ) : ℕ :=
  ((storage.foundAfter primitives low index index).map fun entry ↦ entry.data.length).getD 0

/-- Size of what a read from `low` on finds before an index it reaches without a gap. -/
def sizeBefore (storage : CasRaftStorage) (low stop : ℕ) : ℕ :=
  ∑ index ∈ Finset.Ico low stop, storage.sizeAt primitives low index

/-- The entries have the indices from `low` on, without a gap. -/
def GapFree (low : ℕ) (entries : List Entry) : Prop :=
  entries.map Entry.index = List.range' low entries.length

/-- The entry would take the read over the size limit. -/
def ExceedsLimit (maxSize : Option ℕ) (totalSize : ℕ) (entry : Entry) : Prop :=
  ∃ limit, maxSize = some limit ∧ limit < totalSize + entry.data.length

section Forecast

variable {primitives} {storage : CasRaftStorage} {low stop index : ℕ}

theorem GapFree.append {entries : List Entry} (hentries : GapFree low entries) {entry : Entry}
    (hindex : entry.index = low + entries.length) : GapFree low (entries ++ [entry]) := by
  rw [GapFree, List.map_append, hentries, List.length_append, List.length_singleton,
    List.range'_concat, List.map_singleton, hindex, one_mul]

theorem GapFree.of_ok {entries read : List Entry} (hentries : GapFree low entries)
    (hread : (.ok entries : Outcome RaftError (List Entry)) = .ok read) : GapFree low read := by
  rw [← Outcome.ok.inj hread]
  exact hentries

theorem index_of_gapFree {entries more : List Entry} {entry : Entry}
    (hentries : GapFree low (entries ++ entry :: more)) : entry.index = low + entries.length := by
  have hget := congrArg (fun indices ↦ indices[entries.length]?) hentries
  simpa [List.getElem?_range'] using hget

/-- Where the read has returned the entries up to `stop`, it finds what was forecast. -/
theorem found_cacheAfter {entries : List Entry} (hentries : GapFree low entries)
    (hindex : low + entries.length ≤ index) :
    storage.found primitives (storage.cacheAfter entries) index =
      storage.foundAfter primitives low (low + entries.length) index := by
  have hkeys : (entries.map fun entry ↦ (entry.index, entry)).map Prod.fst =
      List.range' low entries.length := by
    rw [List.map_map, ← hentries]
    rfl
  have hused : (List.range' low entries.length).toFinset = Finset.Ico low (low + entries.length) := by
    ext used
    rw [List.mem_toFinset, List.mem_range'_1, Finset.mem_Ico]
  have hother : index ∉ (entries.map fun entry ↦ (entry.index, entry)).map Prod.fst := by
    rw [hkeys, List.mem_range'_1]
    omega
  rw [found, cacheAfter, LruCache.peek_putAll hother, hkeys, hused, foundAfter]
  split_ifs
  · rfl
  · rw [Option.none_or]

/-- What a read finds before it has returned anything. -/
theorem found_entryCache (hindex : low ≤ index) :
    storage.found primitives storage.entryCache index =
      storage.foundAfter primitives low low index := by
  have hnone : GapFree low [] := rfl
  exact found_cacheAfter hnone hindex

theorem index_of_rebuilt {entry : Entry}
    (hrebuilt : storage.rebuilt primitives index = some entry) : entry.index = index := by
  obtain ⟨data, -, hdata⟩ := Option.map_eq_some_iff.mp hrebuilt
  rw [← hdata]

theorem index_of_found {cache : EntryCache} (hcached : KeyedByIndex cache) {entry : Entry}
    (hfound : storage.found primitives cache index = some entry) : entry.index = index := by
  rw [found] at hfound
  cases hpeek : cache.peek index with
  | none =>
    rw [hpeek, Option.none_or] at hfound
    exact index_of_rebuilt hfound
  | some held =>
    rw [hpeek, Option.some_or, Option.some_inj] at hfound
    rw [← hfound]
    exact hcached index held hpeek

theorem index_of_foundAfter (hlog : storage.ContiguousLog) {entry : Entry}
    (hfound : storage.foundAfter primitives low stop index = some entry) : entry.index = index := by
  rw [foundAfter] at hfound
  split_ifs at hfound
  · exact index_of_found hlog.cached hfound
  · exact index_of_rebuilt hfound

theorem sizeBefore_succ (hlow : low ≤ stop) {entry : Entry}
    (hfound : storage.foundAfter primitives low stop stop = some entry) :
    storage.sizeBefore primitives low (stop + 1) =
      storage.sizeBefore primitives low stop + entry.data.length := by
  rw [sizeBefore, Finset.sum_Ico_succ_top hlow, ← sizeBefore, sizeAt, hfound, Option.map_some,
    Option.getD_some]

theorem sizeBefore_mono {later : ℕ} (hlater : stop ≤ later) :
    storage.sizeBefore primitives low stop ≤ storage.sizeBefore primitives low later :=
  Finset.sum_le_sum_of_subset (Finset.Ico_subset_Ico_right hlater)

theorem overLimit_iff {maxSize : Option ℕ} {entries : List Entry} {totalSize : ℕ} {entry : Entry}
    (hentries : entries ≠ []) :
    overLimit maxSize entries totalSize entry.data.length = true ↔
      ExceedsLimit maxSize totalSize entry := by
  cases maxSize with
  | none => simp [overLimit, ExceedsLimit]
  | some limit => simp [overLimit, ExceedsLimit, hentries]

theorem overLimit_nil (maxSize : Option ℕ) (totalSize size : ℕ) :
    overLimit maxSize [] totalSize size = false := by
  cases maxSize <;> rfl

end Forecast

/-! ## The loop -/

section Loop

variable {primitives} {storage : CasRaftStorage} {low : ℕ} {entries : List Entry}
  (maxSize : Option ℕ)

variable (primitives) in
/-- A read of a contiguous log never fails and keeps what it has. -/
theorem readLoop_extends (hlog : storage.ContiguousLog) (indices : List ℕ) (cache : EntryCache)
    (entries : List Entry) (totalSize : ℕ) :
    ∃ more, (storage.readLoop primitives maxSize indices cache entries totalSize).1 =
      .ok (entries ++ more) := by
  induction indices generalizing cache entries totalSize with
  | nil => exact ⟨[], by rw [List.append_nil]; rfl⟩
  | cons index rest ih =>
    cases hfound : storage.found primitives cache index with
    | none =>
      rw [readLoop_of_missing maxSize rest entries totalSize hlog hfound]
      exact ih cache entries totalSize
    | some entry =>
      rw [readLoop_of_found maxSize rest entries totalSize hfound]
      split_ifs
      · exact ⟨[], by rw [List.append_nil]⟩
      · obtain ⟨more, hmore⟩ := ih (cache.put index entry) (entries ++ [entry])
          (totalSize + entry.data.length)
        exact ⟨entry :: more, by rw [hmore, List.append_assoc, List.singleton_append]⟩

/-- A read keeps every entry of the cache at its index. -/
theorem readLoop_keyed (hlog : storage.ContiguousLog) {indices : List ℕ} {cache : EntryCache}
    (hcached : KeyedByIndex cache) {entries : List Entry} {totalSize : ℕ} :
    KeyedByIndex (storage.readLoop primitives maxSize indices cache entries totalSize).2 := by
  induction indices generalizing cache entries totalSize with
  | nil => exact hcached
  | cons index rest ih =>
    cases hfound : storage.found primitives cache index with
    | none =>
      rw [readLoop_of_missing maxSize rest entries totalSize hlog hfound]
      exact ih hcached
    | some entry =>
      rw [readLoop_of_found maxSize rest entries totalSize hfound]
      split_ifs
      · exact hcached.reordered (cache.peek_get_snd index)
      · exact ih (hcached.put (index_of_found hcached hfound))

theorem cacheAfter_append (storage : CasRaftStorage) (entries : List Entry) (entry : Entry) :
    storage.cacheAfter (entries ++ [entry]) =
      (storage.cacheAfter entries).put entry.index entry := by
  rw [cacheAfter, List.map_append, LruCache.putAll, List.foldl_append]
  rfl

/-- An entry behind the end of the returned ones leaves a gap. -/
theorem not_gapFree_of_behind (hlog : storage.ContiguousLog) {entry : Entry}
    (hbehind : entry.index ≠ low + entries.length) (indices : List ℕ) (cache : EntryCache)
    (totalSize : ℕ) :
    ¬ ∀ read, (storage.readLoop primitives maxSize indices cache (entries ++ [entry])
      totalSize).1 = .ok read → GapFree low read := by
  intro hgapFree
  obtain ⟨more, hread⟩ := readLoop_extends primitives maxSize hlog indices cache
    (entries ++ [entry]) totalSize
  have hentries := hgapFree _ hread
  rw [List.append_assoc, List.singleton_append] at hentries
  exact hbehind (index_of_gapFree hentries)

/-- Behind a gap, a read stays without one exactly when the next entry that it would find is
stopped by the size limit. -/
theorem readLoop_behind_gap_iff (hlog : storage.ContiguousLog) (hentries : GapFree low entries)
    (hne : entries ≠ []) (totalSize : ℕ) (count : ℕ) {start : ℕ}
    (hstart : low + entries.length < start) :
    (∀ read, (storage.readLoop primitives maxSize (List.range' start count)
        (storage.cacheAfter entries) entries totalSize).1 = .ok read → GapFree low read) ↔
      FirstFound (storage.foundAfter primitives low (low + entries.length))
        (ExceedsLimit maxSize totalSize) start count := by
  induction count generalizing start with
  | zero => exact iff_of_true (fun _ ↦ hentries.of_ok) firstFound_zero
  | succ count ih =>
    have hforecast : storage.found primitives (storage.cacheAfter entries) start =
        storage.foundAfter primitives low (low + entries.length) start :=
      found_cacheAfter hentries hstart.le
    rw [List.range'_succ]
    cases hfound : storage.found primitives (storage.cacheAfter entries) start with
    | none =>
      have hbehind : low + entries.length < start + 1 := by omega
      rw [readLoop_of_missing maxSize _ entries totalSize hlog hfound, ih hbehind,
        firstFound_succ_of_none count (hforecast.symm.trans hfound)]
    | some entry =>
      have hlater := hforecast.symm.trans hfound
      rw [readLoop_of_found maxSize _ entries totalSize hfound,
        firstFound_succ_of_some count hlater, ← overLimit_iff hne]
      split_ifs with hlimit
      · exact iff_of_true (fun _ ↦ hentries.of_ok) hlimit
      · apply iff_of_false _ hlimit
        apply not_gapFree_of_behind maxSize hlog
        rw [index_of_foundAfter hlog hlater]
        omega

variable (primitives) in
/-- Past the entries it has returned, a read stays without a gap exactly when, at every gap that it
reaches, the next entry that it would find is stopped by the size limit. -/
theorem readLoop_gapFree_iff (hlog : storage.ContiguousLog) (hentries : GapFree low entries)
    (hne : entries ≠ []) (count : ℕ) {stop : ℕ} (hstop : stop = low + entries.length) :
    (∀ read, (storage.readLoop primitives maxSize (List.range' stop count)
        (storage.cacheAfter entries) entries (storage.sizeBefore primitives low stop)).1 = .ok read →
          GapFree low read) ↔
      AtGaps (storage.foundAfter primitives low)
        (fun gap ↦ ExceedsLimit maxSize (storage.sizeBefore primitives low gap)) stop count := by
  induction count generalizing entries stop with
  | zero => exact iff_of_true (fun _ ↦ hentries.of_ok) atGaps_zero
  | succ count ih =>
    have hforecast : storage.found primitives (storage.cacheAfter entries) stop =
        storage.foundAfter primitives low stop stop := by
      rw [found_cacheAfter hentries hstop.ge, ← hstop]
    rw [List.range'_succ]
    cases hfound : storage.found primitives (storage.cacheAfter entries) stop with
    | none =>
      -- the read is at a gap now, and at no other one
      rw [readLoop_of_missing maxSize _ entries _ hlog hfound,
        readLoop_behind_gap_iff maxSize hlog hentries hne _ count (by omega), ← hstop,
        atGaps_succ_of_none count (hforecast.symm.trans hfound)]
    | some entry =>
      have hlater := hforecast.symm.trans hfound
      have hsize := sizeBefore_succ (by omega : low ≤ stop) hlater
      have hindex : entry.index = stop := index_of_foundAfter hlog hlater
      rw [readLoop_of_found maxSize _ entries _ hfound,
        atGaps_succ_of_some count (by rw [hlater]; rfl)]
      split_ifs with hlimit
      · -- what comes later is no smaller
        apply iff_of_true fun _ ↦ hentries.of_ok
        intro gap next other hfrom hbehind hto hreached hmissing hnext
        obtain ⟨limit, hmax, hover⟩ := (overLimit_iff hne).mp hlimit
        have hmono : storage.sizeBefore primitives low (stop + 1) ≤
            storage.sizeBefore primitives low gap := sizeBefore_mono hfrom
        exact ⟨limit, hmax, by omega⟩
      · have hlonger : stop + 1 = low + (entries ++ [entry]).length := by
          rw [List.length_append, List.length_singleton]
          omega
        rw [← hsize, ← hindex, ← cacheAfter_append, hindex]
        exact ih (hentries.append (by omega)) (by simp) hlonger

/-- A read that returns nothing for its first index has skipped it. -/
theorem not_gapFree_of_late_start (hlog : storage.ContiguousLog) (count : ℕ) {start : ℕ}
    (hstart : low < start) :
    ¬ ∀ read, (storage.readLoop primitives maxSize (List.range' start count) storage.entryCache []
      0).1 = .ok read → read ≠ [] ∧ GapFree low read := by
  induction count generalizing start with
  | zero => exact fun hall ↦ (hall [] rfl).1 rfl
  | succ count ih =>
    rw [List.range'_succ]
    cases hfound : storage.found primitives storage.entryCache start with
    | none =>
      rw [readLoop_of_missing maxSize _ [] 0 hlog hfound]
      exact ih (by omega)
    | some entry =>
      have hforecast : storage.found primitives storage.entryCache start =
          storage.foundAfter primitives low low start := found_entryCache hstart.le
      rw [hforecast] at hfound
      have hbehind : entry.index ≠ low + ([] : List Entry).length := by
        rw [index_of_foundAfter hlog hfound]
        exact hstart.ne'
      rw [← hforecast] at hfound
      rw [readLoop_of_found maxSize _ [] 0 hfound, overLimit_nil, if_neg Bool.false_ne_true]
      intro hall
      exact not_gapFree_of_behind maxSize hlog hbehind _ _ _ fun read hread ↦ (hall read hread).2

/-- What is neither in the cache nor readable is not returned. -/
theorem not_mem_of_unobtainable {index : ℕ} (hpayload : storage.payloadAt primitives index = none)
    (hlog : storage.ContiguousLog) {indices : List ℕ} {cache : EntryCache} {totalSize : ℕ}
    (hcached : KeyedByIndex cache) (hpeek : cache.peek index = none)
    (hentries : index ∉ entries.map Entry.index) :
    ∀ read, (storage.readLoop primitives maxSize indices cache entries totalSize).1 = .ok read →
      index ∉ read.map Entry.index := by
  induction indices generalizing cache entries totalSize with
  | nil =>
    intro read hread
    rwa [← Outcome.ok.inj hread]
  | cons other rest ih =>
    cases hfound : storage.found primitives cache other with
    | none =>
      rw [readLoop_of_missing maxSize rest entries totalSize hlog hfound]
      exact ih hcached hpeek hentries
    | some entry =>
      rw [readLoop_of_found maxSize rest entries totalSize hfound]
      split_ifs
      · intro read hread
        rwa [← Outcome.ok.inj hread]
      · have hother : index ≠ other := by
          intro heq
          rw [← heq, found, hpeek, Option.none_or, rebuilt, hpayload] at hfound
          cases hfound
        have hindex : entry.index = other := index_of_found hcached hfound
        apply ih
        · exact hcached.put hindex
        · by_contra hsome
          obtain ⟨held, hheld⟩ := Option.ne_none_iff_exists'.mp hsome
          rw [LruCache.peek_of_peek_put hother hheld] at hpeek
          cases hpeek
        · rw [List.map_append, List.mem_append, List.map_singleton, List.mem_singleton, hindex]
          exact not_or.mpr ⟨hentries, hother⟩

end Loop

/-! ## Reads without gaps -/

/-- The read returns something, without a gap, and nothing from an index on that it can obtain
neither from the cache nor from the store. -/
def SkipsNothing (storage : CasRaftStorage) (low high : ℕ) (maxSize : Option ℕ) : Prop :=
  ∀ read, (storage.entries primitives low high maxSize).1 = .ok read →
    read ≠ [] ∧ GapFree low read ∧
      ∀ index, low ≤ index → index < high → storage.entryCache.peek index = none →
        storage.payloadAt primitives index = none → low + read.length ≤ index

/-- The first entry can be had, and at every gap that the read reaches, the next entry that it will
find is one that the size limit stops. -/
structure StopsAtGaps (storage : CasRaftStorage) (low high : ℕ) (maxSize : Option ℕ) : Prop where
  first : (storage.found primitives storage.entryCache low).isSome
  later : ∀ gap next entry, low < gap → gap < next → next < high →
    (∀ index, low ≤ index → index < gap →
      (storage.foundAfter primitives low index index).isSome) →
    (∀ index, gap ≤ index → index < next →
      storage.foundAfter primitives low gap index = none) →
    storage.foundAfter primitives low gap next = some entry →
    ∃ limit, maxSize = some limit ∧
      limit < storage.sizeBefore primitives low gap + entry.data.length

section Exactly

variable {primitives} {storage : CasRaftStorage} {low high : ℕ}

theorem entries_fst (hlow : low < high) (hhigh : high ≤ storage.lastIndex + 1)
    (maxSize : Option ℕ) :
    (storage.entries primitives low high maxSize).1 = (storage.readLoop primitives maxSize
      (low :: List.range' (low + 1) (high - low - 1)) storage.entryCache [] 0).1 := by
  have hrange : high - low = high - low - 1 + 1 := by omega
  rw [entries, if_neg (by omega), hrange, List.range'_succ, Nat.add_sub_cancel]

/-- A read without a gap ends before whatever it cannot obtain. -/
theorem skipsNothing_iff_gapFree (hlog : storage.ContiguousLog) (hlow : low < high)
    (hhigh : high ≤ storage.lastIndex + 1) (maxSize : Option ℕ) :
    storage.SkipsNothing primitives low high maxSize ↔
      ∀ read, (storage.entries primitives low high maxSize).1 = .ok read →
        read ≠ [] ∧ GapFree low read := by
  constructor
  · intro hskips read hread
    exact ⟨(hskips read hread).1, (hskips read hread).2.1⟩
  · intro hall read hread
    refine ⟨(hall read hread).1, (hall read hread).2, ?_⟩
    intro index hfrom hto hpeek hpayload
    rw [entries_fst hlow hhigh] at hread
    have hnot := not_mem_of_unobtainable maxSize hpayload hlog hlog.cached hpeek
      List.not_mem_nil read hread
    rw [← entries_fst hlow hhigh] at hread
    rw [(hall read hread).2, List.mem_range'_1] at hnot
    omega

/-- A read that finds its first entry goes on behind it. -/
theorem entries_fst_of_found (hlog : storage.ContiguousLog) (hlow : low < high)
    (hhigh : high ≤ storage.lastIndex + 1) (maxSize : Option ℕ) {entry : Entry}
    (hfound : storage.found primitives storage.entryCache low = some entry) :
    (storage.entries primitives low high maxSize).1 = (storage.readLoop primitives maxSize
      (List.range' (low + 1) (high - low - 1)) (storage.cacheAfter [entry]) [entry]
      (storage.sizeBefore primitives low (low + 1))).1 := by
  have hforecast : storage.foundAfter primitives low low low = some entry := by
    rw [← hfound, found_entryCache le_rfl]
  have hsize : 0 + entry.data.length = storage.sizeBefore primitives low (low + 1) := by
    rw [sizeBefore_succ le_rfl hforecast, sizeBefore, Finset.Ico_self, Finset.sum_empty]
  have hcache : storage.entryCache.put low entry = storage.cacheAfter [entry] := by
    rw [← index_of_foundAfter hlog hforecast]
    rfl
  rw [entries_fst hlow hhigh, readLoop_of_found maxSize _ [] 0 hfound, overLimit_nil,
    if_neg Bool.false_ne_true, hsize, hcache, List.nil_append]

/-- Once the first entry is there, the gaps lie behind it. -/
theorem stopsAtGaps_iff (hlow : low < high) {maxSize : Option ℕ} {entry : Entry}
    (hfound : storage.found primitives storage.entryCache low = some entry) :
    storage.StopsAtGaps primitives low high maxSize ↔
      AtGaps (storage.foundAfter primitives low)
        (fun gap ↦ ExceedsLimit maxSize (storage.sizeBefore primitives low gap)) (low + 1)
        (high - low - 1) := by
  have hfirst : (storage.foundAfter primitives low low low).isSome := by
    rw [← found_entryCache le_rfl, hfound]
    rfl
  constructor
  · intro hstops gap next other hfrom hbehind hto hreached
    exact hstops.later gap next other hfrom hbehind (by omega) ((forall_from_iff hfirst).mpr hreached)
  · intro hgaps
    refine ⟨by rw [hfound]; rfl, ?_⟩
    intro gap next other hfrom hbehind hto hreached
    exact hgaps gap next other hfrom hbehind (by omega) ((forall_from_iff hfirst).mp hreached)

/-- A read of a contiguous log skips nothing exactly when it stops at its gaps. -/
theorem skipsNothing_iff (hlog : storage.ContiguousLog) (hlow : low < high)
    (hhigh : high ≤ storage.lastIndex + 1) (maxSize : Option ℕ) :
    storage.SkipsNothing primitives low high maxSize ↔
      storage.StopsAtGaps primitives low high maxSize := by
  rw [skipsNothing_iff_gapFree hlog hlow hhigh]
  cases hfound : storage.found primitives storage.entryCache low with
  | none =>
    rw [entries_fst hlow hhigh, readLoop_of_missing maxSize _ [] 0 hlog hfound]
    apply iff_of_false
    · exact not_gapFree_of_late_start maxSize hlog _ (by omega)
    · intro hstops
      have hsome := hstops.first
      rw [hfound] at hsome
      cases hsome
  | some entry =>
    have hone : GapFree low [entry] := by
      rw [GapFree, List.map_singleton, index_of_found hlog.cached hfound]
      rfl
    have hstop : low + 1 = low + [entry].length := rfl
    rw [stopsAtGaps_iff hlow hfound, entries_fst_of_found hlog hlow hhigh maxSize hfound,
      ← readLoop_gapFree_iff primitives maxSize hlog hone (List.cons_ne_nil _ _) _ hstop]
    -- what the read keeps, it returns
    obtain ⟨more, hmore⟩ := readLoop_extends primitives maxSize hlog
      (List.range' (low + 1) (high - low - 1)) (storage.cacheAfter [entry]) [entry]
      (storage.sizeBefore primitives low (low + 1))
    apply forall₂_congr
    intro read hread
    rw [hread, Outcome.ok.injEq] at hmore
    rw [hmore]
    exact and_iff_right (List.cons_ne_nil _ _)

end Exactly

end CasRaftStorage

/-! ## Logs of a session -/

namespace CacheTransparency

open CasRaftStorage Execution

variable (primitives : Primitives)

/-- Appends of the next entry and reads keep the log contiguous. -/
theorem contiguousLog_of_step {session next : Session} {operation : Operation}
    (hlog : session.storage.ContiguousLog)
    (hstep : CacheTransparency.step primitives session operation = some next) :
    next.storage.ContiguousLog := by
  cases operation with
  | append entry =>
    rw [CacheTransparency.step, Option.ite_none_right_eq_some] at hstep
    rw [← Option.some.inj hstep.2]
    exact hlog.append primitives hstep.1 (LocalObjectStore.not_writeFails_none _ _ _)
  | entries low high =>
    rw [← Option.some.inj hstep]
    simp only [CasRaftStorage.entries]
    split_ifs
    · exact hlog
    · exact hlog.withCache (readLoop_keyed none hlog hlog.cached)
  | term index =>
    obtain ⟨cache, hterm, hpeek⟩ := term_snd primitives session.storage index
    rw [← Option.some.inj hstep]
    simp only [hterm]
    exact hlog.withCache (hlog.cached.reordered hpeek)

/-- The log is contiguous in every state of every session. -/
theorem contiguousLog_of_run (objectStore : LocalObjectStore) (voters : List ℕ)
    {operations : List Operation} {session : Session}
    (hrun : run (CacheTransparency.step primitives)
      ⟨newEmpty objectStore voters, []⟩ operations = some session) :
    session.storage.ContiguousLog := by
  apply invariant_of_run (fun session : Session ↦ session.storage.ContiguousLog) _
    (contiguousLog_newEmpty objectStore voters) hrun
  intro state operation next hlog hstep
  exact contiguousLog_of_step primitives hlog hstep

end CacheTransparency

namespace CasRaftStorage

open CacheTransparency Execution

/-- Nothing is a gap that the store still holds. -/
theorem stopsAtGaps_of_rebuilt {primitives : Primitives} {storage : CasRaftStorage} {low high : ℕ}
    (hlow : low < high)
    (hrebuilt : ∀ index, low ≤ index → index < high →
      (storage.rebuilt primitives index).isSome) (maxSize : Option ℕ) :
    storage.StopsAtGaps primitives low high maxSize where
  first := by
    rw [found, Option.isSome_or, hrebuilt low le_rfl hlow, Bool.or_true]
  later := by
    intro gap next entry hfrom hbehind hto _ hmissing _
    have hsome : (storage.foundAfter primitives low gap gap).isSome := by
      have hgap := hrebuilt gap hfrom.le (by omega)
      rw [foundAfter]
      split_ifs
      · rw [Option.isSome_or, hgap, Bool.or_true]
      · exact hgap
    rw [hmissing gap le_rfl hbehind] at hsome
    cases hsome

/-- The payloads that a fill has recorded were put into the store. -/
theorem recorded_of_run_fill {primitives : Primitives} {voters : List ℕ} {count : ℕ}
    {session : Session}
    (hrun : run (CacheTransparency.step primitives) ⟨newEmpty ⟨[], ∅⟩ voters, []⟩ (fill count) =
      some session) :
    ∃ puts, (∀ operation ∈ puts, operation = PutOperation.blob []) ∧
      HoldsFirstPuts primitives puts session.storage.objectStore ∧
      ∀ index hash, session.storage.hashAt index = some hash →
        hash = hashBlob primitives [] ∧ PutOperation.blob [] ∈ puts := by
  have hempty : Guarded (CacheTransparency.step primitives)
      (fun _ operation ↦ ∃ index, operation = .append (emptyEntry index))
      ⟨newEmpty ⟨[], ∅⟩ voters, []⟩ (fill count) := by
    apply guarded_of_forall_mem
    intro _ operation hmem
    obtain ⟨index, -, rfl⟩ := List.mem_map.mp hmem
    exact ⟨index, rfl⟩
  apply invariant_of_guarded (fun session : Session ↦ ∃ puts,
    (∀ operation ∈ puts, operation = PutOperation.blob []) ∧
      HoldsFirstPuts primitives puts session.storage.objectStore ∧
      ∀ index hash, session.storage.hashAt index = some hash →
        hash = hashBlob primitives [] ∧ PutOperation.blob [] ∈ puts) ?_ ?_ hempty hrun
  · rintro session _ next ⟨puts, hputs, hstore, hrecorded⟩ ⟨index, rfl⟩ hstep
    rw [CacheTransparency.step, Option.ite_none_right_eq_some] at hstep
    obtain ⟨-, hnext⟩ := hstep
    rw [← Option.some.inj hnext,
      appendEntry_of_not_fails (LocalObjectStore.not_writeFails_none _ _ _)]
    refine ⟨puts ++ [.blob []], ?_, ?_, ?_⟩
    · simpa [or_imp, forall_and] using hputs
    · exact hstore.put (.blob [])
    · intro other hash hhash
      simp only [hashAt, join_getElem?_recordHash] at hhash
      refine ⟨?_, List.mem_append_right _ (List.mem_singleton_self _)⟩
      split_ifs at hhash
      · exact (Option.some.inj hhash).symm
      · exact (hrecorded other hash hhash).1
  · refine ⟨[], List.forall_mem_nil _, holdsFirstPuts_nil primitives (isEmpty_emptyDisk []), ?_⟩
    intro index hash hhash
    cases index <;> cases hhash

/-- The cache has lost the first entry, and returning an entry costs it the next one. Each of them
is read from the store. -/
theorem skipsNothing_fill :
    ∃ session, run (CacheTransparency.step tabulated) ⟨newEmpty ⟨[], ∅⟩ [1], []⟩
        (fill (entryCacheSize + 1)) = some session ∧
      session.storage.SkipsNothing tabulated 1 (entryCacheSize + 2) none := by
  obtain ⟨session, hrun, hsound, happended, -⟩ :=
    run_fill tabulated ⟨[], ∅⟩ [1] (entryCacheSize + 1)
  have hlog := contiguousLog_of_run tabulated ⟨[], ∅⟩ [1] hrun
  have hlast : session.storage.lastIndex = entryCacheSize + 1 := by
    rw [hsound.lastIndex, happended, List.length_map, List.length_range']
  obtain ⟨puts, hputs, hstore, hrecorded⟩ := recorded_of_run_fill hrun
  have hreadable : BlobsReadable tabulated puts session.storage.objectStore := by
    apply blobsReadable_of_noBlobIsTagJson hstore.holdsHistory
      (noCollisions_of_emptyBlobs hputs tabulated) (roundTrips_of_emptyBlobs hputs)
    intro data commitHash name message _ htag
    cases hputs _ htag
  refine ⟨session, hrun, ?_⟩
  apply (skipsNothing_iff hlog (by decide) (by omega) none).mpr
  apply stopsAtGaps_of_rebuilt (by decide)
  intro index hfrom hto
  have hfirst : session.storage.firstIndex ≤ index := hsound.firstIndex.trans_le hfrom
  obtain ⟨hash, hhash⟩ := Option.isSome_iff_exists.mp (hlog.recorded index hfirst (by omega))
  obtain ⟨rfl, hput⟩ := hrecorded index hash hhash
  rw [rebuilt, Option.isSome_map, payloadAt_eq_some_iff.mpr ⟨_, hhash, hreadable [] hput⟩]
  rfl

/-- Nothing can be read from an empty disk. -/
theorem payloadAt_emptyDisk {storage : CasRaftStorage} (hlog : storage.ContiguousLog) (index : ℕ) :
    ({ storage with objectStore := ⟨[], ∅⟩ } : CasRaftStorage).payloadAt tabulated index = none := by
  rw [payloadAt]
  cases hhash : hashAt { storage with objectStore := ⟨[], ∅⟩ } index with
  | none => rfl
  | some hash =>
    have hblob : LocalObjectStore.getBlob tabulated ⟨[], ∅⟩ hash = .err (.objectNotFound hash) :=
      LocalObjectStore.getBlob_of_missing tabulated (hlog.digest index hash hhash)
        Finmap.notMem_empty
    simp only [hblob]

/-- The entry that the cache has lost is skipped when its blob is gone as well. -/
theorem lost_entry_is_skipped :
    ¬ ∀ (primitives : Primitives) (storage : CasRaftStorage) (low high : ℕ) (maxSize : Option ℕ),
      storage.ContiguousLog → storage.firstIndex ≤ low → low < high →
        high ≤ storage.lastIndex + 1 → storage.SkipsNothing primitives low high maxSize := by
  intro hgeneral
  obtain ⟨session, hrun, hsound, happended, hkeys⟩ :=
    run_fill tabulated ⟨[], ∅⟩ [1] (entryCacheSize + 1)
  have hlog := contiguousLog_of_run tabulated ⟨[], ∅⟩ [1] hrun
  have hlast : session.storage.lastIndex = entryCacheSize + 1 := by
    rw [hsound.lastIndex, happended, List.length_map, List.length_range']
  have hrange : List.range' 1 (entryCacheSize + 1) = 1 :: List.range' 2 entryCacheSize :=
    List.range'_succ
  have hheld : session.storage.entryCache.slots.keys = (List.range' 2 entryCacheSize).reverse := by
    have hfits : (List.range' 2 entryCacheSize).reverse.length = entryCacheSize := by
      rw [List.length_reverse, List.length_range']
    rw [hkeys, hrange, List.reverse_cons, List.take_append_of_le_length hfits.ge,
      List.take_of_length_le hfits.le]
  let storage : CasRaftStorage := { session.storage with objectStore := ⟨[], ∅⟩ }
  have hlost : storage.found tabulated storage.entryCache 1 = none := by
    have hpeek : session.storage.entryCache.peek 1 = none := by
      apply AList.lookup_eq_none.mpr
      rw [AList.mem_keys, hheld, List.mem_reverse, List.mem_range'_1]
      omega
    rw [found, hpeek, rebuilt, payloadAt_emptyDisk hlog]
    rfl
  have hskips := hgeneral tabulated storage 1 3 none (hlog.withStore _) hsound.firstIndex.le
    (by decide) (by rw [hlast]; decide)
  have hstops := (skipsNothing_iff_gapFree (hlog.withStore _) (by decide)
    (by rw [hlast]; decide) none).mp hskips
  rw [entries_fst (by decide) (by rw [hlast]; decide),
    readLoop_of_missing none _ [] 0 (hlog.withStore _) hlost] at hstops
  exact not_gapFree_of_late_start none (hlog.withStore _) _ (by decide) hstops

end CasRaftStorage

end EdgeOrchestrator.Raft

import EdgeOrchestrator.Foundation.LongestPrefix
import EdgeOrchestrator.Raft.LogReads

/-!
# Size limits of log reads

A read may be given a limit for the total size of the payloads that it returns. The first entry is
exempt, so that a follower that is behind by one large entry still receives it. A read that finds
its whole range in the cache returns as much of the range as the limit allows and leaves the cache
as it was, apart from its order.
-/

namespace EdgeOrchestrator.Raft

open CacheTransparency CasRaftStorage Storage

/-- Total size of the payloads. -/
def dataLength (entries : List Entry) : ℕ := (entries.map fun entry ↦ entry.data.length).sum

/-- A single entry may have any size; more of them stay within the limit. -/
def FitsLimit (maxSize : Option ℕ) (entries : List Entry) : Prop :=
  ∀ limit, maxSize = some limit → entries.length ≤ 1 ∨ dataLength entries ≤ limit

/-- The read returns the longest prefix of the logged entries within the limit, and at least the
first entry. -/
structure IsLimitedRead (maxSize : Option ℕ) (logged read : List Entry) : Prop where
  isPrefix : read <+: logged
  first : read ≠ []
  within : ∀ limit, maxSize = some limit → read.length = 1 ∨ dataLength read ≤ limit
  longest : ∀ other, other <+: logged →
    (∀ limit, maxSize = some limit → dataLength other ≤ limit) → other <+: read
  whole : maxSize = none → read = logged

theorem dataLength_append_singleton (entries : List Entry) (entry : Entry) :
    dataLength (entries ++ [entry]) = dataLength entries + entry.data.length := by
  simp [dataLength]

theorem dataLength_front_le {front entries : List Entry} (hfront : front <+: entries) :
    dataLength front ≤ dataLength entries := by
  obtain ⟨rest, rfl⟩ := hfront
  simp [dataLength]

/-- Leaving entries out at the end keeps a list within the limit. -/
theorem prefixClosed_fitsLimit (maxSize : Option ℕ) : PrefixClosed (FitsLimit maxSize) := by
  intro front entries hfront hfits limit hlimit
  rcases hfits limit hlimit with hone | htotal
  · exact Or.inl (le_trans hfront.length_le hone)
  · exact Or.inr (le_trans (dataLength_front_le hfront) htotal)

/-- The test of the loop stops exactly the entries that do not fit. -/
theorem overLimit_iff_not_fitsLimit (maxSize : Option ℕ) (entries : List Entry) (entry : Entry) :
    overLimit maxSize entries (dataLength entries) entry.data.length = true ↔
      ¬ FitsLimit maxSize (entries ++ [entry]) := by
  cases entries with
  | nil => simp [overLimit_nil, FitsLimit]
  | cons first rest =>
    rw [overLimit_iff (List.cons_ne_nil first rest), FitsLimit, dataLength_append_singleton]
    have hmore : ¬ (first :: rest ++ [entry]).length ≤ 1 := by simp
    simp only [hmore, false_or, not_forall, not_le, exists_prop, ExceedsLimit]

/-- The first entry always fits. -/
theorem ne_nil_of_longest {maxSize : Option ℕ} {logged read : List Entry} (hlogged : logged ≠ [])
    (hread : IsLongestPrefix (FitsLimit maxSize) logged read) : read ≠ [] := by
  obtain ⟨first, rest, rfl⟩ := List.exists_cons_of_ne_nil hlogged
  have hfirst : [first] <+: read := by
    apply hread.longest
    · exact ⟨rest, rfl⟩
    · exact fun _ _ ↦ Or.inl le_rfl
  exact List.ne_nil_of_mem (hfirst.subset List.mem_cons_self)

/-- The longest list that fits is what a read is to return. -/
theorem isLimitedRead_of_isLongestPrefix {maxSize : Option ℕ} {logged read : List Entry}
    (hlogged : logged ≠ []) (hread : IsLongestPrefix (FitsLimit maxSize) logged read) :
    IsLimitedRead maxSize logged read where
  isPrefix := hread.isPrefix
  first := ne_nil_of_longest hlogged hread
  within := by
    intro limit hlimit
    obtain hone | htotal := hread.holds limit hlimit
    · exact Or.inl (le_antisymm hone (List.length_pos_of_ne_nil (ne_nil_of_longest hlogged hread)))
    · exact Or.inr htotal
  longest := by
    intro other hother htotal
    exact hread.longest other hother fun limit hlimit ↦ Or.inr (htotal limit hlimit)
  whole := by
    intro hnone
    apply hread.eq_of_holds
    intro limit hlimit
    rw [hnone] at hlimit
    cases hlimit

namespace CasRaftStorage

variable (primitives : Primitives) {storage : CasRaftStorage} {log : ℕ → Entry}
  {maxSize : Option ℕ}

/-- A turn of the loop that finds its entry in the cache. -/
theorem readLoop_of_held_index {cache : EntryCache} {index : ℕ} {entry : Entry}
    (hheld : cache.peek index = some entry) (rest : List ℕ) (entries : List Entry) :
    storage.readLoop primitives maxSize (index :: rest) cache entries (dataLength entries) =
      if overLimit maxSize entries (dataLength entries) entry.data.length then
        (.ok entries, (cache.get index).2)
      else storage.readLoop primitives maxSize rest (cache.get index).2 (entries ++ [entry])
        (dataLength (entries ++ [entry])) := by
  have hlookup : (cache.get index).1 = some entry := by rw [LruCache.get_fst, hheld]
  rw [readLoop, ← Prod.mk.eta (p := cache.get index), hlookup, dataLength_append_singleton]

/-- The loop goes on as long as the entries fit, and only changes the order of the cache. -/
theorem readLoop_longest (storage : CasRaftStorage) {indices : List ℕ} {cache : EntryCache}
    {entries : List Entry} (hheld : ∀ index ∈ indices, cache.peek index = some (log index))
    (hfits : FitsLimit maxSize entries) :
    ∃ read after, storage.readLoop primitives maxSize indices cache entries (dataLength entries) =
        (.ok read, after) ∧
      IsLongestPrefix (FitsLimit maxSize) (entries ++ indices.map log) read ∧
      ∀ index, after.peek index = cache.peek index := by
  induction indices generalizing cache entries with
  | nil =>
    rw [List.map_nil, List.append_nil]
    exact ⟨entries, cache, rfl, IsLongestPrefix.of_holds hfits, fun _ ↦ rfl⟩
  | cons index rest ih =>
    rw [readLoop_of_held_index primitives (hheld index List.mem_cons_self), List.map_cons]
    split_ifs with hover
    · -- the running total is that of what has been read
      have hnext := (overLimit_iff_not_fitsLimit maxSize entries (log index)).mp hover
      refine ⟨entries, (cache.get index).2, rfl, ?_, LruCache.peek_get_snd cache index⟩
      exact IsLongestPrefix.of_next (prefixClosed_fitsLimit maxSize) hfits hnext _
    · have hfits' : FitsLimit maxSize (entries ++ [log index]) :=
        not_not.mp (mt (overLimit_iff_not_fitsLimit maxSize entries (log index)).mpr hover)
      have htouched : ∀ other ∈ rest, (cache.get index).2.peek other = some (log other) := by
        intro other hother
        rw [LruCache.peek_get_snd]
        exact hheld other (List.mem_cons_of_mem index hother)
      obtain ⟨read, after, hloop, hlongest, hpeek⟩ := ih htouched hfits'
      rw [List.append_assoc, List.singleton_append] at hlongest
      refine ⟨read, after, hloop, hlongest, ?_⟩
      intro other
      rw [hpeek, LruCache.peek_get_snd]

/-- A read that finds its range in the cache returns the longest part of it within the limit, and
leaves the contents of the cache as they were. -/
theorem entries_isLimitedRead {low high : ℕ} (maxSize : Option ℕ)
    (hlow : low < high) (hhigh : high ≤ storage.lastIndex + 1)
    (hheld : ∀ index, low ≤ index → index < high →
      storage.entryCache.peek index = some (log index)) :
    ∃ read cache, storage.entries primitives low high maxSize =
        (.ok read, { storage with entryCache := cache }) ∧
      IsLimitedRead maxSize ((List.range' low (high - low)).map log) read ∧
      ∀ index, cache.peek index = storage.entryCache.peek index := by
  have hrange : ∀ index ∈ List.range' low (high - low),
      storage.entryCache.peek index = some (log index) := by
    intro index hindex
    rw [List.mem_range'_1] at hindex
    exact hheld index hindex.1 (by omega)
  have hempty : FitsLimit maxSize [] := fun _ _ ↦ Or.inl (Nat.zero_le 1)
  have hlogged : (List.range' low (high - low)).map log ≠ [] := by
    rw [Ne, List.map_eq_nil_iff, List.range'_eq_nil_iff]
    omega
  obtain ⟨read, cache, hloop, hlongest, hpeek⟩ :=
    readLoop_longest primitives storage hrange hempty
  refine ⟨read, cache, ?_, isLimitedRead_of_isLongestPrefix hlogged hlongest, hpeek⟩
  have hstart : dataLength [] = 0 := rfl
  rw [hstart] at hloop
  rw [entries, if_neg (by omega), hloop]

/-- Entries with payloads of two, three, two and one bytes. -/
def sizedEntries : List Entry :=
  [{ index := 1, data := [1, 2] }, { index := 2, data := [3, 4, 5] }, { index := 3, data := [6, 7] },
    { index := 4, data := [8] }]

/-- A storage that holds them in its cache. -/
def sizedStorage : CasRaftStorage :=
  { newEmpty ⟨[], ∅⟩ [1] with
    lastIndex := 4
    entryCache := (newEmpty ⟨[], ∅⟩ [1]).entryCache.putAll
      (sizedEntries.map fun entry ↦ (entry.index, entry)) }

/-- Two entries keep to a limit of six bytes, and the last one does not come instead of the third. -/
theorem entries_isLimitedRead_sizedEntries :
    ∃ cache, sizedStorage.entries tabulated 1 5 (some 6) =
        (.ok (sizedEntries.take 2), { sizedStorage with entryCache := cache }) ∧
      IsLimitedRead (some 6) sizedEntries (sizedEntries.take 2) ∧
      ∀ index, cache.peek index = sizedStorage.entryCache.peek index := by
  let log (index : ℕ) : Entry := sizedEntries[index - 1]?.getD (emptyEntry index)
  have hheld : ∀ index, 1 ≤ index → index < 5 →
      sizedStorage.entryCache.peek index = some (log index) := by
    intro index hfrom hto
    interval_cases index <;> rfl
  obtain ⟨read, cache, hread, hlimited, hpeek⟩ :=
    entries_isLimitedRead tabulated (some 6) (by decide) (by decide) hheld
  have hread' : (sizedStorage.entries tabulated 1 5 (some 6)).1 = .ok (sizedEntries.take 2) := rfl
  obtain rfl : read = sizedEntries.take 2 := by
    rw [hread] at hread'
    exact Outcome.ok.inj hread'
  exact ⟨cache, hread, hlimited, hpeek⟩

end CasRaftStorage

end EdgeOrchestrator.Raft

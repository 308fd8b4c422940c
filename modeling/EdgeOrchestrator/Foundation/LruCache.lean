import Mathlib.Data.Finset.Card
import Mathlib.Data.Finset.Dedup
import Mathlib.Data.List.AList

/-!
# Bounded caches with least-recently-used replacement

The slots are kept in recency order, most recent first, over Mathlib's association lists, whose
insertion moves a key to the front. Storing a key that is not held in a full cache drops the last
slot. The capacity bound is a field, so a cache that holds more than its capacity cannot be built.

Reads and writes never invent a value: whatever is found after an operation was found before it
or was stored by it. A write loses no other key as long as it does not evict. Along many writes, a key
is lost as soon as the keys used since it was used last fill the cache.
-/

namespace EdgeOrchestrator

/-- Cache of at most `capacity` keys, in recency order. -/
structure LruCache (Key Value : Type) (capacity : ℕ) where
  slots : AList fun _ : Key ↦ Value
  bounded : slots.entries.length ≤ capacity

namespace LruCache

variable {Key Value : Type} [DecidableEq Key] {capacity : ℕ}

/-- Cache without any key. -/
def empty (Key Value : Type) (capacity : ℕ) : LruCache Key Value capacity :=
  ⟨∅, Nat.zero_le _⟩

/-- Number of keys held. -/
def size (cache : LruCache Key Value capacity) : ℕ := cache.slots.entries.length

/-- Value held for a key, without touching the recency order. -/
def peek (cache : LruCache Key Value capacity) (key : Key) : Option Value :=
  cache.slots.lookup key

/-- Store a value as the most recent one, evicting the oldest key when there is no room. -/
def put (cache : LruCache Key Value capacity) (key : Key) (value : Value) :
    LruCache Key Value capacity where
  slots := ⟨(cache.slots.insert key value).entries.take capacity,
    (cache.slots.insert key value).nodupKeys.sublist (List.take_sublist _ _)⟩
  bounded := List.length_take_le _ _

/-- Look a key up and make it the most recent one. -/
def get (cache : LruCache Key Value capacity) (key : Key) :
    Option Value × LruCache Key Value capacity :=
  match cache.peek key with
  | some value => (some value, cache.put key value)
  | none => (none, cache)

/-- Forget a key. -/
def pop (cache : LruCache Key Value capacity) (key : Key) : LruCache Key Value capacity where
  slots := cache.slots.erase key
  bounded := le_trans (List.kerase_sublist key cache.slots.entries).length_le cache.bounded

/-- Storing the key drops another one. -/
def Evicts (cache : LruCache Key Value capacity) (key : Key) : Prop :=
  key ∉ cache.slots ∧ cache.size = capacity

instance (cache : LruCache Key Value capacity) (key : Key) : Decidable (cache.Evicts key) :=
  inferInstanceAs (Decidable (_ ∧ _))

theorem length_insert_le_of_not_evicts {cache : LruCache Key Value capacity} {key : Key}
    (value : Value) (hroom : ¬ cache.Evicts key) :
    (cache.slots.insert key value).entries.length ≤ capacity := by
  have hkeys : (cache.slots.insert key value).keys.length =
      (cache.slots.keys.erase key).length + 1 := by
    rw [AList.keys_insert, List.length_cons]
  simp only [AList.keys, List.keys, List.length_map] at hkeys
  have hbounded := cache.bounded
  by_cases hheld : key ∈ cache.slots.keys
  · have herase := List.length_erase_of_mem hheld
    have hpositive := List.length_pos_of_mem hheld
    simp only [AList.keys, List.keys, List.length_map] at herase hpositive
    omega
  · have herase := List.erase_of_not_mem hheld
    have hsize : cache.size ≠ capacity := fun hfull ↦ hroom ⟨hheld, hfull⟩
    simp only [AList.keys, List.keys] at herase
    rw [herase, List.length_map] at hkeys
    unfold size at hsize
    omega

theorem put_slots_of_not_evicts {cache : LruCache Key Value capacity} {key : Key}
    (value : Value) (hroom : ¬ cache.Evicts key) :
    (cache.put key value).slots = cache.slots.insert key value := by
  apply AList.ext
  exact List.take_of_length_le (length_insert_le_of_not_evicts value hroom)

/-- The stored value is found, as soon as there is room for a single key. -/
theorem peek_put_self (cache : LruCache Key Value capacity) (key : Key) (value : Value)
    (hcapacity : 0 < capacity) : (cache.put key value).peek key = some value := by
  obtain ⟨room, rfl⟩ : ∃ room, capacity = room + 1 := ⟨capacity - 1, by omega⟩
  simp [peek, put, AList.lookup, AList.entries_insert]

/-- A value found under another key was there before. -/
theorem peek_of_peek_put {cache : LruCache Key Value capacity} {key other : Key}
    {value found : Value} (hother : other ≠ key)
    (hfound : (cache.put key value).peek other = some found) :
    cache.peek other = some found := by
  have hwhole : (cache.slots.insert key value).lookup other = some found :=
    List.sublist_dlookup (cache.slots.insert key value).nodupKeys
      (List.take_sublist capacity (cache.slots.insert key value).entries) hfound
  rwa [AList.lookup_insert_ne hother] at hwhole

/-- A write that does not evict leaves every other key alone. -/
theorem peek_put_of_ne {cache : LruCache Key Value capacity} {key other : Key}
    (value : Value) (hroom : ¬ cache.Evicts key) (hother : other ≠ key) :
    (cache.put key value).peek other = cache.peek other := by
  rw [peek, put_slots_of_not_evicts value hroom, AList.lookup_insert_ne hother, peek]

/-- Storing a key puts it in front and drops whatever no longer fits. -/
theorem keys_put (cache : LruCache Key Value capacity) (key : Key) (value : Value) :
    (cache.put key value).slots.keys = (key :: cache.slots.keys.erase key).take capacity := by
  rw [← AList.keys_insert (b := value)]
  exact List.map_take

theorem keys_put_of_not_mem {cache : LruCache Key Value capacity} {key : Key} (value : Value)
    (hnew : key ∉ cache.slots.keys) :
    (cache.put key value).slots.keys = (key :: cache.slots.keys).take capacity := by
  rw [keys_put, List.erase_of_not_mem hnew]

/-- A lookup returns what is held. -/
@[simp]
theorem get_fst (cache : LruCache Key Value capacity) (key : Key) :
    (cache.get key).1 = cache.peek key := by
  unfold get
  cases cache.peek key <;> rfl

/-- A lookup only changes the recency order. -/
@[simp]
theorem peek_get_snd (cache : LruCache Key Value capacity) (key other : Key) :
    (cache.get key).2.peek other = cache.peek other := by
  unfold get
  cases hheld : cache.peek key with
  | none => rfl
  | some value =>
    have hroom : ¬ cache.Evicts key := by
      intro h
      rw [peek, AList.lookup_eq_none.mpr h.1] at hheld
      cases hheld
    by_cases hother : other = key
    · subst hother
      rw [peek, put_slots_of_not_evicts value hroom, AList.lookup_insert, hheld]
    · exact peek_put_of_ne value hroom hother

theorem peek_pop_self (cache : LruCache Key Value capacity) (key : Key) :
    (cache.pop key).peek key = none :=
  AList.lookup_erase key cache.slots

theorem peek_pop_of_ne {key other : Key} (cache : LruCache Key Value capacity)
    (hother : other ≠ key) : (cache.pop key).peek other = cache.peek other :=
  AList.lookup_erase_ne hother

/-- Forgetting some keys leaves every other key alone. -/
theorem peek_foldl_pop (keys : List Key) (cache : LruCache Key Value capacity) (other : Key) :
    (keys.foldl pop cache).peek other = if other ∈ keys then none else cache.peek other := by
  induction keys using List.reverseRecOn with
  | nil => rw [List.foldl_nil, if_neg List.not_mem_nil]
  | append_singleton earlier key ih =>
    simp only [List.foldl_append, List.foldl_cons, List.foldl_nil, List.mem_append,
      List.mem_singleton]
    by_cases hother : other = key
    · rw [if_pos (Or.inr hother), hother, peek_pop_self]
    · simp only [peek_pop_of_ne _ hother, ih, hother, or_false]

/-! ## Eviction -/

/-- The keys used more recently than this one. -/
def recent (cache : LruCache Key Value capacity) (key : Key) : Finset Key :=
  (cache.slots.keys.takeWhile fun other ↦ other ≠ key).toFinset

theorem recent_of_keys {cache : LruCache Key Value capacity} {key : Key} {front back : List Key}
    (hkeys : cache.slots.keys = front ++ key :: back) : cache.recent key = front.toFinset := by
  have hnodup : (front ++ key :: back).Nodup := hkeys ▸ cache.slots.keys_nodup
  have hfront : ∀ other ∈ front, decide (other ≠ key) = true := by
    intro other hmem
    apply decide_eq_true
    intro heq
    rw [heq] at hmem
    exact (List.nodup_append.mp hnodup).2.2 key hmem key List.mem_cons_self rfl
  rw [recent, hkeys, List.takeWhile_append_of_pos hfront, List.takeWhile_cons_of_neg (by simp),
    List.append_nil]

/-- What stands in front of a key after another one was stored. -/
theorem keys_put_of_keys {cache : LruCache Key Value capacity} {key other : Key}
    {front back : List Key} (hkeys : cache.slots.keys = front ++ other :: back)
    (hother : other ≠ key) (value : Value) :
    ∃ newFront newBack, newFront.toFinset = insert key front.toFinset ∧ newFront.Nodup ∧
      (cache.put key value).slots.keys = (newFront ++ other :: newBack).take capacity := by
  have hnodup : (front ++ other :: back).Nodup := hkeys ▸ cache.slots.keys_nodup
  have hfilter : (front ++ other :: back).erase key =
      front.filter (fun kept ↦ kept != key) ++ other :: back.filter fun kept ↦ kept != key := by
    rw [hnodup.erase_eq_filter, List.filter_append, List.filter_cons_of_pos (by simpa using hother)]
  refine ⟨key :: front.filter fun kept ↦ kept != key, back.filter fun kept ↦ kept != key, ?_, ?_, ?_⟩
  · ext kept
    simp only [List.mem_toFinset, List.mem_cons, List.mem_filter, bne_iff_ne, Finset.mem_insert]
    tauto
  · apply List.nodup_cons.mpr
    constructor
    · simp
    · exact (List.nodup_append.mp hnodup).1.filter _
  · rw [keys_put, hkeys, hfilter, List.cons_append]

/-- A held key, with the keys in front of it. -/
theorem exists_keys_of_held {cache : LruCache Key Value capacity} {key : Key} {found : Value}
    (hheld : cache.peek key = some found) :
    ∃ front back, cache.slots.keys = front ++ key :: back := by
  have hmem : key ∈ cache.slots.keys := by
    rw [← AList.mem_keys, ← AList.lookup_isSome, ← peek, hheld]
    rfl
  exact List.append_of_mem hmem

theorem card_recent_lt {cache : LruCache Key Value capacity} {key : Key} {found : Value}
    (hheld : cache.peek key = some found) : (cache.recent key).card < capacity := by
  obtain ⟨front, back, hkeys⟩ := exists_keys_of_held hheld
  have hlength : cache.slots.keys.length ≤ capacity := by
    rw [AList.keys, List.keys, List.length_map]
    exact cache.bounded
  rw [hkeys, List.length_append, List.length_cons] at hlength
  rw [recent_of_keys hkeys]
  exact (List.toFinset_card_le front).trans_lt (by omega)

section Put

variable {cache : LruCache Key Value capacity} {key other : Key} {found : Value}

/-- A held key stays held while the keys in front of it, the stored one included, leave room. -/
theorem put_of_room (hother : other ≠ key) (hheld : cache.peek other = some found)
    (hroom : (insert key (cache.recent other)).card < capacity) (value : Value) :
    (cache.put key value).peek other = some found ∧
      (cache.put key value).recent other = insert key (cache.recent other) := by
  obtain ⟨front, back, hkeys⟩ := exists_keys_of_held hheld
  obtain ⟨newFront, newBack, hfront, hnodup, hput⟩ := keys_put_of_keys hkeys hother value
  rw [recent_of_keys hkeys, ← hfront, List.toFinset_card_of_nodup hnodup] at hroom
  have hkeysPut : (cache.put key value).slots.keys =
      newFront ++ other :: newBack.take (capacity - newFront.length - 1) := by
    rw [hput, List.take_append, List.take_of_length_le hroom.le, List.take_cons (by omega)]
  constructor
  · have hmem : ((cache.put key value).peek other).isSome := by
      rw [peek, AList.lookup_isSome, AList.mem_keys, hkeysPut]
      exact List.mem_append_right _ List.mem_cons_self
    obtain ⟨kept, hkept⟩ := Option.isSome_iff_exists.mp hmem
    have hsame := peek_of_peek_put hother hkept
    rw [hkept, ← hsame, hheld]
  · rw [recent_of_keys hkeysPut, hfront, recent_of_keys hkeys]

theorem put_of_no_room (hother : other ≠ key) (hheld : cache.peek other = some found)
    (hroom : ¬ (insert key (cache.recent other)).card < capacity) (value : Value) :
    (cache.put key value).peek other = none := by
  obtain ⟨front, back, hkeys⟩ := exists_keys_of_held hheld
  obtain ⟨newFront, newBack, hfront, hnodup, hput⟩ := keys_put_of_keys hkeys hother value
  have hnotFront : other ∉ newFront := by
    have hkeysNodup : (front ++ other :: back).Nodup := hkeys ▸ cache.slots.keys_nodup
    rw [← List.mem_toFinset, hfront, Finset.mem_insert, List.mem_toFinset]
    rintro (hkey | hmem)
    · exact hother hkey
    · exact (List.nodup_append.mp hkeysNodup).2.2 other hmem other List.mem_cons_self rfl
  rw [recent_of_keys hkeys, ← hfront, List.toFinset_card_of_nodup hnodup] at hroom
  rw [peek, AList.lookup_eq_none, AList.mem_keys, hput,
    List.take_append_of_le_length (by omega)]
  exact fun hmem ↦ hnotFront (List.mem_of_mem_take hmem)

end Put

/-- Store one value after the other. -/
def putAll (cache : LruCache Key Value capacity) (stored : List (Key × Value)) :
    LruCache Key Value capacity :=
  stored.foldl (fun cache slot ↦ cache.put slot.1 slot.2) cache

/-- What is held under a key that was not stored: the same as before if the keys used since,
together with those in front of it, leave room for it, and nothing otherwise. -/
theorem peek_putAll {cache : LruCache Key Value capacity} {stored : List (Key × Value)}
    {other : Key} (hother : other ∉ stored.map Prod.fst) :
    (cache.putAll stored).peek other =
      if (cache.recent other ∪ (stored.map Prod.fst).toFinset).card < capacity then
        cache.peek other
      else none := by
  induction stored generalizing cache with
  | nil =>
    rw [putAll, List.foldl_nil, List.map_nil, List.toFinset_nil, Finset.union_empty]
    cases hheld : cache.peek other with
    | none => rw [ite_self]
    | some found => rw [if_pos (card_recent_lt hheld)]
  | cons slot rest ih =>
    rw [List.map_cons, List.mem_cons, not_or] at hother
    have hfold : cache.putAll (slot :: rest) = (cache.put slot.1 slot.2).putAll rest := rfl
    rw [hfold, ih hother.2, List.map_cons, List.toFinset_cons, Finset.union_insert]
    cases hheld : cache.peek other with
    | none =>
      have hput : (cache.put slot.1 slot.2).peek other = none := by
        by_contra hsome
        obtain ⟨found, hfound⟩ := Option.ne_none_iff_exists'.mp hsome
        rw [peek_of_peek_put hother.1 hfound] at hheld
        cases hheld
      rw [hput, ite_self, ite_self]
    | some found =>
      by_cases hroom : (insert slot.1 (cache.recent other)).card < capacity
      · obtain ⟨hput, hrecent⟩ := put_of_room hother.1 hheld hroom slot.2
        rw [hput, hrecent, Finset.insert_union]
      · have hput := put_of_no_room hother.1 hheld hroom slot.2
        have hmore : insert slot.1 (cache.recent other) ⊆
            insert slot.1 (cache.recent other ∪ (rest.map Prod.fst).toFinset) :=
          Finset.insert_subset_insert _ Finset.subset_union_left
        have hcard := Finset.card_le_card hmore
        rw [hput, ite_self, if_neg (by omega)]

end LruCache

end EdgeOrchestrator

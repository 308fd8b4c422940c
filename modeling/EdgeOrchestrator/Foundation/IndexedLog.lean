import Mathlib.Data.List.Basic

/-!
# Logs indexed from one

A log is the list of its items, the first one having index one. Two ways of storing a batch at an
index are compared. Overwriting discards everything from that index on and then appends the batch;
splicing replaces items in place, extends the log where the batch is longer and keeps whatever lies
beyond the batch. They coincide exactly when the batch reaches the end of the log.
-/

namespace EdgeOrchestrator.IndexedLog

variable {Item : Type}

/-- Item at an index, counted from one. -/
def itemAt (log : List Item) : ℕ → Option Item
  | 0 => none
  | position + 1 => log[position]?

/-- Discard every item from the index `start` on, then append the batch. -/
def overwrite (log : List Item) (start : ℕ) (batch : List Item) : List Item :=
  log.take (start - 1) ++ batch

/-- Put the batch in place of the items from the index `start` on and keep what lies beyond it. -/
def splice (log : List Item) (start : ℕ) (batch : List Item) : List Item :=
  log.take (start - 1) ++ batch ++ log.drop (start - 1 + batch.length)

/-- Items with an index from `low` up to but not including `high`, in order. -/
def slice (log : List Item) (low high : ℕ) : List Item :=
  (List.range' low (high - low)).filterMap (itemAt log)

theorem itemAt_eq_none_iff {log : List Item} {index : ℕ} :
    itemAt log index = none ↔ index = 0 ∨ log.length < index := by
  cases index with
  | zero => simp [itemAt]
  | succ position =>
    rw [itemAt, List.getElem?_eq_none_iff]
    omega

theorem itemAt_isSome_iff {log : List Item} {index : ℕ} :
    (itemAt log index).isSome ↔ 1 ≤ index ∧ index ≤ log.length := by
  rw [Option.isSome_iff_ne_none, Ne, itemAt_eq_none_iff]
  omega

theorem length_overwrite {log : List Item} {start : ℕ} {batch : List Item}
    (hstart : start ≤ log.length + 1) :
    (overwrite log start batch).length = start - 1 + batch.length := by
  rw [overwrite, List.length_append, List.length_take]
  omega

theorem length_splice {log : List Item} {start : ℕ} {batch : List Item}
    (hstart : start ≤ log.length + 1) :
    (splice log start batch).length = max log.length (start - 1 + batch.length) := by
  simp only [splice, List.length_append, List.length_take, List.length_drop]
  omega

@[simp]
theorem splice_nil (log : List Item) (start : ℕ) : splice log start [] = log := by
  simp [splice]

theorem overwrite_length_add_one (log batch : List Item) :
    overwrite log (log.length + 1) batch = log ++ batch := by
  simp [overwrite]

/-- Splicing is done one item after the other. -/
theorem splice_cons {log : List Item} {start : ℕ} (item : Item) (rest : List Item)
    (hfirst : 1 ≤ start) (hstart : start ≤ log.length + 1) :
    splice log start (item :: rest) = splice (splice log start [item]) (start + 1) rest := by
  rcases Nat.exists_eq_add_of_le' hfirst with ⟨before, rfl⟩
  have hbefore : (log.take before).length = before := by
    rw [List.length_take]
    omega
  have htake : (log.take before ++ [item] ++ log.drop (before + 1)).take (before + 1) =
      log.take before ++ [item] := by
    rw [List.take_append_of_le_length (by simp [hbefore]), List.take_of_length_le (by simp [hbefore])]
  have hdrop : (log.take before ++ [item] ++ log.drop (before + 1)).drop (before + 1 + rest.length) =
      log.drop (before + (rest.length + 1)) := by
    rw [List.drop_append, List.drop_eq_nil_of_le (by simp [hbefore]), List.nil_append,
      List.drop_drop]
    congr 1
    simp only [List.length_append, hbefore, List.length_singleton]
    omega
  simp only [splice, Nat.add_sub_cancel, List.length_cons, List.length_nil, Nat.zero_add]
  rw [htake, hdrop]
  simp

/-- Splicing a single item changes the log at its index only. -/
theorem itemAt_splice_singleton {log : List Item} {start : ℕ} (item : Item)
    (hfirst : 1 ≤ start) (hstart : start ≤ log.length + 1) (index : ℕ) :
    itemAt (splice log start [item]) index =
      if index = start then some item else itemAt log index := by
  rcases Nat.exists_eq_add_of_le' hfirst with ⟨before, rfl⟩
  cases index with
  | zero => simp [itemAt]
  | succ position =>
    simp only [itemAt, splice, Nat.add_sub_cancel, List.length_singleton, Nat.succ_inj,
      List.append_assoc, List.singleton_append]
    have hbefore : (log.take before).length = before := by
      rw [List.length_take]
      omega
    rcases Nat.lt_trichotomy position before with hlt | heq | hgt
    · rw [List.getElem?_append_left (by omega), List.getElem?_take_of_lt hlt, if_neg (by omega)]
    · subst heq
      rw [List.getElem?_append_right (by omega), hbefore, if_pos rfl]
      simp
    · rw [List.getElem?_append_right (by omega), hbefore, if_neg (by omega),
        List.getElem?_cons, if_neg (by omega), List.getElem?_drop]
      congr 1
      omega

/-- A batch that reaches the end of the log leaves nothing beyond it. -/
theorem splice_eq_overwrite {log : List Item} {start : ℕ} {batch : List Item}
    (hreaches : log.length ≤ start - 1 + batch.length) :
    splice log start batch = overwrite log start batch := by
  rw [splice, overwrite, List.drop_eq_nil_of_le hreaches, List.append_nil]

/-- Appending an item adds it at the next index. -/
theorem itemAt_append_singleton (log : List Item) (item : Item) (index : ℕ) :
    itemAt (log ++ [item]) index =
      if index = log.length + 1 then some item else itemAt log index := by
  have happend : splice log (log.length + 1) [item] = log ++ [item] := by
    calc splice log (log.length + 1) [item]
      _ = overwrite log (log.length + 1) [item] := splice_eq_overwrite (by simp)
      _ = log ++ [item] := overwrite_length_add_one log [item]
  rw [← happend, itemAt_splice_singleton item (by omega) (Nat.le_refl _)]

end EdgeOrchestrator.IndexedLog

import EdgeOrchestrator.Raft.CommittedReplay

/-!
# A snapshot and the entries after it

The apply loop passes over empty and undecodable payloads without advancing the last applied
index, so the index of a snapshot can lag behind the entries it covers. The entries between the
two are the ones passed over, and the loop passes over them again when it is resumed.
-/

namespace EdgeOrchestrator.Raft.SnapshotReplay

open ClusterState CommittedReplay RaftNode Storage

variable (decode : Bytes → Except String Proposal)

/-- A payload the apply loop passes over. -/
def PassedOver (entry : Entry) : Prop :=
  entry.data = [] ∨ ∃ message, decode entry.data = .error message

/-- Committed entries come with strictly increasing indices. -/
def Ascending (entries : List Entry) : Prop :=
  entries.Pairwise fun earlier later ↦ earlier.index < later.index

variable {decode}

theorem applyEntry_of_passedOver {entry : Entry} (hpassed : PassedOver decode entry)
    (state : ClusterState) : applyEntry decode state entry = state := by
  unfold applyEntry
  rcases hpassed with hempty | ⟨message, herror⟩
  · rw [if_pos hempty]
  · simp only [herror, ite_self]

theorem applyEntry_of_not_passedOver {entry : Entry} (hpassed : ¬ PassedOver decode entry)
    (state : ClusterState) :
    (applyEntry decode state entry).lastAppliedIndex = entry.index := by
  have hempty : entry.data ≠ [] := fun hdata ↦ hpassed (Or.inl hdata)
  unfold applyEntry
  rw [if_neg hempty]
  cases hdecode : decode entry.data with
  | ok proposal => rfl
  | error message => exact absurd (Or.inr ⟨message, hdecode⟩) hpassed

theorem applyCommitted_of_passedOver {entries : List Entry}
    (hpassed : ∀ entry ∈ entries, PassedOver decode entry) (state : ClusterState) :
    applyCommitted decode state entries = state := by
  induction entries with
  | nil => rfl
  | cons entry rest ih =>
    rw [applyCommitted, List.foldl_cons,
      applyEntry_of_passedOver (hpassed entry List.mem_cons_self)]
    exact ih fun other hother ↦ hpassed other (List.mem_cons_of_mem entry hother)

theorem applyCommitted_append (state : ClusterState) (first second : List Entry) :
    applyCommitted decode state (first ++ second) =
      applyCommitted decode (applyCommitted decode state first) second :=
  List.foldl_append

variable (decode)

/-- The last applied index stays, or becomes the index of an entry that was not passed over. -/
theorem lastAppliedIndex_applyCommitted (state : ClusterState) (entries : List Entry) :
    (applyCommitted decode state entries).lastAppliedIndex = state.lastAppliedIndex ∨
      ∃ entry ∈ entries,
        (applyCommitted decode state entries).lastAppliedIndex = entry.index := by
  induction entries generalizing state with
  | nil => exact Or.inl rfl
  | cons entry rest ih =>
    rw [applyCommitted, List.foldl_cons, ← applyCommitted]
    by_cases hpassed : PassedOver decode entry
    · rw [applyEntry_of_passedOver hpassed]
      rcases ih state with hsame | ⟨other, hother, hindex⟩
      · exact Or.inl hsame
      · exact Or.inr ⟨other, List.mem_cons_of_mem entry hother, hindex⟩
    · rcases ih (applyEntry decode state entry) with hsame | ⟨other, hother, hindex⟩
      · exact Or.inr ⟨entry, List.mem_cons_self,
          hsame.trans (applyEntry_of_not_passedOver hpassed state)⟩
      · exact Or.inr ⟨other, List.mem_cons_of_mem entry hother, hindex⟩

variable {decode}

/-- Entries beyond the index a loop ends with are entries it has passed over. -/
theorem passedOver_of_lastAppliedIndex_lt {entries : List Entry} (hascending : Ascending entries)
    (state : ClusterState) {entry : Entry} (hmem : entry ∈ entries)
    (hindex : (applyCommitted decode state entries).lastAppliedIndex < entry.index) :
    PassedOver decode entry := by
  induction entries generalizing state with
  | nil => exact absurd hmem List.not_mem_nil
  | cons head rest ih =>
    have hrest := List.pairwise_cons.mp hascending
    rw [applyCommitted, List.foldl_cons, ← applyCommitted] at hindex
    rcases List.mem_cons.mp hmem with hhead | htail
    · by_contra hpassed
      rw [hhead] at hindex hpassed
      -- An applied head leaves its own index, and the later entries only raise it.
      rcases lastAppliedIndex_applyCommitted decode (applyEntry decode state head)
        rest with hsame | ⟨other, hother, hlast⟩
      · rw [hsame, applyEntry_of_not_passedOver hpassed] at hindex
        exact lt_irrefl _ hindex
      · rw [hlast] at hindex
        exact lt_asymm hindex (hrest.1 other hother)
    · exact ih hrest.2 (applyEntry decode state head) htail hindex

/-- Entries after a prefix lie beyond the index the prefix ends with. -/
theorem lastAppliedIndex_lt_of_later {earlier later : List Entry}
    (hascending : Ascending (earlier ++ later)) {state : ClusterState}
    (hpositive : ∀ entry ∈ later, state.lastAppliedIndex < entry.index)
    {entry : Entry} (hmem : entry ∈ later) :
    (applyCommitted decode state earlier).lastAppliedIndex < entry.index := by
  rcases lastAppliedIndex_applyCommitted decode state earlier with
    hsame | ⟨other, hother, hlast⟩
  · rw [hsame]
    exact hpositive entry hmem
  · rw [hlast]
    exact (List.pairwise_append.mp hascending).2.2 other hother entry hmem

variable (decode)

/-- Resuming from the state after a prefix with the entries beyond its index gives the state after
all entries. -/
theorem resume_eq_applyCommitted (state : ClusterState) (earlier later : List Entry)
    (hascending : Ascending (earlier ++ later))
    (hpositive : ∀ entry ∈ later, state.lastAppliedIndex < entry.index) :
    applyCommitted decode (applyCommitted decode state earlier)
        ((earlier ++ later).filter fun entry ↦
          (applyCommitted decode state earlier).lastAppliedIndex < entry.index) =
      applyCommitted decode state (earlier ++ later) := by
  have hlater : (later.filter fun entry ↦
      (applyCommitted decode state earlier).lastAppliedIndex < entry.index) = later := by
    apply List.filter_eq_self.mpr
    intro entry hmem
    exact decide_eq_true (lastAppliedIndex_lt_of_later hascending hpositive hmem)
  have hpassed : ∀ entry ∈ earlier.filter fun entry ↦
      (applyCommitted decode state earlier).lastAppliedIndex < entry.index,
      PassedOver decode entry := by
    intro entry hmem
    have hfiltered := List.mem_filter.mp hmem
    exact passedOver_of_lastAppliedIndex_lt (List.pairwise_append.mp hascending).1 state
      hfiltered.1 (of_decide_eq_true hfiltered.2)
  rw [List.filter_append, hlater, applyCommitted_append, applyCommitted_of_passedOver hpassed,
    applyCommitted_append]

/-- A snapshot taken at any cut point, restored and followed by the entries beyond its index, is
the replay of the whole log. -/
theorem restore_and_resume_eq_replay (entries : List Entry) (hascending : Ascending entries)
    (hpositive : ∀ entry ∈ entries, 1 ≤ entry.index) (cut : ℕ) :
    let restored := restore (applyCommitted decode {} (entries.take cut)).snapshot
    applyCommitted decode restored
        (entries.filter fun entry ↦ restored.lastAppliedIndex < entry.index) =
      applyCommitted decode {} entries := by
  have hsplit := List.take_append_drop cut entries
  have hresume := resume_eq_applyCommitted decode {} (entries.take cut) (entries.drop cut)
    (by rwa [hsplit]) (fun entry hmem ↦ hpositive entry (List.mem_of_mem_drop hmem))
  rwa [hsplit] at hresume

/-- A snapshot after three entries, the last of which was passed over: its index is that of the
second one. -/
theorem restore_and_resume_after_election :
    let entries : List Entry := [{ index := 1 }, registrationEntry, { index := 3 }]
    let restored := restore (applyCommitted decodeRegistration {} (entries.take 3)).snapshot
    applyCommitted decodeRegistration restored
        (entries.filter fun entry ↦ restored.lastAppliedIndex < entry.index) =
      applyCommitted decodeRegistration {} entries := by
  apply restore_and_resume_eq_replay
  · have hindices : [1, 2, 3].Pairwise (· < ·) := by decide
    exact List.pairwise_map.mp hindices
  · intro entry hmem
    have hpositive : ∀ index ∈ [1, 2, 3], 1 ≤ index := by decide
    exact hpositive entry.index (List.mem_map_of_mem hmem)

end EdgeOrchestrator.Raft.SnapshotReplay

import EdgeOrchestrator.Foundation.Execution
import EdgeOrchestrator.Raft.Node

/-!
# Votes across restarts

A node's life is a sequence of cycles and restarts over one object-store directory. raft-rs grants
votes under the usual rule, read off the hard state it was given or last set. The constructor starts
from an empty hard state, whatever was persisted before, so one vote per term and the recovery of
the hard state hold exactly along the lives whose restarts come before anything was persisted. A
crash inside a cycle is a cycle with the rest of its `Ready` cut off, followed by a restart.
-/

namespace EdgeOrchestrator.Raft.VoteSafety

open Execution Storage

/-- A vote: the term and the candidate. -/
abbrev Vote := ℕ × ℕ

/-- How raft-rs moves its hard state: the term never falls, and a vote given in a term stays. -/
def Follows (before next : HardState) : Prop :=
  before.term < next.term ∨
    before.term = next.term ∧ (before.vote = 0 ∨ before.vote = next.vote)

def Permits (state : HardState) (vote : Vote) : Prop :=
  state.term < vote.1 ∨ state.term = vote.1 ∧ (state.vote = 0 ∨ state.vote = vote.2)

/-- What is assumed of raft-rs in a cycle that sends the grants of some votes: each is permitted by
the hard state at the start of the cycle and persisted by the end of it. Zero is not a raft id. -/
def VotingRule (before : HardState) (cycle : ReadyCycle) (granted : List Vote) : Prop :=
  (∀ next ∈ cycle.ready.hs, Follows before next) ∧
    ∀ vote ∈ granted, vote.2 ≠ 0 ∧ Permits before vote ∧
      (cycle.ready.hs.getD before).term = vote.1 ∧ (cycle.ready.hs.getD before).vote = vote.2

instance (before next : HardState) : Decidable (Follows before next) :=
  inferInstanceAs (Decidable (_ ∨ _))

instance (state : HardState) (vote : Vote) : Decidable (Permits state vote) :=
  inferInstanceAs (Decidable (_ ∨ _))

instance (before : HardState) (cycle : ReadyCycle) (granted : List Vote) :
    Decidable (VotingRule before cycle granted) :=
  inferInstanceAs (Decidable (_ ∧ _))

/-- A node over several process lifetimes. The last persisted hard state and the grants that were
sent are recorded beside it. -/
structure Life where
  node : RaftNode
  lastPersisted : Option HardState
  grants : List Vote

inductive LifeStep
  | cycle (cycle : ReadyCycle) (granted : List Vote)
  | restart (transport : Libp2pRaftTransport)

section Machine

variable (primitives : Primitives) (decode : Bytes → Except String Proposal) (voters : List ℕ)

/-- One cycle of the event loop, or a restart over the same directory with the same voters. -/
def step (life : Life) : LifeStep → Option Life
  | .cycle cycle granted =>
    if VotingRule life.node.storage.initialState.hardState cycle granted then
      some
        { node := (life.node.processReady primitives decode (fun _ ↦ none) (some cycle)).1
          lastPersisted := cycle.ready.hs.or life.lastPersisted
          grants := life.grants ++ granted }
    else none
  | .restart transport =>
    some { life with
      node := RaftNode.new life.node.id voters life.node.storage.objectStore transport }

/-- A node that is started for the first time. -/
def firstStart (id : ℕ) (objectStore : LocalObjectStore) (transport : Libp2pRaftTransport) : Life :=
  ⟨RaftNode.new id voters objectStore transport, none, []⟩

/-- No two candidates got the vote of one term. -/
def OneVotePerTerm (grants : List Vote) : Prop :=
  ∀ first ∈ grants, ∀ second ∈ grants, first.1 = second.1 → first.2 = second.2

/-- The storage answers with the hard state that was last persisted. -/
def RecoversHardState (life : Life) : Prop :=
  life.node.storage.initialState.hardState = life.lastPersisted.getD {}

/-- What should hold in every state of a life. -/
def Safe (life : Life) : Prop := OneVotePerTerm life.grants ∧ RecoversHardState life

/-- A restart comes before any hard state but the initial one was persisted. -/
def RestartsFresh (life : Life) : LifeStep → Prop
  | .cycle _ _ => True
  | .restart _ => life.lastPersisted.getD {} = {}

/-- Every vote that was granted is the one in the hard state or belongs to an earlier term. -/
def GrantsCovered (life : Life) : Prop :=
  ∀ vote ∈ life.grants, vote.2 ≠ 0 ∧
    (vote.1 < (life.lastPersisted.getD {}).term ∨
      vote.1 = (life.lastPersisted.getD {}).term ∧ vote.2 = (life.lastPersisted.getD {}).vote)

/-- The invariant of the lives without a late restart. -/
def Sound (life : Life) : Prop := Safe life ∧ GrantsCovered life

variable {primitives decode voters}

theorem follows_getD {before : HardState} {hs : Option HardState}
    (hfollows : ∀ next ∈ hs, Follows before next) : Follows before (hs.getD before) := by
  cases hs with
  | none => exact Or.inr ⟨rfl, Or.inr rfl⟩
  | some next => exact hfollows next rfl

/-- A vote that is covered stays covered when the hard state moves on. -/
theorem covered_of_follows {before next : HardState} {vote : Vote} (hcandidate : vote.2 ≠ 0)
    (hfollows : Follows before next)
    (hcovered : vote.1 < before.term ∨ vote.1 = before.term ∧ vote.2 = before.vote) :
    vote.1 < next.term ∨ vote.1 = next.term ∧ vote.2 = next.vote := by
  rcases hfollows with hterm | ⟨hterm, hunused | hvote⟩
  · exact Or.inl (by omega)
  · rcases hcovered with hearlier | ⟨-, hcandidate'⟩
    · exact Or.inl (by omega)
    · exact absurd (hcandidate'.trans hunused) hcandidate
  · rwa [← hterm, ← hvote]

/-- Adding grants of the vote in the hard state keeps one vote per term. -/
theorem oneVotePerTerm_append {grants granted : List Vote} {state : HardState}
    (hone : OneVotePerTerm grants)
    (hcovered : ∀ vote ∈ grants,
      vote.1 < state.term ∨ vote.1 = state.term ∧ vote.2 = state.vote)
    (hgranted : ∀ vote ∈ granted, state.term = vote.1 ∧ state.vote = vote.2) :
    OneVotePerTerm (grants ++ granted) := by
  intro first hfirst second hsecond hterm
  rcases List.mem_append.mp hfirst with hfirst | hfirst <;>
    rcases List.mem_append.mp hsecond with hsecond | hsecond
  · exact hone first hfirst second hsecond hterm
  · have hnew := hgranted second hsecond
    rcases hcovered first hfirst with hearlier | ⟨-, hvote⟩
    · omega
    · rw [hvote, hnew.2]
  · have hnew := hgranted first hfirst
    rcases hcovered second hsecond with hearlier | ⟨-, hvote⟩
    · omega
    · rw [hvote, hnew.2]
  · rw [← (hgranted first hfirst).2, ← (hgranted second hsecond).2]

theorem sound_of_cycle {life next : Life} {cycle : ReadyCycle} {granted : List Vote}
    (hsound : Sound life)
    (hstep : step primitives decode voters life (.cycle cycle granted) = some next) :
    Sound next := by
  rcases hsound with ⟨⟨hone, hrecovers⟩, hcovered⟩
  unfold RecoversHardState at hrecovers
  rw [step, Option.ite_none_right_eq_some, hrecovers] at hstep
  rcases hstep with ⟨⟨hfollows, hgranted⟩, hnext⟩
  have hlast : (cycle.ready.hs.or life.lastPersisted).getD {} =
      cycle.ready.hs.getD (life.lastPersisted.getD {}) := Option.getD_or
  have hmoved := follows_getD hfollows
  have hpersisted : ∀ vote ∈ life.grants, vote.2 ≠ 0 ∧
      (vote.1 < (cycle.ready.hs.getD (life.lastPersisted.getD {})).term ∨
        vote.1 = (cycle.ready.hs.getD (life.lastPersisted.getD {})).term ∧
        vote.2 = (cycle.ready.hs.getD (life.lastPersisted.getD {})).vote) := by
    intro vote hvote
    rcases hcovered vote hvote with ⟨hcandidate, hcase⟩
    exact ⟨hcandidate, covered_of_follows hcandidate hmoved hcase⟩
  rw [← Option.some.inj hnext]
  refine ⟨⟨?_, ?_⟩, ?_⟩
  · exact oneVotePerTerm_append hone (fun vote hvote ↦ (hpersisted vote hvote).2)
      fun vote hvote ↦ (hgranted vote hvote).2.2
  · have hstorage := RaftNode.processReady_hardState primitives decode life.node cycle
    calc (RaftNode.processReady primitives decode (fun _ ↦ none) life.node
        (some cycle)).1.storage.initialState.hardState
      _ = (cycle.ready.hs.or life.node.storage.hardState).getD {} := by
        rw [CasRaftStorage.initialState, hstorage]
      _ = cycle.ready.hs.getD (life.node.storage.hardState.getD {}) := Option.getD_or
      _ = cycle.ready.hs.getD (life.lastPersisted.getD {}) := congrArg cycle.ready.hs.getD hrecovers
      _ = (cycle.ready.hs.or life.lastPersisted).getD {} := hlast.symm
  · intro vote hvote
    dsimp only at hvote ⊢
    rw [hlast]
    rcases List.mem_append.mp hvote with hvote | hvote
    · exact hpersisted vote hvote
    · rcases hgranted vote hvote with ⟨hcandidate, -, hterm, hvoted⟩
      exact ⟨hcandidate, Or.inr ⟨hterm.symm, hvoted.symm⟩⟩

theorem sound_of_restart {life next : Life} {transport : Libp2pRaftTransport}
    (hsound : Sound life) (hfresh : life.lastPersisted.getD {} = {})
    (hstep : step primitives decode voters life (.restart transport) = some next) :
    Sound next := by
  rw [← Option.some.inj hstep]
  exact ⟨⟨hsound.1.1, hfresh.symm⟩, hsound.2⟩

/-- One vote per term and the recovery of the hard state hold throughout a life exactly when all
its restarts come before a hard state was persisted. -/
theorem safe_throughout_iff (id : ℕ) (objectStore : LocalObjectStore)
    (transport : Libp2pRaftTransport) (labels : List LifeStep) :
    Throughout (step primitives decode voters) Safe (firstStart voters id objectStore transport)
        labels ↔
      Guarded (step primitives decode voters) RestartsFresh
        (firstStart voters id objectStore transport) labels := by
  apply throughout_iff_guarded Sound
  · intro life hsound
    exact hsound.1
  · intro life label next hsound hguard hstep
    cases label with
    | cycle cycle granted => exact sound_of_cycle hsound hstep
    | restart transport => exact sound_of_restart hsound hguard hstep
  · intro life label next hsound hstep hsafe
    cases label with
    | cycle cycle granted => trivial
    | restart transport =>
      rw [← Option.some.inj hstep] at hsafe
      exact hsafe.2.symm
  · have hnone : ∀ vote : Vote, vote ∉ ([] : List Vote) := fun vote ↦ List.not_mem_nil
    exact ⟨⟨fun first hfirst ↦ absurd hfirst (hnone first), rfl⟩,
      fun vote hvote ↦ absurd hvote (hnone vote)⟩

end Machine

/-- The cycle that persists and grants the vote of node 1 for a candidate in term 1. -/
def grantTo (candidate : ℕ) : LifeStep :=
  .cycle { ready := { hs := some { term := 1, vote := candidate } } } [(1, candidate)]

theorem second_vote_after_restart :
    ¬ ∀ (primitives : Primitives) (decode : Bytes → Except String Proposal) (voters : List ℕ)
      (id : ℕ) (objectStore : LocalObjectStore) (transport : Libp2pRaftTransport)
      (labels : List LifeStep) (final : Life),
      run (step primitives decode voters) (firstStart voters id objectStore transport) labels =
        some final → Safe final := by
  intro hgeneral
  have hsafe := hgeneral tabulated (fun _ ↦ .error "EOF while parsing a value at line 1 column 0")
    [1, 2, 3] 1 ⟨[], ∅⟩ ⟨∅, []⟩ [grantTo 2, .restart ⟨∅, []⟩, grantTo 3] _ rfl
  have hsame : 2 = 3 := hsafe.1 (1, 2) (by decide) (1, 3) (by decide) rfl
  omega

end EdgeOrchestrator.Raft.VoteSafety

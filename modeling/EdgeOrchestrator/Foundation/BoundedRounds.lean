import Mathlib.Data.Nat.Notation
import Mathlib.Tactic.TypeStar

/-!
# Loops with a bounded number of rounds

A round ends the loop with a result or hands a state to the next round. When the rounds are used
up, the result is made of the last state. Which state a round begins with does not depend on the
bound, so the loop ends at the first round that ends it, if there is one within the bound.
-/

namespace EdgeOrchestrator.BoundedRounds

variable {State Result : Type} (step : ℕ → State → Result ⊕ State) (start : State)

/-- Run a number of rounds, the first of which has the given index. -/
def run (exhausted : State → Result) : ℕ → ℕ → State → Result
  | 0, _, state => exhausted state
  | rounds + 1, round, state =>
    match step round state with
    | .inl result => result
    | .inr next => run exhausted rounds (round + 1) next

/-- A round begins with a state. -/
inductive Begins : ℕ → State → Prop
  | start : Begins 0 start
  | again {round : ℕ} {state next : State} (hbegins : Begins round state)
      (hstep : step round state = .inr next) : Begins (round + 1) next

variable {step start} {exhausted : State → Result}

theorem run_of_inl {rounds round : ℕ} {state : State} {result : Result}
    (hstep : step round state = .inl result) :
    run step exhausted (rounds + 1) round state = result := by
  simp only [run, hstep]

theorem run_of_inr {rounds round : ℕ} {state next : State}
    (hstep : step round state = .inr next) :
    run step exhausted (rounds + 1) round state = run step exhausted rounds (round + 1) next := by
  simp only [run, hstep]

theorem Begins.unique {round : ℕ} {first second : State} (hfirst : Begins step start round first)
    (hsecond : Begins step start round second) : first = second := by
  induction hfirst generalizing second with
  | start =>
    cases hsecond with
    | start => rfl
  | again hbegins hstep ih =>
    cases hsecond with
    | again hother hotherStep =>
      rw [ih hother, hotherStep] at hstep
      exact (Sum.inr.inj hstep).symm

/-- What holds at the start and is handed on by every round holds at the beginning of each. -/
theorem Begins.invariant (Holds : ℕ → State → Prop) (hstart : Holds 0 start)
    (hagain : ∀ round state next, Holds round state → step round state = .inr next →
      Holds (round + 1) next)
    {round : ℕ} {state : State} (hbegins : Begins step start round state) : Holds round state := by
  induction hbegins with
  | start => exact hstart
  | again _ hstep ih => exact hagain _ _ _ ih hstep

/-- The rounds in front of one that begins have not ended the loop. -/
theorem Begins.earlier {round : ℕ} {state : State} (hbegins : Begins step start round state)
    {before : ℕ} (hbefore : before < round) :
    ∃ earlier next, Begins step start before earlier ∧ step before earlier = .inr next := by
  induction hbegins with
  | start => exact absurd hbefore (Nat.not_lt_zero before)
  | @again round state next hbegins hstep ih =>
    rcases Nat.lt_succ_iff_lt_or_eq.mp hbefore with hlt | rfl
    · exact ih hlt
    · exact ⟨state, next, hbegins, hstep⟩

/-- After the rounds that have begun, the loop goes on with the others. -/
theorem Begins.run_eq {round : ℕ} {state : State} (hbegins : Begins step start round state)
    (rounds : ℕ) :
    run step exhausted (round + rounds) 0 start = run step exhausted rounds round state := by
  induction hbegins generalizing rounds with
  | start => rw [Nat.zero_add]
  | @again round state next hbegins hstep ih =>
    rw [Nat.add_right_comm, Nat.add_assoc, ih, run_of_inr hstep]

/-- The loop ends at the first round that ends it. -/
theorem Begins.run_of_inl {round rounds : ℕ} {state : State} {result : Result}
    (hbegins : Begins step start round state) (hround : round < rounds)
    (hstep : step round state = .inl result) :
    run step exhausted rounds 0 start = result := by
  obtain ⟨more, rfl⟩ := Nat.exists_eq_add_of_lt hround
  rw [Nat.add_assoc, hbegins.run_eq]
  exact BoundedRounds.run_of_inl hstep

theorem Begins.run_exhausted {rounds : ℕ} {state : State}
    (hbegins : Begins step start rounds state) :
    run step exhausted rounds 0 start = exhausted state :=
  hbegins.run_eq 0

variable (step start) in
/-- The loop ends in a round or uses the rounds up. -/
theorem ends_or_exhausted (rounds : ℕ) :
    (∃ round < rounds, ∃ state result,
      Begins step start round state ∧ step round state = .inl result) ∨
      ∃ state, Begins step start rounds state := by
  induction rounds with
  | zero => exact Or.inr ⟨start, .start⟩
  | succ rounds ih =>
    rcases ih with ⟨round, hround, hends⟩ | ⟨state, hbegins⟩
    · exact Or.inl ⟨round, Nat.lt_succ_of_lt hround, hends⟩
    · cases hstep : step rounds state with
      | inl result => exact Or.inl ⟨rounds, Nat.lt_succ_self rounds, state, result, hbegins, hstep⟩
      | inr next => exact Or.inr ⟨next, hbegins.again hstep⟩

end EdgeOrchestrator.BoundedRounds

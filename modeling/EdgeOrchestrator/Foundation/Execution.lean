import Mathlib.Data.List.Basic
import Mathlib.Logic.Basic

/-!
# Runs of partial step functions

A system is a function taking a state and a label to the next state, or to `none` when the
label is not enabled. A run is a list of labels that are enabled one after the other. The rules
below carry an invariant along a run, either unconditionally or along the runs all of whose
steps meet a guard, and characterize the runs that keep a property throughout by the guard that
their steps have to meet. A system of several processes keeps them in a table, of which a step
fills one slot.
-/

namespace EdgeOrchestrator.Execution

variable {State Label : Type} (step : State → Label → Option State)

/-- State reached by a list of labels, or `none` when one of them is not enabled. -/
def run (state : State) (labels : List Label) : Option State :=
  labels.foldlM step state

@[simp]
theorem run_nil (state : State) : run step state [] = some state := rfl

theorem run_cons (state : State) (label : Label) (rest : List Label) :
    run step state (label :: rest) = (step state label).bind fun next ↦ run step next rest := rfl

theorem run_append (state : State) (first second : List Label) :
    run step state (first ++ second) =
      (run step state first).bind fun middle ↦ run step middle second := by
  simp only [run, List.foldlM_append, Option.bind_eq_bind]

theorem run_cons_eq_some {state final : State} {label : Label} {rest : List Label} :
    run step state (label :: rest) = some final ↔
      ∃ next, step state label = some next ∧ run step next rest = some final := by
  rw [run_cons, Option.bind_eq_some_iff]

/-- Every step taken along the labels meets the guard in the state it is taken from. -/
def Guarded (guard : State → Label → Prop) : State → List Label → Prop
  | _, [] => True
  | state, label :: rest =>
    ∀ next, step state label = some next → guard state label ∧ Guarded guard next rest

/-- Every state reached along the labels, the first one included, has the property. -/
def Throughout (property : State → Prop) : State → List Label → Prop
  | state, [] => property state
  | state, label :: rest =>
    property state ∧ ∀ next, step state label = some next → Throughout property next rest

variable {step}

theorem guarded_cons_iff {guard : State → Label → Prop} {state next : State} {label : Label}
    {rest : List Label} (hstep : step state label = some next) :
    Guarded step guard state (label :: rest) ↔
      guard state label ∧ Guarded step guard next rest := by
  simp [Guarded, hstep]

theorem guarded_append {guard : State → Label → Prop} {state middle : State}
    {first second : List Label} (hrun : run step state first = some middle) :
    Guarded step guard state (first ++ second) ↔
      Guarded step guard state first ∧ Guarded step guard middle second := by
  induction first generalizing state with
  | nil =>
    obtain rfl : state = middle := by simpa using hrun
    simp [Guarded]
  | cons label rest ih =>
    obtain ⟨next, hstep, hrest⟩ := (run_cons_eq_some step).mp hrun
    simp only [List.cons_append, Guarded]
    constructor
    · intro h
      obtain ⟨hguard, hlater⟩ := h next hstep
      obtain ⟨hfirst, hsecond⟩ := (ih hrest).mp hlater
      refine ⟨fun other hother ↦ ?_, hsecond⟩
      obtain rfl : next = other := by simpa [hstep] using hother
      exact ⟨hguard, hfirst⟩
    · intro h other hother
      obtain rfl : next = other := by simpa [hstep] using hother
      exact ⟨(h.1 next hstep).1, (ih hrest).mpr ⟨(h.1 next hstep).2, h.2⟩⟩

/-- Under an invariant kept by every guarded step, the guard implies what the invariant makes of
it at every step of the run. -/
theorem guarded_of_guarded {guard observed : State → Label → Prop} (invariant : State → Prop)
    (hobserved : ∀ state label next, invariant state → guard state label →
      step state label = some next → observed state label)
    (hkeep : ∀ state label next, invariant state → guard state label →
      step state label = some next → invariant next)
    {state : State} {labels : List Label} (hstart : invariant state)
    (hguarded : Guarded step guard state labels) : Guarded step observed state labels := by
  induction labels generalizing state with
  | nil => trivial
  | cons label rest ih =>
    intro next hstep
    rcases hguarded next hstep with ⟨hguard, hlater⟩
    exact ⟨hobserved state label next hstart hguard hstep,
      ih (hkeep state label next hstart hguard hstep) hlater⟩

/-- An invariant kept by every step holds after every run. -/
theorem invariant_of_run (invariant : State → Prop)
    (hkeep : ∀ state label next, invariant state → step state label = some next → invariant next)
    {state final : State} {labels : List Label} (hstart : invariant state)
    (hrun : run step state labels = some final) : invariant final := by
  induction labels generalizing state with
  | nil =>
    obtain rfl : state = final := by simpa using hrun
    exact hstart
  | cons label rest ih =>
    obtain ⟨next, hstep, hrest⟩ := (run_cons_eq_some step).mp hrun
    exact ih (hkeep state label next hstart hstep) hrest

/-- A property that holds throughout a run holds in the state it starts from. -/
theorem Throughout.head {property : State → Prop} {state : State} {labels : List Label}
    (hproperty : Throughout step property state labels) : property state := by
  cases labels with
  | nil => exact hproperty
  | cons label rest => exact hproperty.1

/-- A property that holds throughout a run holds in the state it ends in. -/
theorem Throughout.final {property : State → Prop} {state final : State} {labels : List Label}
    (hproperty : Throughout step property state labels)
    (hrun : run step state labels = some final) : property final := by
  induction labels generalizing state with
  | nil =>
    obtain rfl : state = final := by simpa using hrun
    exact hproperty
  | cons label rest ih =>
    obtain ⟨next, hstep, hrest⟩ := (run_cons_eq_some step).mp hrun
    exact ih (hproperty.2 next hstep) hrest

/-- What all labels of a run have in common may be added to its guard. -/
theorem Guarded.and_of_forall_mem {guard : State → Label → Prop} {common : Label → Prop}
    {state : State} {labels : List Label} (hguarded : Guarded step guard state labels)
    (hcommon : ∀ label ∈ labels, common label) :
    Guarded step (fun state label ↦ guard state label ∧ common label) state labels := by
  induction labels generalizing state with
  | nil => trivial
  | cons label rest ih =>
    intro next hstep
    have hlater := ih (hguarded next hstep).2 fun other hother ↦
      hcommon other (List.mem_cons_of_mem label hother)
    exact ⟨⟨(hguarded next hstep).1, hcommon label List.mem_cons_self⟩, hlater⟩

/-- Labels that meet the guard in every state make a guarded run. -/
theorem guarded_of_forall_mem {guard : State → Label → Prop} {state : State} {labels : List Label}
    (hall : ∀ state, ∀ label ∈ labels, guard state label) : Guarded step guard state labels := by
  induction labels generalizing state with
  | nil => trivial
  | cons label rest ih =>
    exact fun _ _ ↦ ⟨hall state label List.mem_cons_self,
      ih fun other later hmem ↦ hall other later (List.mem_cons_of_mem label hmem)⟩

/-- A property implied by an invariant that guarded steps keep holds throughout the guarded
runs. -/
theorem throughout_of_guarded {guard : State → Label → Prop} {property : State → Prop}
    (invariant : State → Prop)
    (himplies : ∀ state, invariant state → property state)
    (hkeep : ∀ state label next, invariant state → guard state label →
      step state label = some next → invariant next)
    {state : State} {labels : List Label} (hstart : invariant state)
    (hguarded : Guarded step guard state labels) : Throughout step property state labels := by
  induction labels generalizing state with
  | nil => exact himplies state hstart
  | cons label rest ih =>
    apply And.intro (himplies state hstart)
    intro next hstep
    exact ih (hkeep state label next hstart (hguarded next hstep).1 hstep) (hguarded next hstep).2

/-- An invariant kept by every guarded step holds after every guarded run. -/
theorem invariant_of_guarded {guard : State → Label → Prop} (invariant : State → Prop)
    (hkeep : ∀ state label next, invariant state → guard state label →
      step state label = some next → invariant next)
    {state final : State} {labels : List Label} (hstart : invariant state)
    (hguarded : Guarded step guard state labels) (hrun : run step state labels = some final) :
    invariant final := by
  have hthroughout : Throughout step invariant state labels :=
    throughout_of_guarded invariant (fun _ hstate ↦ hstate) hkeep hstart hguarded
  exact hthroughout.final hrun

/-- What a step shows of itself by the property of the state that it leads to. -/
theorem guarded_of_throughout {guard observed : State → Label → Prop} {property : State → Prop}
    (hexact : ∀ state label next, step state label = some next → guard state label →
      property next → observed state label)
    {state : State} {labels : List Label} (hguarded : Guarded step guard state labels)
    (hproperty : Throughout step property state labels) : Guarded step observed state labels := by
  induction labels generalizing state with
  | nil => trivial
  | cons label rest ih =>
    intro next hstep
    obtain ⟨hguard, hlater⟩ := hguarded next hstep
    have hnext : Throughout step property next rest := hproperty.2 next hstep
    exact ⟨hexact state label next hstep hguard hnext.head, ih hlater hnext⟩

/-- The property holds throughout exactly the guarded runs, when guarded steps keep an invariant
that implies it and every other step breaks it at once. -/
theorem throughout_iff_guarded {guard : State → Label → Prop} {property : State → Prop}
    (invariant : State → Prop)
    (himplies : ∀ state, invariant state → property state)
    (hkeep : ∀ state label next, invariant state → guard state label →
      step state label = some next → invariant next)
    (hexact : ∀ state label next, invariant state → step state label = some next →
      property next → guard state label)
    {state : State} {labels : List Label} (hstart : invariant state) :
    Throughout step property state labels ↔ Guarded step guard state labels := by
  induction labels generalizing state with
  | nil => simpa [Throughout, Guarded] using himplies state hstart
  | cons label rest ih =>
    constructor
    · intro h next hstep
      have hnext : property next := (h.2 next hstep).head
      have hguard := hexact state label next hstart hstep hnext
      exact ⟨hguard, (ih (hkeep state label next hstart hguard hstep)).mp (h.2 next hstep)⟩
    · intro h
      exact throughout_of_guarded invariant himplies hkeep hstart h

/-- A run of steps each of which lightens the state is at most as long as the state is heavy. -/
theorem length_add_le_of_lightening {weight : State → ℕ} {lightening : Label → Prop}
    (invariant : State → Prop)
    (hkeep : ∀ state label next, invariant state → step state label = some next → invariant next)
    (hlighter : ∀ state label next, invariant state → lightening label →
      step state label = some next → weight next < weight state)
    {state final : State} {labels : List Label} (hstart : invariant state)
    (hlightening : ∀ label ∈ labels, lightening label)
    (hrun : run step state labels = some final) : labels.length + weight final ≤ weight state := by
  induction labels generalizing state with
  | nil =>
    obtain rfl : state = final := by simpa using hrun
    simp
  | cons label rest ih =>
    obtain ⟨next, hstep, hrest⟩ := (run_cons_eq_some step).mp hrun
    have hnext := hlighter state label next hstart (hlightening label List.mem_cons_self) hstep
    have hlater := ih (hkeep state label next hstart hstep)
      (fun other hother ↦ hlightening other (List.mem_cons_of_mem label hother)) hrest
    rw [List.length_cons]
    omega

/-- Runs of some of the labels that are bounded in length can be continued until no step with such a
label is enabled any more. -/
theorem exists_run_to_rest {allowed : Label → Prop} {bound : ℕ} {state : State}
    (hbound : ∀ labels final, (∀ label ∈ labels, allowed label) →
      run step state labels = some final → labels.length ≤ bound) :
    ∃ labels final, (∀ label ∈ labels, allowed label) ∧ run step state labels = some final ∧
      ∀ label, allowed label → step final label = none := by
  induction bound generalizing state with
  | zero =>
    refine ⟨[], state, by simp, rfl, fun label hallowed ↦ ?_⟩
    cases hstep : step state label with
    | none => rfl
    | some next =>
      have hlength := hbound [label] next (by simpa using hallowed)
        ((run_cons_eq_some step).mpr ⟨next, hstep, rfl⟩)
      simp at hlength
  | succ bound ih =>
    by_cases hrest : ∀ label, allowed label → step state label = none
    · exact ⟨[], state, by simp, rfl, hrest⟩
    · push Not at hrest
      obtain ⟨label, hallowed, henabled⟩ := hrest
      obtain ⟨next, hstep⟩ := Option.ne_none_iff_exists'.mp henabled
      obtain ⟨labels, final, hlabels, hrun, hfinal⟩ := ih fun labels final hlabels hrun ↦ by
        have hlength := hbound (label :: labels) final (List.forall_mem_cons.mpr ⟨hallowed, hlabels⟩)
          ((run_cons_eq_some step).mpr ⟨next, hstep, hrun⟩)
        exact Nat.le_of_succ_le_succ hlength
      exact ⟨label :: labels, final, List.forall_mem_cons.mpr ⟨hallowed, hlabels⟩,
        (run_cons_eq_some step).mpr ⟨next, hstep, hrun⟩, hfinal⟩

/-- What a table holds after one slot was filled is the new item or was there before. -/
theorem eq_or_of_update_eq_some {Key Item : Type} [DecidableEq Key] {table : Key → Option Item}
    {key other : Key} {item found : Item}
    (hfound : Function.update table key (some item) other = some found) :
    other = key ∧ found = item ∨ table other = some found := by
  by_cases hother : other = key
  · rw [hother, Function.update_self, Option.some.injEq] at hfound
    exact Or.inl ⟨hother, hfound.symm⟩
  · rw [Function.update_of_ne hother] at hfound
    exact Or.inr hfound

/-- What a table holds after one slot was emptied was there before. -/
theorem of_update_none_eq_some {Key Item : Type} [DecidableEq Key] {table : Key → Option Item}
    {key other : Key} {found : Item} (hfound : Function.update table key none other = some found) :
    table other = some found := by
  by_cases hother : other = key
  · rw [hother, Function.update_self] at hfound
    cases hfound
  · rwa [Function.update_of_ne hother] at hfound

end EdgeOrchestrator.Execution

import Mathlib.Data.List.Basic
import Mathlib.Data.List.Nodup

/-!
# Folds that work key by key

Every action has one key. A view of the state is kept for each key, and an action changes the
view of its own key only, by a step that reads nothing else. Along a fold, the view of a key is
then the fold of the actions of that key, so two lists of actions that agree key by key cannot
be told apart.

A map is read in an order of its own choice. A list of actions produced while reading a map, each
for the key it was produced at, has for each key just the actions of one entry.

An action that changes nothing where a property holds can be repeated anywhere among actions that
keep the property.
-/

namespace EdgeOrchestrator.KeyedFold

variable {Key State View Action : Type} [DecidableEq Key]

def actionsOf (target : Action → Key) (key : Key) (actions : List Action) : List Action :=
  actions.filter fun action ↦ target action = key

/-- An action changes the view of its own key by a local step and keeps every other view. -/
structure Local (target : Action → Key) (view : State → Key → View)
    (step : State → Action → State) (localStep : View → Action → View) : Prop where
  own : ∀ state action,
    view (step state action) (target action) = localStep (view state (target action)) action
  other : ∀ state action key, target action ≠ key → view (step state action) key = view state key

section Actions

variable (target : Action → Key) (key : Key)

@[simp]
theorem actionsOf_nil : actionsOf target key [] = [] := rfl

theorem actionsOf_cons_of_target {action : Action} (rest : List Action)
    (htarget : target action = key) :
    actionsOf target key (action :: rest) = action :: actionsOf target key rest :=
  List.filter_cons_of_pos (by simpa using htarget)

theorem actionsOf_cons_of_ne {action : Action} (rest : List Action)
    (htarget : target action ≠ key) :
    actionsOf target key (action :: rest) = actionsOf target key rest :=
  List.filter_cons_of_neg (by simpa using htarget)

theorem actionsOf_append (first second : List Action) :
    actionsOf target key (first ++ second) =
      actionsOf target key first ++ actionsOf target key second :=
  List.filter_append first second

theorem actionsOf_eq_self {actions : List Action}
    (htarget : ∀ action ∈ actions, target action = key) :
    actionsOf target key actions = actions := by
  apply List.filter_eq_self.mpr
  intro action hmem
  simpa using htarget action hmem

theorem actionsOf_eq_nil {actions : List Action}
    (htarget : ∀ action ∈ actions, target action ≠ key) : actionsOf target key actions = [] := by
  apply List.filter_eq_nil_iff.mpr
  intro action hmem
  simpa using htarget action hmem

end Actions

section Views

variable {target : Action → Key} {view : State → Key → View} {step : State → Action → State}
  {localStep : View → Action → View}

/-- The view of a key after a fold is the fold of the actions of that key. -/
theorem Local.view_foldl (hlocal : Local target view step localStep) (key : Key) (state : State)
    (actions : List Action) :
    view (actions.foldl step state) key =
      (actionsOf target key actions).foldl localStep (view state key) := by
  induction actions generalizing state with
  | nil => rfl
  | cons action rest ih =>
    rw [List.foldl_cons, ih]
    by_cases htarget : target action = key
    · rw [actionsOf_cons_of_target target key rest htarget, List.foldl_cons, ← htarget,
        hlocal.own]
    · rw [actionsOf_cons_of_ne target key rest htarget, hlocal.other state action key htarget]

/-- Lists of actions that agree key by key leave the same view of every key. -/
theorem Local.view_foldl_congr (hlocal : Local target view step localStep)
    {first second : List Action}
    (hsame : ∀ key, actionsOf target key first = actionsOf target key second) (state : State)
    (key : Key) : view (first.foldl step state) key = view (second.foldl step state) key := by
  rw [hlocal.view_foldl, hlocal.view_foldl, hsame]

/-- What a local step keeps for its own key, a fold keeps for every key. -/
theorem Local.invariant_foldl (hlocal : Local target view step localStep)
    (invariant : Key → View → Prop)
    (hkeep : ∀ action current, invariant (target action) current →
      invariant (target action) (localStep current action))
    {state : State} (hstart : ∀ key, invariant key (view state key)) (actions : List Action)
    (key : Key) : invariant key (view (actions.foldl step state) key) := by
  induction actions generalizing state with
  | nil => exact hstart key
  | cons action rest ih =>
    apply ih
    intro other
    by_cases htarget : target action = other
    · rw [← htarget, hlocal.own]
      exact hkeep action _ (hstart _)
    · rw [hlocal.other state action other htarget]
      exact hstart other

end Views

section Entries

variable {Value : Type}

/-- Actions produced entry by entry, each for the key of its entry, are for one key the actions of
the one entry that has it. -/
theorem actionsOf_flatMap_of_mem {target : Action → Key} {produce : Key × Value → List Action}
    {entries : List (Key × Value)}
    (htarget : ∀ entry ∈ entries, ∀ action ∈ produce entry, target action = entry.1)
    (hnodup : (entries.map Prod.fst).Nodup)
    {key : Key} {value : Value} (hmem : (key, value) ∈ entries) :
    actionsOf target key (entries.flatMap produce) = produce (key, value) := by
  induction entries with
  | nil => simp at hmem
  | cons entry rest ih =>
    have htargetRest : ∀ other ∈ rest, ∀ action ∈ produce other, target action = other.1 :=
      fun other hother ↦ htarget other (List.mem_cons_of_mem entry hother)
    rw [List.map_cons, List.nodup_cons] at hnodup
    rw [List.flatMap_cons, actionsOf_append]
    rcases List.mem_cons.mp hmem with hhead | htail
    · have hrest : actionsOf target key (rest.flatMap produce) = [] := by
        apply actionsOf_eq_nil
        intro action haction heq
        obtain ⟨other, hother, hproduced⟩ := List.mem_flatMap.mp haction
        apply hnodup.1
        have hkey : entry.1 = other.1 := by
          rw [← htargetRest other hother action hproduced, heq, ← hhead]
        rw [hkey]
        exact List.mem_map_of_mem hother
      rw [hrest, List.append_nil, ← hhead]
      exact actionsOf_eq_self target key (htarget (key, value) hmem)
    · have hhead : actionsOf target key (produce entry) = [] := by
        apply actionsOf_eq_nil
        intro action haction heq
        apply hnodup.1
        rw [← htarget entry List.mem_cons_self action haction, heq]
        exact List.mem_map_of_mem htail
      rw [hhead, List.nil_append]
      exact ih htargetRest hnodup.2 htail

/-- A key without an entry has no actions. -/
theorem actionsOf_flatMap_of_not_mem {target : Action → Key}
    {produce : Key × Value → List Action} {entries : List (Key × Value)}
    (htarget : ∀ entry ∈ entries, ∀ action ∈ produce entry, target action = entry.1)
    {key : Key} (hmem : ∀ value, (key, value) ∉ entries) :
    actionsOf target key (entries.flatMap produce) = [] := by
  apply actionsOf_eq_nil
  intro action haction heq
  obtain ⟨entry, hentry, hproduced⟩ := List.mem_flatMap.mp haction
  apply hmem entry.2
  rw [← heq, htarget entry hentry action hproduced]
  exact hentry

end Entries

section Copies

/-- The second list is the first one with any number of copies of an action put in anywhere. -/
inductive WithCopies (copy : Action) : List Action → List Action → Prop
  | nil : WithCopies copy [] []
  | keep {actions retried : List Action} (action : Action) :
    WithCopies copy actions retried → WithCopies copy (action :: actions) (action :: retried)
  | insert {actions retried : List Action} :
    WithCopies copy actions retried → WithCopies copy actions (copy :: retried)

/-- Copies of an action that changes nothing while a property holds do not change a fold whose
actions keep the property. -/
theorem WithCopies.foldl_eq {step : State → Action → State} {copy : Action}
    {actions retried : List Action} (hcopies : WithCopies copy actions retried)
    (property : State → Prop) (habsorb : ∀ state, property state → step state copy = state)
    (hkeep : ∀ state, ∀ action ∈ actions, property state → property (step state action))
    {state : State} (hstart : property state) :
    retried.foldl step state = actions.foldl step state := by
  induction hcopies generalizing state with
  | nil => rfl
  | keep action hrest ih =>
    rw [List.foldl_cons, List.foldl_cons]
    apply ih
    · intro other kept hmem
      exact hkeep other kept (List.mem_cons_of_mem action hmem)
    · exact hkeep state action List.mem_cons_self hstart
  | insert hrest ih =>
    rw [List.foldl_cons, habsorb state hstart]
    exact ih hkeep hstart

end Copies

end EdgeOrchestrator.KeyedFold

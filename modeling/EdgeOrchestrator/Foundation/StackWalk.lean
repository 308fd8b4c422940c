import Mathlib.Data.List.Basic
import Mathlib.Data.List.Induction

/-!
# Walks on a stack

A walk pushes items on a stack and pops them, and a pop of the empty stack does nothing. What is left
of a walk, whatever stack it starts from, is how many items it pops in all and what it leaves behind:
pops that meet an item the walk has pushed itself cancel with it.
-/

namespace EdgeOrchestrator.StackWalk

variable {Item : Type}

inductive StackMove (Item : Type)
  | push (item : Item)
  | pop

def StackMove.isPop : StackMove Item → Bool
  | .push _ => false
  | .pop => true

/-- A move on a stack that grows at its end. -/
def StackMove.apply (stack : List Item) : StackMove Item → List Item
  | .push item => stack ++ [item]
  | .pop => stack.dropLast

/-- What is left of a walk when its pops have cancelled with its pushes. -/
structure NetWalk (Item : Type) where
  pops : ℕ
  pushed : List Item

namespace NetWalk

def still : NetWalk Item := ⟨0, []⟩

/-- The walk with one move more. -/
def andThen (walk : NetWalk Item) : StackMove Item → NetWalk Item
  | .push item => ⟨walk.pops, walk.pushed ++ [item]⟩
  | .pop =>
    match walk.pushed with
    | [] => ⟨walk.pops + 1, []⟩
    | item :: rest => ⟨walk.pops, (item :: rest).dropLast⟩

def ofMoves (moves : List (StackMove Item)) : NetWalk Item := moves.foldl andThen still

theorem ofMoves_concat (earlier : List (StackMove Item)) (last : StackMove Item) :
    ofMoves (earlier ++ [last]) = (ofMoves earlier).andThen last :=
  List.foldl_concat ..

/-- A walk that pops nothing has popped nothing before its last move. -/
theorem pops_of_andThen {walk : NetWalk Item} {move : StackMove Item}
    (hpops : (walk.andThen move).pops = 0) : walk.pops = 0 := by
  cases move with
  | push item => exact hpops
  | pop =>
    rw [andThen] at hpops
    split at hpops
    · cases hpops
    · exact hpops

/-- A walk that pops nothing has popped nothing at any time. -/
theorem pops_of_append {earlier later : List (StackMove Item)}
    (hpops : (ofMoves (earlier ++ later)).pops = 0) : (ofMoves earlier).pops = 0 := by
  induction later using List.reverseRecOn with
  | nil => rwa [List.append_nil] at hpops
  | append_singleton rest last ih =>
    rw [← List.append_assoc, ofMoves_concat] at hpops
    exact ih (pops_of_andThen hpops)

theorem andThen_pop_concat {walk : NetWalk Item} {items : List Item} {item : Item}
    (hpushed : walk.pushed = items ++ [item]) : walk.andThen .pop = ⟨walk.pops, items⟩ := by
  rw [andThen]
  split
  · rename_i hempty
    rw [hempty] at hpushed
    cases List.append_ne_nil_of_right_ne_nil items (List.cons_ne_nil item []) hpushed.symm
  · rename_i hcons
    rw [← hcons, hpushed, List.dropLast_concat]

theorem ofMoves_push (items : List Item) : ofMoves (items.map StackMove.push) = ⟨0, items⟩ := by
  induction items using List.reverseRecOn with
  | nil => rfl
  | append_singleton earlier last ih =>
    rw [List.map_append, List.map_singleton, ofMoves_concat, ih]
    rfl

end NetWalk

/-- The stack has grown: everything of the old stack is still there, and something lies on it. -/
def Above (stack grown : List Item) : Prop := ∃ more ≠ [], grown = stack ++ more

end EdgeOrchestrator.StackWalk

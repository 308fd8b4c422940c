import Mathlib.Data.List.Basic
import Mathlib.Logic.Function.Basic

/-!
# Sites that replay a shared log

Operations enter a log that all sites share. A site applies the log from its start, some operations
at a time, and may lose its state and start again. What a site holds is then a past state of the
log, whatever order the sites proceed in: sites that are equally far hold the same, and a site that
is ahead holds what the others will hold.
-/

namespace EdgeOrchestrator.SharedLog

variable {Site Operation State : Type} (effect : State → Operation → State) (start : State)

/-- The state after the first operations of a log. -/
def replay (log : List Operation) (count : ℕ) : State :=
  (log.take count).foldl effect start

/-- A longer log has the same past. -/
theorem replay_append {log : List Operation} (more : List Operation) {count : ℕ}
    (hcount : count ≤ log.length) :
    replay effect start (log ++ more) count = replay effect start log count := by
  rw [replay, replay, List.take_append_of_le_length hcount]

/-- The next operations continue from the state before them. -/
theorem replay_add (log : List Operation) (count more : ℕ) :
    replay effect start log (count + more) =
      ((log.drop count).take more).foldl effect (replay effect start log count) := by
  rw [replay, replay, List.take_add, List.foldl_append]

/-- Every site is somewhere in the log and holds the state of that place. -/
structure Replays (log : List Operation) (applied : Site → ℕ) (held : Site → State) : Prop where
  applied_le : ∀ site, applied site ≤ log.length
  held_eq : ∀ site, held site = replay effect start log (applied site)

namespace Replays

variable {effect start} {log : List Operation} {applied : Site → ℕ} {held : Site → State}

/-- Sites that have applied nothing. -/
theorem fresh : Replays effect start [] (fun _ : Site ↦ 0) fun _ ↦ start :=
  ⟨fun _ ↦ Nat.le_refl 0, fun _ ↦ rfl⟩

/-- A new operation at the end of the log moves no site. -/
theorem commit (hreplays : Replays effect start log applied held) (operation : Operation) :
    Replays effect start (log ++ [operation]) applied held where
  applied_le site := by
    rw [List.length_append]
    exact Nat.le_add_right_of_le (hreplays.applied_le site)
  held_eq site := by
    rw [replay_append effect start [operation] (hreplays.applied_le site)]
    exact hreplays.held_eq site

/-- The site that is ahead holds what the other one will hold after the operations between them. -/
theorem held_of_le (hreplays : Replays effect start log applied held) {behind ahead : Site}
    (hle : applied behind ≤ applied ahead) :
    held ahead = ((log.drop (applied behind)).take (applied ahead - applied behind)).foldl effect
      (held behind) := by
  rw [hreplays.held_eq ahead, hreplays.held_eq behind, ← replay_add, Nat.add_sub_cancel' hle]

variable [DecidableEq Site]

/-- A site applies the next operations. -/
theorem advance (hreplays : Replays effect start log applied held) {site : Site}
    {next : List Operation} (hnext : next <+: log.drop (applied site)) :
    Replays effect start log (Function.update applied site (applied site + next.length))
      (Function.update held site (next.foldl effect (held site))) where
  applied_le other := by
    by_cases hother : other = site
    · have hlength := hnext.length_le
      have hle := hreplays.applied_le site
      rw [List.length_drop] at hlength
      rw [hother, Function.update_self]
      omega
    · rw [Function.update_of_ne hother]
      exact hreplays.applied_le other
  held_eq other := by
    by_cases hother : other = site
    · rw [hother, Function.update_self, Function.update_self, replay_add,
        ← List.prefix_iff_eq_take.mp hnext, hreplays.held_eq site]
    · rw [Function.update_of_ne hother, Function.update_of_ne hother]
      exact hreplays.held_eq other

/-- A site loses its state and starts again. -/
theorem restart (hreplays : Replays effect start log applied held) (site : Site) :
    Replays effect start log (Function.update applied site 0)
      (Function.update held site start) where
  applied_le other := by
    by_cases hother : other = site
    · rw [hother, Function.update_self]
      exact Nat.zero_le log.length
    · rw [Function.update_of_ne hother]
      exact hreplays.applied_le other
  held_eq other := by
    by_cases hother : other = site
    · rw [hother, Function.update_self, Function.update_self]
      rfl
    · rw [Function.update_of_ne hother, Function.update_of_ne hother]
      exact hreplays.held_eq other

end Replays

end EdgeOrchestrator.SharedLog

import EdgeOrchestrator.Core.Types

/-!
# Errors and lost calls

The variants of `CoreError` that the modelled functions produce, and the outcome of a Rust call
that may also be lost: it panics, or it reads a file that never ends. Both are kept apart from
errors because no caller recovers from them.
-/

namespace EdgeOrchestrator

inductive CoreError
  | network (message : String)
  | objectNotFound (hash : Hash)
  | hashMismatch (expected computed : Hash)
  | storageIo (message : String)
  | serialization (message : String)
  | invalidState (message : String)
  | sandboxExecution (message : String)
  | configuration (message : String)
  | internal (message : String)
  deriving DecidableEq, Repr

def CoreError.display : CoreError → String
  | .network message => "network error: " ++ message
  | .objectNotFound hash => "object not found: " ++ hash
  | .hashMismatch expected computed =>
    "hash mismatch: expected " ++ expected ++ ", computed " ++ computed
  | .storageIo message => "storage I/O error: " ++ message
  | .serialization message => "serialization error: " ++ message
  | .invalidState message => "invalid state: " ++ message
  | .sandboxExecution message => "sandbox execution error: " ++ message
  | .configuration message => "configuration error: " ++ message
  | .internal message => "internal error: " ++ message

/-- Why a call does not return. -/
inductive Loss
  | panic (message : String)
  | endlessRead
  deriving DecidableEq, Repr

/-- What a call does: return a value, return an error, or never return. -/
inductive Outcome (Error Value : Type)
  | ok (value : Value)
  | err (error : Error)
  | lost (loss : Loss)
  deriving DecidableEq, Repr

/-- The call returns a value or an error. -/
def Outcome.Returns {Error Value : Type} (outcome : Outcome Error Value) : Prop :=
  ∀ loss, outcome ≠ .lost loss

@[simp]
theorem Outcome.returns_ok {Error Value : Type} (value : Value) :
    (.ok value : Outcome Error Value).Returns := by
  intro loss hlost
  cases hlost

@[simp]
theorem Outcome.returns_err {Error Value : Type} (error : Error) :
    (.err error : Outcome Error Value).Returns := by
  intro loss hlost
  cases hlost

end EdgeOrchestrator

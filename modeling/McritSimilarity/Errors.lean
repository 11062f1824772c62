import McritSimilarity.Python.Json

/-!
# Errors

The exceptions the plugin raises or lets pass: its own (`McritError` and its subclasses, with their
messages), the built-in ones, `_Stopped`, and whatever the packages around it raise.
-/

set_option autoImplicit false

namespace McritSimilarity

open Python

/-- `McritError` (`base`) and its subclasses. -/
inductive McritErrorKind where
  | base
  | auth
  | http
  | job
  | unavailable
  | unsupportedArchitecture
  deriving DecidableEq, Repr

inductive PyError where
  | mcrit (kind : McritErrorKind) (message : String)
  /-- `_Stopped`: the session asked to stop. -/
  | stopped
  | builtin (e : BuiltinError)
  | osError
  /-- Anything another package raises. -/
  | other
  deriving DecidableEq, Repr

/-- `raise McritJobError("MCRIT visit cancelled")`. -/
def visitCancelled : PyError := .mcrit .job "MCRIT visit cancelled"

/-- A conversion whose built-in exception is not caught. -/
def uncaught {α : Type} : Except BuiltinError α → Except PyError α
  | .ok a => .ok a
  | .error e => .error (.builtin e)

theorem ok_bind {ε α β : Type} (a : α) (f : α → Except ε β) : (Except.ok a >>= f) = f a := rfl

end McritSimilarity

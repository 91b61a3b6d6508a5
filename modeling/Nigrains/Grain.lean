import Mathlib.Algebra.Order.Ring.Rat

/-!
# Identities, calls and exceptions

The data a call is made of. Objects that the runtime passes along without looking at them
(arguments, results, whatever an application's exception carries) are named by their
identity, `Obj`. Readings of the clock and spans of seconds are rationals.

An exception is one the runtime itself raises or tells apart, or `other`, of which the
runtime can ask only whether it is a `TimeoutError` and whether it is an `Exception`.
-/

namespace Nigrains

/-- A Python object, by its identity. -/
abbrev Obj := ℕ

/-- Seconds, as a reading of a clock or as a span. -/
abbrev Time := ℚ

/-- A node of a fleet. -/
abbrev NodeId := String

/-- An `_Activation`, by the order in which the runtime built them. -/
abbrev ActId := ℕ

/-- A task, by the order in which the loop was given them. -/
abbrev TaskId := ℕ

/-- One execution of `_dispatch_here`. -/
abbrev CallId := ℕ

/-- Which grain, of which kind. -/
structure GrainId where
  type : String
  key : String
deriving DecidableEq, Repr

/-- `__str__` : `type/key`. -/
def GrainId.str (g : GrainId) : String :=
  g.type ++ "/" ++ g.key

/-- The class of an exception that the runtime does not define. -/
structure ExcClass where
  name : String
  /-- A subclass of `TimeoutError`. -/
  isTimeout : Bool
  /-- A subclass of `Exception`, as all are but a few such as `KeyboardInterrupt`. -/
  isException : Bool
  isException_of_isTimeout : isTimeout = true → isException = true
deriving DecidableEq, Repr

/-- An exception object. -/
inductive Exc
  | cancelledError
  /-- What `asyncio.timeout` raises when it has expired. -/
  | timeoutError
  | deadlineExceeded (grain method : String)
  /-- A `DeadlineExceeded` raised `from` another exception. -/
  | deadlineExceededFrom (grain method : String) (cause : Exc)
  | grainNotRegistered (grainType : String)
  | noSuchGrainMethod (grain method : String)
  | keyError (key : GrainId)
  | other (cls : ExcClass) (obj : Obj)
deriving DecidableEq, Repr

namespace Exc

/-- `isinstance(exc, CancelledError)`. -/
def isCancelled : Exc → Bool
  | cancelledError => true
  | _ => false

/-- `isinstance(exc, TimeoutError)`, which a `DeadlineExceeded` is. -/
def isTimeout : Exc → Bool
  | timeoutError => true
  | deadlineExceeded .. => true
  | deadlineExceededFrom .. => true
  | other cls _ => cls.isTimeout
  | _ => false

/-- `isinstance(exc, DeadlineExceeded)`. -/
def isDeadlineExceeded : Exc → Bool
  | deadlineExceeded .. => true
  | deadlineExceededFrom .. => true
  | _ => false

/-- `isinstance(exc, Exception)`, which a `CancelledError` is not. -/
def isException : Exc → Bool
  | cancelledError => false
  | other cls _ => cls.isException
  | _ => true

/-- A `TimeoutError` is an `Exception`. -/
theorem isException_of_isTimeout {e : Exc} (h : e.isTimeout = true) : e.isException = true := by
  cases e with
  | other cls obj => exact cls.isException_of_isTimeout h
  | cancelledError => cases h
  | _ => rfl

end Exc

/-- What a coroutine returns. -/
inductive Ret
  | none
  | obj (v : Obj)
  | activation (a : ActId)
  | count (n : ℕ)
deriving DecidableEq, Repr

/-- How a coroutine ends : it raises, or it returns. -/
abbrev Outcome := Except Exc Ret

instance : DecidableEq Outcome
  | .ok a, .ok b => decidable_of_iff (a = b) (by simp)
  | .error a, .error b => decidable_of_iff (a = b) (by simp)
  | .ok _, .error _ => isFalse (by simp)
  | .error _, .ok _ => isFalse (by simp)

/-- The behaviour of one activation, as far as the runtime reads it. -/
structure Grain where
  id : GrainId
  reentrant : Bool
  persistent : Bool
  /-- The names under which `getattr` finds something callable. -/
  methods : List String
deriving DecidableEq, Repr

/-- One invocation, as data. -/
structure Call where
  grain : GrainId
  method : String
  args : Obj
  kwargs : Obj
  deadline : Option Time
deriving DecidableEq, Repr

/-- `target is None or not callable(target) or method.startswith("_")`, negated. -/
def Grain.answers (grain : Grain) (method : String) : Bool :=
  grain.methods.contains method && !method.startsWith "_"

/-- `deadline(seconds)` : the context's deadline inside the block. -/
def narrowed (current : Option Time) (asked : Time) : Option Time :=
  match current with
  | none => some asked
  | some at_ => some (min asked at_)

end Nigrains

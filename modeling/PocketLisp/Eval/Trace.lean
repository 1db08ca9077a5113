import PocketLisp.Env.Basic

/-!
# Traces

Evaluation yields a result and, on the way, calls native functions. A trace is both: the calls made,
in order, and how it all ended. The calls stay when the evaluation breaks off, because they have
happened. An error value does not end a trace; it is a result, which what follows passes on.
-/

namespace PocketLisp

/-- A call of a native function with its list of arguments. -/
structure Call where
  function : Native
  arguments : Value
  deriving DecidableEq, Repr

/-- What ends an evaluation without a value. -/
inductive Stop where
  /-- A rule of the interpreter was broken. -/
  | violation (v : Violation)
  /-- Evaluations nest beyond the limit. -/
  | tooDeep
  deriving DecidableEq, Repr

/-- The calls that an evaluation makes, and its end. -/
structure Trace (α : Type) where
  calls : List Call
  result : Except Stop α

namespace Trace

variable {α β : Type}

/-- A result reached without any call. -/
@[inline] protected def pure (a : α) : Trace α := ⟨[], .ok a⟩

/-- An end without a value, reached without any call. -/
@[inline] def stop (s : Stop) : Trace α := ⟨[], .error s⟩

/-- Goes on with the result of a trace, if there is one. -/
@[inline] protected def bind (x : Trace α) (f : α → Trace β) : Trace β :=
  match x with
  | ⟨calls, .ok a⟩ =>
    match f a with
    | ⟨more, result⟩ => ⟨calls ++ more, result⟩
  | ⟨calls, .error s⟩ => ⟨calls, .error s⟩

/-- Goes on with a value, unless it is an error value, which is then the result. -/
@[inline] def unlessError (x : Trace Value) (next : Value → Trace Value) : Trace Value :=
  x.bind fun
    | .error message => .pure (.error message)
    | v => next v

/-! ## Laws of going on -/

@[simp] theorem pure_bind (a : α) (f : α → Trace β) : (Trace.pure a).bind f = f a := rfl

@[simp] theorem stop_bind (s : Stop) (f : α → Trace β) : (stop s).bind f = stop s := rfl

end Trace

/-- A way to evaluate a form in an environment. -/
abbrev Evaluator := Env → Value → Trace Value

end PocketLisp

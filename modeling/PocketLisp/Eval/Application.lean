import PocketLisp.Eval.Trace
import PocketLisp.Eval.Builtin

/-!
# Application

An application evaluates its head, then its arguments from left to right, and then applies the one
to the others. The first error value that turns up on the way is the result, and nothing behind it
is evaluated.
-/

namespace PocketLisp

/-- How the host's native functions behave: the function of a number takes a list of arguments to a
value, or breaks off. -/
abbrev Host := Nat → Value → Except Violation Value

/-- A host without functions of its own. -/
def Host.none : Host := fun _ _ => .ok .nil

/-- Calls a native function and records the call. -/
def callNative (host : Host) (f : Native) (arguments : Value) : Trace Value :=
  let answer := match f with
    | .builtin b => b.call arguments
    | .host id _ => host id arguments
  ⟨[⟨f, arguments⟩], answer.mapError .violation⟩

/-- Applies a function to its evaluated arguments. A closure takes as many as it has parameters, and
its body is evaluated where the call is made, behind one frame for the parameters. -/
def applyFunction (host : Host) (eval : Evaluator) (env : Env) (f : Value)
    (arguments : List Value) : Trace Value :=
  match f with
  | .native f => callNative host f (.ofList arguments)
  | .closure params body =>
    if params.length < arguments.length then .pure (.fault .tooManyArguments)
    else if arguments.length < params.length then .pure (.fault .tooFewArguments)
    else eval (env.call params arguments) body
  | other => .stop (.violation (.cannotApply other))

/-- The values of a list of arguments, from left to right; or the message of the error value that
comes instead, which is that of the first argument to fail, or of the end of the list if the list is
improper. -/
def evalArguments (eval : Value → Trace Value) : Value → Trace (Except String (List Value))
  | .nil => .pure (.ok [])
  | .pair first rest =>
    (eval first).bind fun
      | .error message => .pure (.error message)
      | v => (evalArguments eval rest).bind fun
        | .ok vs => .pure (.ok (v :: vs))
        | .error message => .pure (.error message)
  | _ => .pure (.error Fault.notList.message)

/-- Whether a value is a function. -/
def Value.isFunction : Value → Bool
  | native _ => true
  | closure _ _ => true
  | _ => false

/-- An application: the head has to be a function before any argument is evaluated, and the
arguments have to be values before the function is applied. -/
def applyForm (host : Host) (eval : Evaluator) (env : Env) (head arguments : Value) : Trace Value :=
  (eval env head).unlessError fun f =>
    if f.isFunction then
      (evalArguments (eval env) arguments).bind fun
        | .ok vs => applyFunction host eval env f vs
        | .error message => .pure (.error message)
    else .pure (.fault .notFunction)

end PocketLisp

import PocketLisp.Value.Describe

/-!
# Violations

A violation says that the interpreter itself was used against its rules: a host handed it a value
that the language does not know, or a list that is none. Unlike a fault it is no value of the
language, and it ends whatever is going on.
-/

namespace PocketLisp

/-- The ways in which a rule of the interpreter can be broken. -/
inductive Violation where
  /-- A value that the language does not know was to be evaluated. -/
  | cannotEvaluate (v : Value)
  /-- A value that is no function was to be applied. -/
  | cannotApply (v : Value)
  /-- A value that is no symbol was to be bound. -/
  | cannotBind (v : Value)
  /-- A list had to be proper and ends in this value. -/
  | improperTail (v : Value)
  /-- A list of arguments is no list at all. -/
  | argumentsNotPair (v : Value)
  /-- A value of this kind cannot be printed. -/
  | cannotPrint (kind : String)
  /-- A function of the host broke off, for a reason of its own. -/
  | raised (message : String)
  deriving DecidableEq, Repr

/-- The wording of a violation. -/
def Violation.message : Violation → String
  | cannotEvaluate v => "cannot evaluate " ++ v.describe
  | cannotApply v => "cannot apply " ++ v.describe
  | cannotBind v => "cannot bind non-symbol " ++ v.describe
  | improperTail v => "expected a proper list, found tail " ++ v.describe
  | argumentsNotPair v => "argument list is not a pair: " ++ v.describe
  | cannotPrint kind => "unhandled value type " ++ kind
  | raised message => message

/-- The elements of a list that has to be proper. -/
def Value.toList (v : Value) : Except Violation (List Value) :=
  if v.tail = nil then .ok v.elements else .error (.improperTail v.tail)

end PocketLisp

/-!
# Faults

What a program of the language can do wrong. A fault is no failure of the interpreter: it becomes
an error value, which is a value like any other and which every evaluation forwards unchanged.
-/

namespace PocketLisp

/-- The causes of the error values that the language itself makes. -/
inductive Fault where
  /-- A symbol is bound in no frame. -/
  | undefinedSymbol
  /-- The head of an application is no function. -/
  | notFunction
  /-- The argument list of an application ends in something other than the empty list. -/
  | notList
  /-- A special form lacks a part. -/
  | missingPart
  /-- A special form has a part too many. -/
  | extraPart
  /-- A parameter of a lambda form is no symbol. -/
  | notSymbol
  /-- A closure got more arguments than it has parameters. -/
  | tooManyArguments
  /-- A closure got fewer arguments than it has parameters. -/
  | tooFewArguments
  /-- An addition met something other than an integer. -/
  | notInteger
  /-- A list accessor got no argument. -/
  | noArgument
  /-- A list accessor got more than one argument. -/
  | extraArgument
  /-- A list accessor got something other than a pair. -/
  | notPair
  /-- Evaluation nests beyond the limit. -/
  | recursionTooDeep
  /-- A form nests beyond the limit. -/
  | nestingTooDeep
  /-- A closing parenthesis stands where a quoted form should. -/
  | unexpectedClose
  deriving DecidableEq, Repr

/-- The wording of a fault. -/
def Fault.message : Fault → String
  | undefinedSymbol => "undefined symbol"
  | notFunction => "expected function"
  | notList => "expected list"
  | missingPart => "CAR: expected cons"
  | extraPart => "too many args"
  | notSymbol => "expected symbol"
  | tooManyArguments => "too many lambda args"
  | tooFewArguments => "too few lambda args"
  | notInteger => "expected int"
  | noArgument => "expected one argument"
  | extraArgument => "expected only one argument"
  | notPair => "expected cons"
  | recursionTooDeep => "recursion too deep"
  | nestingTooDeep => "nesting too deep"
  | unexpectedClose => "unexpected )"

end PocketLisp

import PocketLisp.Eval.Trace

/-!
# Special forms

A special form does not evaluate all its parts. It is recognised by the symbol at its head, before
anything is looked up, so a binding of that symbol changes nothing. What is wrong with the shape of
the form is found before any part is evaluated.
-/

namespace PocketLisp

/-- The forms that do not evaluate all their parts. -/
inductive SpecialForm where
  | quote
  | conditional
  | lambda
  deriving DecidableEq, Repr

namespace SpecialForm

/-- The name of the symbol at the head of a special form. -/
def keyword : SpecialForm → String
  | quote => "quote"
  | conditional => "if"
  | lambda => "lambda"

/-- All special forms. -/
def all : List SpecialForm := [quote, conditional, lambda]

/-- The special form that a head announces, if these symbols stand for the special forms. -/
def ofHead? (symbolOf : SpecialForm → Symbol) : Value → Option SpecialForm
  | .symbol s => all.find? (symbolOf · = s)
  | _ => none

end SpecialForm

/-- The parameters of a lambda form: a proper list of symbols. The first defect from the left is the
fault. -/
def lambdaParams : Value → Except Fault (List Symbol)
  | .nil => .ok []
  | .pair (.symbol s) rest => (lambdaParams rest).map (s :: ·)
  | .pair _ _ => .error .notSymbol
  | _ => .error .missingPart

/-- The closure of a lambda form, given what follows its head: the parameters and one body. The
parameters are looked at before the body. -/
def lambdaClosure : Value → Except Fault Value
  | .pair params rest =>
    match lambdaParams params, rest with
    | .error fault, _ => .error fault
    | .ok symbols, .pair body .nil => .ok (.closure symbols body)
    | .ok _, .pair _ _ => .error .extraPart
    | .ok _, _ => .error .missingPart
  | _ => .error .missingPart

/-- A conditional, given what follows its head: only the empty list is false, and what comes after
the two branches is ignored. All three parts have to be there before the test is evaluated. -/
def evalConditional (eval : Evaluator) (env : Env) (parts : Value) : Trace Value :=
  match parts.take 3 with
  | .ok [test, consequent, alternative] =>
    (eval env test).unlessError fun
      | .nil => eval env alternative
      | _ => eval env consequent
  | .ok _ => .pure (.fault .missingPart)
  | .error fault => .pure (.fault fault)

/-- The three parts of a conditional are there just if it begins with three pairs. -/
theorem evalConditional_eq (eval : Evaluator) (env : Env) (parts : Value) :
    evalConditional eval env parts =
      match parts with
      | .pair test (.pair consequent (.pair alternative _)) =>
        (eval env test).unlessError fun
          | .nil => eval env alternative
          | _ => eval env consequent
      | _ => .pure (.fault .missingPart) := by
  rw [evalConditional, Value.take_eq]
  by_cases hlength : 3 ≤ parts.elements.length
  · obtain ⟨test, consequent, alternative, rest, rfl⟩ :=
      Value.exists_pairs_of_three_le hlength
    rw [if_pos hlength]
    rfl
  · rw [if_neg hlength]
    dsimp only
    split
    · exact absurd (by simp) hlength
    · rfl

/-- A special form, given what follows its head. Quoting gives just that, and not its first
element. -/
def SpecialForm.run (form : SpecialForm) (eval : Evaluator) (env : Env) (parts : Value) :
    Trace Value :=
  match form with
  | quote => .pure parts
  | conditional => evalConditional eval env parts
  | lambda =>
    match lambdaClosure parts with
    | .ok closure => .pure closure
    | .error fault => .pure (.fault fault)

end PocketLisp

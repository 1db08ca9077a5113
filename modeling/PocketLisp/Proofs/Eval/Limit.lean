import PocketLisp.Eval.Basic

/-!
# More room for nesting

A limit only cuts off: an evaluation that comes to an end below it makes the same calls and has the
same result at every larger one (`evaluate_extends`). The reason is that the rules for one form use
the evaluator of the forms inside it and nothing else, so a better evaluator can change a result
only where the worse one gave up (`evaluateForm_extends`).
-/

namespace PocketLisp

namespace Trace

variable {α β : Type}

theorem bind_of_ok {x : Trace α} {a : α} (h : x.result = .ok a) (f : α → Trace β) :
    x.bind f = ⟨x.calls ++ (f a).calls, (f a).result⟩ := by
  obtain ⟨calls, result⟩ := x
  subst h
  rfl

theorem bind_of_error {x : Trace α} {s : Stop} (h : x.result = .error s) (f : α → Trace β) :
    x.bind f = ⟨x.calls, .error s⟩ := by
  obtain ⟨calls, result⟩ := x
  subst h
  rfl

/-- Unless `x` stops for its depth, `y` is the same. -/
def Extends (x y : Trace α) : Prop := x.result ≠ .error .tooDeep → y = x

theorem Extends.refl (x : Trace α) : x.Extends x := fun _ => rfl

/-- What goes on with more room from a result with more room has more room. -/
theorem Extends.bind {x y : Trace α} {f g : α → Trace β} (hx : x.Extends y)
    (hf : ∀ a, (f a).Extends (g a)) : (x.bind f).Extends (y.bind g) := by
  intro hdeep
  cases hres : x.result with
  | error s =>
    rw [bind_of_error hres] at hdeep ⊢
    have hne : x.result ≠ .error .tooDeep := by
      intro heq
      cases Except.error.inj (hres.symm.trans heq)
      exact hdeep rfl
    rw [hx hne, bind_of_error hres]
  | ok a =>
    rw [bind_of_ok hres] at hdeep ⊢
    have hne : x.result ≠ .error .tooDeep := by rw [hres]; simp
    rw [hx hne, bind_of_ok hres, hf a hdeep]

theorem Extends.unlessError {x y : Trace Value} {f g : Value → Trace Value} (hx : x.Extends y)
    (hf : ∀ v, (f v).Extends (g v)) : (x.unlessError f).Extends (y.unlessError g) := by
  apply hx.bind
  intro v
  cases v with
  | error message => exact .refl _
  | _ => exact hf _

end Trace

/-- Wherever `eval` does not stop for its depth, `eval'` does the same. -/
def Evaluator.Extends (eval eval' : Evaluator) : Prop :=
  ∀ env v, (eval env v).Extends (eval' env v)

section

variable {eval eval' : Evaluator} (h : Evaluator.Extends eval eval')

include h

theorem evalConditional_extends (env : Env) (parts : Value) :
    (evalConditional eval env parts).Extends (evalConditional eval' env parts) := by
  rw [evalConditional_eq, evalConditional_eq]
  split
  · next test consequent alternative _ =>
    apply (h env test).unlessError
    intro v
    cases v with
    | nil => exact h env alternative
    | _ => exact h env consequent
  · exact .refl _

theorem evalArguments_extends (env : Env) (arguments : Value) :
    (evalArguments (eval env) arguments).Extends (evalArguments (eval' env) arguments) := by
  induction arguments with
  | pair first rest _ ih =>
    apply (h env first).bind
    intro v
    cases v with
    | error message => exact .refl _
    | _ => exact ih.bind fun _ => .refl _
  | _ => exact .refl _

theorem applyFunction_extends (host : Host) (env : Env) (f : Value) (arguments : List Value) :
    (applyFunction host eval env f arguments).Extends
      (applyFunction host eval' env f arguments) := by
  unfold applyFunction
  split
  · exact .refl _
  · next params body =>
    split
    · exact .refl _
    · split
      · exact .refl _
      · exact h _ body
  · exact .refl _

theorem applyForm_extends (host : Host) (env : Env) (head arguments : Value) :
    (applyForm host eval env head arguments).Extends
      (applyForm host eval' env head arguments) := by
  unfold applyForm
  apply (h env head).unlessError
  intro f
  by_cases hf : f.isFunction = true
  · rw [if_pos hf, if_pos hf]
    apply (evalArguments_extends h env arguments).bind
    intro vs
    cases vs with
    | ok vs => exact applyFunction_extends h host env f vs
    | error message => exact .refl _
  · rw [if_neg hf, if_neg hf]
    exact .refl _

theorem evaluateForm_extends (basis : Basis) (env : Env) (v : Value) :
    (evaluateForm basis eval env v).Extends (evaluateForm basis eval' env v) := by
  cases v with
  | pair head rest =>
    simp only [evaluateForm]
    cases SpecialForm.ofHead? basis.keyword head with
    | none => exact applyForm_extends h basis.host env head rest
    | some form =>
      cases form with
      | conditional => exact evalConditional_extends h env rest
      | quote => exact .refl _
      | lambda => exact .refl _
  | _ => exact .refl _

end

/-- Raising the limit changes no result that was reached. -/
theorem evaluate_extends (basis : Basis) {limit limit' : Nat} (h : limit ≤ limit') :
    Evaluator.Extends (evaluate basis limit) (evaluate basis limit') := by
  induction limit generalizing limit' with
  | zero =>
    intro env v hdeep
    exact absurd rfl hdeep
  | succ limit ih =>
    intro env v
    obtain ⟨limit', rfl⟩ : ∃ n, limit' = n + 1 := ⟨limit' - 1, by omega⟩
    exact evaluateForm_extends (ih (by omega)) basis env v

end PocketLisp

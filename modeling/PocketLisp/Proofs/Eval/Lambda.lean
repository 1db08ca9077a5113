import PocketLisp.Proofs.Eval.Soundness

/-!
# Lambda forms and what can be wrong with them

A lambda form is in order if its head is followed by a proper list of symbols, by one body and by
nothing else. Any other form has a first defect: its parts are missing, or the walk along the
parameters meets something it cannot go on with, or, behind parameters that are in order, there is
no body or more than one (`LambdaDefect`).

Every form is in order or has a defect (`inOrder_or_defect`), and that alone decides what a lambda
form gives (`lambda_by_first_defect`).
-/

namespace PocketLisp

/-- The first thing wrong with a lambda form, given what follows its head, and how it is reported.
The parameters come before the body, and are walked from the left. -/
inductive LambdaDefect : Value → String → Prop where
  | noParts {parts : Value} (hparts : parts.isPair = false) :
      LambdaDefect parts "CAR: expected cons"
  /-- A parameter with only symbols in front of it is itself no symbol. -/
  | notSymbol {symbols : List Symbol} {x rest bodies : Value} (hx : x.isSymbol = false) :
      LambdaDefect (.pair (.chain (symbols.map .symbol) (.pair x rest)) bodies) "expected symbol"
  /-- The parameters are symbols, but what ends them is not the empty list. -/
  | notList {symbols : List Symbol} {tail bodies : Value} (htail : tail ≠ .nil)
      (hpair : tail.isPair = false) :
      LambdaDefect (.pair (.chain (symbols.map .symbol) tail) bodies) "CAR: expected cons"
  | noBody {symbols : List Symbol} {bodies : Value} (hbodies : bodies.isPair = false) :
      LambdaDefect (.pair (.ofList (symbols.map .symbol)) bodies) "CAR: expected cons"
  | extra {symbols : List Symbol} {body rest : Value} (hrest : rest ≠ .nil) :
      LambdaDefect (.pair (.ofList (symbols.map .symbol)) (.pair body rest)) "too many args"

/-! ## Each form is in order or has a defect -/

theorem inOrder_or_defect (parts : Value) :
    (∃ (params : List Symbol) (body : Value),
        parts = .pair (.ofList (params.map .symbol)) (.pair body .nil)) ∨
      ∃ message, LambdaDefect parts message := by
  cases parts with
  | pair spec bodies =>
    obtain ⟨symbols, tail, rfl, rfl | ⟨hpair, htail⟩ | ⟨x, rest, rfl, hx⟩⟩ :=
      exists_eq_chain_symbols spec
    · -- Nothing is wrong with the parameters, so the bodies decide.
      rw [← Value.ofList]
      cases bodies with
      | pair body rest =>
        by_cases hrest : rest = .nil
        · exact .inl ⟨symbols, body, by rw [hrest]⟩
        · exact .inr ⟨_, .extra hrest⟩
      | _ => exact .inr ⟨_, .noBody rfl⟩
    · exact .inr ⟨_, .notList htail hpair⟩
    · exact .inr ⟨_, .notSymbol hx⟩
  | _ => exact .inr ⟨_, .noParts rfl⟩

/-! ## What a lambda form gives -/

theorem Trace.pure_inj {α : Type} {a b : α} : Trace.pure a = Trace.pure b ↔ a = b := by
  simp [Trace.pure]

variable (eval : Evaluator) (env : Env)

theorem lambda_run_inOrder (params : List Symbol) (body : Value) :
    SpecialForm.lambda.run eval env (.pair (.ofList (params.map .symbol)) (.pair body .nil)) =
      .pure (.closure params body) := by
  have hclosure : lambdaClosure (.pair (.ofList (params.map .symbol)) (.pair body .nil)) =
      .ok (.closure params body) := lambdaClosure_ofList params body
  rw [SpecialForm.run, hclosure]

theorem LambdaDefect.run_eq {parts : Value} {message : String} (h : LambdaDefect parts message) :
    SpecialForm.lambda.run eval env parts = .pure (.error message) := by
  rw [SpecialForm.run]
  cases h with
  | noParts hparts =>
    rw [lambdaClosure_of_missing hparts]
    rfl
  | notSymbol hx =>
    rw [lambdaClosure_of_not_symbol hx]
    rfl
  | notList htail hpair =>
    rw [lambdaClosure_of_not_list htail hpair]
    rfl
  | noBody hbodies =>
    rw [lambdaClosure_of_no_body hbodies]
    rfl
  | extra hrest =>
    rw [lambdaClosure_of_extra hrest]
    rfl

/-- **The first defect of a lambda form decides.** A lambda form gives the function of the
parameters `params` and the body `body` just if what follows its head is the proper list of the
symbols `params`, the form `body` and nothing else. It gives the error value of a message just if it
has the defect that is reported so: in the walk along the parameters, or else in the bodies. And
every form, whatever its structure, is in order or has a defect. So nothing else is ever given,
nothing is evaluated on the way, and no form has two defects that are reported differently. -/
theorem lambda_by_first_defect (parts : Value) :
    (∀ (params : List Symbol) (body : Value),
      SpecialForm.lambda.run eval env parts = .pure (.closure params body) ↔
        parts = .pair (.ofList (params.map .symbol)) (.pair body .nil)) ∧
    (∀ message, SpecialForm.lambda.run eval env parts = .pure (.error message) ↔
      LambdaDefect parts message) ∧
    ((∃ (params : List Symbol) (body : Value),
        parts = .pair (.ofList (params.map .symbol)) (.pair body .nil)) ∨
      ∃ message, LambdaDefect parts message) := by
  refine ⟨?_, ?_, inOrder_or_defect parts⟩
  · intro params body
    constructor
    · intro hrun
      obtain ⟨params', body', rfl⟩ | ⟨message, hdefect⟩ := inOrder_or_defect parts
      · rw [lambda_run_inOrder, Trace.pure_inj] at hrun
        cases hrun
        rfl
      · rw [hdefect.run_eq, Trace.pure_inj] at hrun
        cases hrun
    · rintro rfl
      exact lambda_run_inOrder eval env params body
  · intro message
    constructor
    · intro hrun
      obtain ⟨params, body, rfl⟩ | ⟨message', hdefect⟩ := inOrder_or_defect parts
      · rw [lambda_run_inOrder, Trace.pure_inj] at hrun
        cases hrun
      · rw [hdefect.run_eq, Trace.pure_inj] at hrun
        cases hrun
        exact hdefect
    · exact fun hdefect => hdefect.run_eq eval env

end PocketLisp

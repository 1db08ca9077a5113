import PocketLisp.Interpreter
import PocketLisp.Proofs.Eval.Soundness

/-!
# Whatever the rules give is reached

A derivation nests only so deep, so its outcome is reached at some limit (`Evaluates.reached`). The
parts of a form may need limits of their own; the largest serves them all, because more room changes
nothing. Together with soundness this makes evaluation and the rules the same
(`evaluates_iff_evaluate`), and where no rule applies the evaluation stops for its depth at every
limit.
-/

namespace PocketLisp

theorem Trace.Ends.of_extends {α : Type} {x y : Trace α} {outcome : Except Violation α}
    {calls : List Call} (h : x.Ends outcome calls) (hxy : x.Extends y) : y.Ends outcome calls := by
  have hne : x.result ≠ .error .tooDeep := by
    rw [show x = _ from h]
    intro hdeep
    cases outcome <;> cases hdeep
  rw [hxy hne]
  exact h

section

variable {basis : Basis} {env : Env}

theorem evaluateForm_application (eval : Evaluator) {head : Value}
    (hkeyword : head ∉ basis.heads) (arguments : Value) :
    evaluateForm basis eval env (.pair head arguments) =
      applyForm basis.host eval env head arguments := by
  simp only [evaluateForm, SpecialForm.ofHead?_eq_none_iff.2 hkeyword]

theorem evalConditional_of_missing (eval : Evaluator) {parts : Value}
    (hparts : parts.elements.length < 3) :
    (evalConditional eval env parts).Ends (.ok (.fault .missingPart)) [] := by
  rw [evalConditional_eq]
  split
  · simp only [Value.elements_pair, List.length_cons] at hparts
    omega
  · rfl

theorem evalConditional_of_true {eval : Evaluator} {test consequent alternative rest v : Value}
    {outcome : Except Violation Value} {calls more : List Call}
    (htest : (eval env test).Ends (.ok v) calls) (hv : v ≠ .nil) (herror : v.isError = false)
    (hbranch : (eval env consequent).Ends outcome more) :
    (evalConditional eval env (.chain [test, consequent, alternative] rest)).Ends outcome
      (calls ++ more) := by
  refine htest.unlessError herror ?_
  cases v with
  | nil => exact absurd rfl hv
  | _ => exact hbranch

theorem evalArguments_of_not_list (eval : Value → Trace Value) {tail : Value}
    (htail : tail ≠ .nil) (hpair : tail.isPair = false) :
    evalArguments eval tail = .pure (.error Fault.notList.message) := by
  cases tail with
  | nil => exact absurd rfl htail
  | pair first rest => cases hpair
  | _ => rfl

/-- With the first argument a value, the others decide. -/
theorem evalArguments_pair_ends {eval : Value → Trace Value} {first rest v : Value}
    {result : Except Violation (Except String (List Value))} {calls more : List Call}
    (hfirst : (eval first).Ends (.ok v) calls) (herror : v.isError = false)
    (hrest : (evalArguments eval rest).Ends result more) :
    (evalArguments eval (.pair first rest)).Ends (result.map (·.map (v :: ·))) (calls ++ more) := by
  apply hfirst.bind
  cases v with
  | error message => cases herror
  | _ =>
    rcases result with violation | (message | vs)
    · exact hrest.bind_violation _
    · exact hrest.bind_of_pure rfl
    · exact hrest.bind_of_pure rfl

theorem applyForm_of_not_function {eval : Evaluator} {head arguments f : Value}
    {calls : List Call} (hhead : (eval env head).Ends (.ok f) calls) (herror : f.isError = false)
    (hf : f.isFunction = false) :
    (applyForm basis.host eval env head arguments).Ends (.ok (.fault .notFunction)) calls := by
  apply hhead.bind_of_pure
  cases f with
  | error message => cases herror
  | native f => cases hf
  | closure params body => cases hf
  | _ => rfl

theorem Value.isError_of_isFunction {f : Value} (hf : f.isFunction = true) : f.isError = false := by
  cases f with
  | error message => cases hf
  | _ => rfl

end

section

variable {basis : Basis} {m n : Nat} {env : Env} {calls : List Call}

theorem evaluate_ends_mono {e : Value} {outcome : Except Violation Value}
    (h : (evaluate basis m env e).Ends outcome calls) (hmn : m ≤ n) :
    (evaluate basis n env e).Ends outcome calls :=
  h.of_extends (evaluate_extends basis hmn env e)

theorem evalArguments_ends_mono {arguments : Value}
    {outcome : Except Violation (Except String (List Value))}
    (h : (evalArguments (evaluate basis m env) arguments).Ends outcome calls) (hmn : m ≤ n) :
    (evalArguments (evaluate basis n env) arguments).Ends outcome calls :=
  h.of_extends (evalArguments_extends (evaluate_extends basis hmn) env arguments)

theorem applyFunction_ends_mono {f : Value} {vs : List Value} {outcome : Except Violation Value}
    (h : (applyFunction basis.host (evaluate basis m) env f vs).Ends outcome calls) (hmn : m ≤ n) :
    (applyFunction basis.host (evaluate basis n) env f vs).Ends outcome calls :=
  h.of_extends (applyFunction_extends (evaluate_extends basis hmn) basis.host env f vs)

theorem evaluate_lambda_of_ok {parts closure : Value} (h : lambdaClosure parts = .ok closure) :
    (evaluate basis 1 env (.pair (basis.head .lambda) parts)).Ends (.ok closure) [] := by
  rw [evaluate, evaluateForm_head, SpecialForm.run, h]
  rfl

theorem evaluate_lambda_of_error {parts : Value} {fault : Fault}
    (h : lambdaClosure parts = .error fault) :
    (evaluate basis 1 env (.pair (basis.head .lambda) parts)).Ends (.ok (.fault fault)) [] := by
  rw [evaluate, evaluateForm_head, SpecialForm.run, h]
  rfl

end

section

variable {basis : Basis}

mutual

/-- Whatever the rules give a form is its result at some limit. -/
theorem Evaluates.reached {env : Env} {e : Value} {outcome : Except Violation Value}
    {calls : List Call} (h : Evaluates basis env e outcome calls) :
    ∃ limit, (evaluate basis limit env e).Ends outcome calls := by
  -- The induction is on the derivation. Where a rule has several premises, their limits are raised
  -- to the largest before the parts are put together.
  match h with
  | .nil => exact ⟨1, rfl⟩
  | .int => exact ⟨1, rfl⟩
  | .native => exact ⟨1, rfl⟩
  | .closure => exact ⟨1, rfl⟩
  | .error => exact ⟨1, rfl⟩
  | .foreign => exact ⟨1, rfl⟩
  | .symbolNil => exact ⟨1, Trace.pure_ends_iff.2 ⟨by rw [evalSymbol_nil], rfl⟩⟩
  | .symbolTrue => exact ⟨1, Trace.pure_ends_iff.2 ⟨by rw [evalSymbol_t], rfl⟩⟩
  | .bound hnil htrue hlookup =>
    refine ⟨1, Trace.pure_ends_iff.2 ⟨?_, rfl⟩⟩
    rw [evalSymbol, if_neg hnil, if_neg htrue, hlookup]
    rfl
  | .unbound hnil htrue hlookup =>
    refine ⟨1, Trace.pure_ends_iff.2 ⟨?_, rfl⟩⟩
    rw [evalSymbol, if_neg hnil, if_neg htrue, hlookup]
    rfl
  | .quote =>
    refine ⟨1, ?_⟩
    rw [evaluate, evaluateForm_head]
    rfl
  | .ifMissing hparts =>
    refine ⟨1, ?_⟩
    rw [evaluate, evaluateForm_head]
    exact evalConditional_of_missing _ hparts
  | .ifViolation htest =>
    obtain ⟨limit, htest⟩ := htest.reached
    refine ⟨limit + 1, ?_⟩
    rw [evaluate, evaluateForm_head]
    exact htest.bind_violation _
  | .ifError htest =>
    obtain ⟨limit, htest⟩ := htest.reached
    refine ⟨limit + 1, ?_⟩
    rw [evaluate, evaluateForm_head]
    exact htest.unlessError_error _
  | .ifFalse htest hbranch =>
    obtain ⟨m, htest⟩ := htest.reached
    obtain ⟨n, hbranch⟩ := hbranch.reached
    refine ⟨max m n + 1, ?_⟩
    rw [evaluate, evaluateForm_head]
    exact (evaluate_ends_mono htest (Nat.le_max_left m n)).unlessError rfl
      (evaluate_ends_mono hbranch (Nat.le_max_right m n))
  | .ifTrue htest hv herror hbranch =>
    obtain ⟨m, htest⟩ := htest.reached
    obtain ⟨n, hbranch⟩ := hbranch.reached
    refine ⟨max m n + 1, ?_⟩
    rw [evaluate, evaluateForm_head, SpecialForm.run]
    exact evalConditional_of_true (evaluate_ends_mono htest (Nat.le_max_left m n)) hv herror
      (evaluate_ends_mono hbranch (Nat.le_max_right m n))
  | .lambda => exact ⟨1, evaluate_lambda_of_ok (lambdaClosure_ofList _ _)⟩
  | .lambdaMissing hparts => exact ⟨1, evaluate_lambda_of_error (lambdaClosure_of_missing hparts)⟩
  | .lambdaNotSymbol hv =>
    exact ⟨1, evaluate_lambda_of_error (lambdaClosure_of_not_symbol hv _ _ _)⟩
  | .lambdaNotList htail hpair =>
    exact ⟨1, evaluate_lambda_of_error (lambdaClosure_of_not_list htail hpair _ _)⟩
  | .lambdaNoBody hbodies =>
    exact ⟨1, evaluate_lambda_of_error (lambdaClosure_of_no_body hbodies _)⟩
  | .lambdaExtra hrest => exact ⟨1, evaluate_lambda_of_error (lambdaClosure_of_extra hrest _ _)⟩
  | .headViolation hkeyword hhead =>
    obtain ⟨limit, hhead⟩ := hhead.reached
    refine ⟨limit + 1, ?_⟩
    rw [evaluate, evaluateForm_application _ hkeyword]
    exact hhead.bind_violation _
  | .headError hkeyword hhead =>
    obtain ⟨limit, hhead⟩ := hhead.reached
    refine ⟨limit + 1, ?_⟩
    rw [evaluate, evaluateForm_application _ hkeyword]
    exact hhead.unlessError_error _
  | .headNotFunction hkeyword hhead herror hf =>
    obtain ⟨limit, hhead⟩ := hhead.reached
    refine ⟨limit + 1, ?_⟩
    rw [evaluate, evaluateForm_application _ hkeyword]
    exact applyForm_of_not_function hhead herror hf
  | .argumentsViolation hkeyword hhead hf harguments =>
    obtain ⟨m, hhead⟩ := hhead.reached
    obtain ⟨n, harguments⟩ := harguments.reached
    refine ⟨max m n + 1, ?_⟩
    rw [evaluate, evaluateForm_application _ hkeyword]
    apply (evaluate_ends_mono hhead (Nat.le_max_left m n)).unlessError
      (Value.isError_of_isFunction hf)
    rw [if_pos hf]
    exact (evalArguments_ends_mono harguments (Nat.le_max_right m n)).bind_violation _
  | .argumentsError hkeyword hhead hf harguments =>
    obtain ⟨m, hhead⟩ := hhead.reached
    obtain ⟨n, harguments⟩ := harguments.reached
    refine ⟨max m n + 1, ?_⟩
    rw [evaluate, evaluateForm_application _ hkeyword]
    apply (evaluate_ends_mono hhead (Nat.le_max_left m n)).unlessError
      (Value.isError_of_isFunction hf)
    rw [if_pos hf]
    exact (evalArguments_ends_mono harguments (Nat.le_max_right m n)).bind_of_pure rfl
  | .application hkeyword hhead hf harguments happly =>
    obtain ⟨m, hhead⟩ := hhead.reached
    obtain ⟨n, harguments⟩ := harguments.reached
    obtain ⟨k, happly⟩ := happly.reached
    refine ⟨max m (max n k) + 1, ?_⟩
    rw [evaluate, evaluateForm_application _ hkeyword]
    apply (evaluate_ends_mono hhead (by omega)).unlessError (Value.isError_of_isFunction hf)
    rw [if_pos hf]
    exact (evalArguments_ends_mono harguments (by omega)).bind
      (applyFunction_ends_mono happly (by omega))

theorem EvaluatesArguments.reached {env : Env} {arguments : Value}
    {outcome : Except Violation (Except String (List Value))} {calls : List Call}
    (h : EvaluatesArguments basis env arguments outcome calls) :
    ∃ limit, (evalArguments (evaluate basis limit env) arguments).Ends outcome calls := by
  match h with
  | .nil => exact ⟨0, rfl⟩
  | .notList htail hpair =>
    refine ⟨0, ?_⟩
    rw [evalArguments_of_not_list _ htail hpair]
    rfl
  | .firstViolation hfirst =>
    obtain ⟨limit, hfirst⟩ := hfirst.reached
    exact ⟨limit, hfirst.bind_violation _⟩
  | .firstError hfirst =>
    obtain ⟨limit, hfirst⟩ := hfirst.reached
    exact ⟨limit, hfirst.bind_of_pure rfl⟩
  | .restViolation hfirst herror hrest =>
    obtain ⟨m, hfirst⟩ := hfirst.reached
    obtain ⟨n, hrest⟩ := hrest.reached
    exact ⟨max m n, evalArguments_pair_ends (evaluate_ends_mono hfirst (Nat.le_max_left m n)) herror
      (evalArguments_ends_mono hrest (Nat.le_max_right m n))⟩
  | .restError hfirst herror hrest =>
    obtain ⟨m, hfirst⟩ := hfirst.reached
    obtain ⟨n, hrest⟩ := hrest.reached
    exact ⟨max m n, evalArguments_pair_ends (evaluate_ends_mono hfirst (Nat.le_max_left m n)) herror
      (evalArguments_ends_mono hrest (Nat.le_max_right m n))⟩
  | .cons hfirst herror hrest =>
    obtain ⟨m, hfirst⟩ := hfirst.reached
    obtain ⟨n, hrest⟩ := hrest.reached
    exact ⟨max m n, evalArguments_pair_ends (evaluate_ends_mono hfirst (Nat.le_max_left m n)) herror
      (evalArguments_ends_mono hrest (Nat.le_max_right m n))⟩

theorem Applies.reached {env : Env} {f : Value} {vs : List Value}
    {outcome : Except Violation Value} {calls : List Call}
    (h : Applies basis env f vs outcome calls) :
    ∃ limit, (applyFunction basis.host (evaluate basis limit) env f vs).Ends outcome calls := by
  match h with
  | .builtin => exact ⟨0, rfl⟩
  | .host => exact ⟨0, rfl⟩
  | .tooMany hlength =>
    refine ⟨0, ?_⟩
    rw [applyFunction, if_pos hlength]
    rfl
  | .tooFew hlength =>
    refine ⟨0, ?_⟩
    rw [applyFunction, if_neg (by omega), if_pos hlength]
    rfl
  | .body hlength hbody =>
    obtain ⟨limit, hbody⟩ := hbody.reached
    refine ⟨limit, ?_⟩
    rw [applyFunction, if_neg (by omega), if_neg (by omega)]
    exact hbody

end

end

/-! ## Evaluation and the rules -/

/-- The rules give the form no outcome. -/
def Diverges (basis : Basis) (env : Env) (e : Value) : Prop :=
  ∀ outcome calls, ¬ Evaluates basis env e outcome calls

/-- A trace either stops for its depth or ends. -/
theorem Trace.exists_ends {α : Type} {x : Trace α} (h : x.result ≠ .error .tooDeep) :
    ∃ outcome calls, x.Ends outcome calls := by
  obtain ⟨calls, result⟩ := x
  cases result with
  | ok a => exact ⟨.ok a, calls, rfl⟩
  | error s =>
    cases s with
    | violation v => exact ⟨.error v, calls, rfl⟩
    | tooDeep => exact absurd rfl h

theorem Diverges.tooDeep {basis : Basis} {env : Env} {e : Value} (h : Diverges basis env e)
    (limit : Nat) : (evaluate basis limit env e).result = .error .tooDeep := by
  by_cases hdeep : (evaluate basis limit env e).result = .error .tooDeep
  · exact hdeep
  · obtain ⟨outcome, calls, hends⟩ := Trace.exists_ends hdeep
    exact absurd (evaluate_sound basis limit env e outcome calls hends) (h outcome calls)

theorem diverges_of_tooDeep {basis : Basis} {env : Env} {e : Value}
    (h : ∀ limit, (evaluate basis limit env e).result = .error .tooDeep) :
    Diverges basis env e := by
  intro outcome calls heval
  obtain ⟨limit, hends⟩ := heval.reached
  have hdeep := h limit
  rw [show evaluate basis limit env e = _ from hends] at hdeep
  cases outcome <;> cases hdeep

/-- The application of `f` to itself. -/
def selfApplication : Value := .ofList [.sym "f", .sym "f"]

/-- The function that applies its argument to itself. -/
def selfApplier : Value := .ofList [.sym "lambda", .ofList [.sym "f"], selfApplication]

theorem selfApplication_tooDeep (basis : Basis) (limit : Nat) {env : Env}
    (h : env.lookup (.first "f") = some (.closure [.first "f"] selfApplication)) :
    (evaluate basis limit env selfApplication).result = .error .tooDeep := by
  have hkeyword : Value.sym "f" ∉ basis.heads :=
    basis.symbol_not_mem_heads fun form => by cases form <;> decide
  induction limit generalizing env with
  | zero => rfl
  | succ limit ih =>
    cases limit with
    | zero =>
      rw [evaluate, selfApplication, Value.ofList, Value.chain_cons,
        evaluateForm_application _ hkeyword]
      rfl
    | succ limit =>
      have hf : evaluate basis (limit + 1) env (.sym "f") =
          .pure (.closure [.first "f"] selfApplication) := by
        show Trace.pure (evalSymbol basis env (.first "f")) = _
        rw [evalSymbol_of_name basis env (by decide) (by decide), h]
        rfl
      have hcall : evaluate basis (limit + 2) env selfApplication =
          evaluate basis (limit + 1)
            (env.call [.first "f"] [.closure [.first "f"] selfApplication])
            selfApplication := by
        show evaluateForm basis (evaluate basis (limit + 1)) env
          (.pair (.sym "f") (.pair (.sym "f") .nil)) = _
        rw [evaluateForm_application _ hkeyword, applyForm, Trace.unlessError, hf, Trace.pure_bind]
        show (evalArguments _ _).bind _ = _
        rw [evalArguments, hf, Trace.pure_bind]
        rfl
      -- The body is the same application, one frame further in.
      rw [hcall]
      exact ih rfl

/-- A form has an outcome by the rules, and makes calls, just if it has them at some limit. A form
without one stops for its depth at every limit; at the top level that is an error value. -/
theorem evaluates_iff_evaluate (basis : Basis) (env : Env) (e : Value) :
    (∀ outcome calls, Evaluates basis env e outcome calls ↔
      ∃ limit, evaluate basis limit env e = ⟨calls, outcome.mapError .violation⟩) ∧
    (Diverges basis env e ↔
      ∀ limit, (evaluate basis limit env e).result = .error .tooDeep) ∧
    ∀ i : Interpreter, Diverges i.basis i.env e →
      ∀ limit, (i.evalForm limit e).2 = .ok (.error "recursion too deep") := by
  refine ⟨?_, ?_, ?_⟩
  · intro outcome calls
    constructor
    · intro h
      exact h.reached
    · rintro ⟨limit, h⟩
      exact evaluate_sound basis limit env e outcome calls h
  · exact ⟨Diverges.tooDeep, diverges_of_tooDeep⟩
  · intro i h limit
    rw [Interpreter.evalForm, h.tooDeep limit]
    rfl

/-- A function that applies its argument to itself, applied to itself, never comes to an end. -/
theorem evaluates_iff_evaluate_self_application :
    let i := Interpreter.new ∅ Host.none
    Diverges i.basis i.env (.ofList [selfApplier, selfApplier]) ∧
    ∀ limit, (i.evalForm limit (.ofList [selfApplier, selfApplier])).2 =
      .ok (.error "recursion too deep") := by
  intro i
  obtain ⟨-, hdiverges, hform⟩ :=
    evaluates_iff_evaluate i.basis i.env (.ofList [selfApplier, selfApplier])
  have h : Diverges i.basis i.env (.ofList [selfApplier, selfApplier]) := by
    apply hdiverges.2
    intro limit
    have hbasis : i.basis = .new ∅ .none := Interpreter.basis_new ∅ .none
    rw [hbasis]
    match limit with
    | 0 => rfl
    | 1 => rfl
    | limit + 2 => exact selfApplication_tooDeep (.new ∅ .none) (limit + 1) rfl
  exact ⟨h, hform i h⟩

end PocketLisp

import Mathlib.Data.Set.Basic
import PocketLisp.Proofs.Eval.Limit

/-!
# Only the meaning of symbols in reach counts

Closures capture nothing, so a body may ask for any symbol, and what it gets is whatever the chain
of frames says where the call is made. What an evaluation can ask for is bounded all the same: if
all symbols of a form belong to a set, and so do those of the values that the symbols of the set
mean, then no other symbol ever turns up. Two environments in which the symbols of the set mean the
same are then as good as one (`evaluate_eq_of_agreeOn`), whatever their frames look like and
whatever else they bind.

The relation that carries the proof is `Env.AgreeOn`. A call puts equal frames in front of both
chains, and that keeps it (`Env.AgreeOn.call`), because arguments are values among the same symbols.
-/

namespace PocketLisp

/-- All symbols in the value belong to `S`, those in pairs and those among the parameters and in the
bodies of closures included; and all native functions in it are builtins. -/
def Value.Within (S : Set Symbol) : Value → Prop
  | symbol s => s ∈ S
  | pair first rest => first.Within S ∧ rest.Within S
  | closure params body => (∀ s ∈ params, s ∈ S) ∧ body.Within S
  | native (.host _ _) => False
  | _ => True

instance Value.decidableWithin (S : Set Symbol) [DecidablePred (· ∈ S)] :
    (v : Value) → Decidable (v.Within S)
  | symbol s => inferInstanceAs (Decidable (s ∈ S))
  | pair first rest =>
    have := decidableWithin S first
    have := decidableWithin S rest
    inferInstanceAs (Decidable (first.Within S ∧ rest.Within S))
  | closure params body =>
    have := decidableWithin S body
    inferInstanceAs (Decidable ((∀ s ∈ params, s ∈ S) ∧ body.Within S))
  | native (.host _ _) => isFalse id
  | native (.builtin _) => isTrue trivial
  | nil => isTrue trivial
  | int _ => isTrue trivial
  | error _ => isTrue trivial
  | foreign _ => isTrue trivial

/-- The symbols of `S` mean the same in both environments, and what they mean is within `S`. -/
structure Env.AgreeOn (S : Set Symbol) (env env' : Env) : Prop where
  lookup_eq : ∀ s ∈ S, env.lookup s = env'.lookup s
  within : ∀ s ∈ S, ∀ v, env.lookup s = some v → v.Within S

variable {S : Set Symbol} {env env' : Env}

theorem Env.AgreeOn.call (h : env.AgreeOn S env') (params : List Symbol) {vs : List Value}
    (hvs : ∀ v ∈ vs, v.Within S) : (env.call params vs).AgreeOn S (env'.call params vs) where
  lookup_eq := by
    intro s hs
    simp only [Env.call, Env.lookup_cons, h.lookup_eq s hs]
  within := by
    intro s hs v hv
    rcases Env.lookup_call hv with hv | hv
    · exact hvs v hv
    · exact h.within s hs v hv

theorem Value.ofList_within {vs : List Value} (hvs : ∀ v ∈ vs, v.Within S) :
    (ofList vs).Within S := by
  induction vs with
  | nil => exact trivial
  | cons v vs ih =>
    refine ⟨hvs v List.mem_cons_self, ih ?_⟩
    intro w hw
    exact hvs w (List.mem_cons_of_mem v hw)

/-! ## Equal traces with good results -/

namespace Trace

variable {α β : Type}

/-- The two traces are one, and its result, if there is one, is good. -/
structure Same (Good : α → Prop) (x y : Trace α) : Prop where
  eq : x = y
  good : ∀ a, x.result = .ok a → Good a

theorem same_pure {Good : α → Prop} {a : α} (h : Good a) :
    (Trace.pure a).Same Good (Trace.pure a) where
  eq := rfl
  good _ heq := Except.ok.inj heq ▸ h

theorem same_stop {Good : α → Prop} (s : Stop) : (stop s : Trace α).Same Good (stop s) where
  eq := rfl
  good := nofun

theorem Same.bind {Good : α → Prop} {Fine : β → Prop} {x y : Trace α} {f g : α → Trace β}
    (hx : x.Same Good y) (hf : ∀ a, Good a → (f a).Same Fine (g a)) :
    (x.bind f).Same Fine (y.bind g) := by
  obtain ⟨rfl, hgood⟩ := hx
  cases hres : x.result with
  | error s =>
    rw [bind_of_error hres, bind_of_error hres]
    exact ⟨rfl, nofun⟩
  | ok a =>
    have ha := hf a (hgood a hres)
    rw [bind_of_ok hres, bind_of_ok hres, ← ha.eq]
    exact ⟨rfl, ha.good⟩

theorem Same.unlessError {x y : Trace Value} {f g : Value → Trace Value}
    (hx : x.Same (Value.Within S) y)
    (hf : ∀ v, v.Within S → (f v).Same (Value.Within S) (g v)) :
    (x.unlessError f).Same (Value.Within S) (y.unlessError g) := by
  apply hx.bind
  intro v hv
  cases v with
  | error message => exact same_pure trivial
  | _ => exact hf _ hv

end Trace

/-! ## Evaluation in two environments -/

/-- In environments that agree on `S`, forms within `S` are evaluated alike, to values
within `S`. -/
def Evaluator.Coincides (S : Set Symbol) (eval : Evaluator) : Prop :=
  ∀ env env' e, env.AgreeOn S env' → e.Within S →
    (eval env e).Same (Value.Within S) (eval env' e)

theorem Env.AgreeOn.evalSymbol (basis : Basis) (h : env.AgreeOn S env') {s : Symbol}
    (hs : s ∈ S) :
    evalSymbol basis env s = evalSymbol basis env' s ∧ (evalSymbol basis env s).Within S := by
  unfold PocketLisp.evalSymbol
  rw [← h.lookup_eq s hs]
  refine ⟨rfl, ?_⟩
  split
  · exact trivial
  · split
    · exact hs
    · cases hlookup : env.lookup s with
      | none => exact trivial
      | some v => exact h.within s hs v hlookup

theorem lambdaParams_within {params : Value} {symbols : List Symbol} (hparams : params.Within S)
    (h : lambdaParams params = .ok symbols) : ∀ s ∈ symbols, s ∈ S := by
  fun_induction lambdaParams params generalizing symbols with
  | case1 =>
    cases h
    exact List.forall_mem_nil _
  | case2 s rest ih =>
    cases hrest : lambdaParams rest with
    | error fault => simp [hrest, Except.map] at h
    | ok symbols' =>
      simp only [hrest, Except.map, Except.ok.injEq] at h
      subst h
      exact List.forall_mem_cons.2 ⟨hparams.1, ih hparams.2 hrest⟩
  | case3 => cases h
  | case4 => cases h

theorem lambdaClosure_within {parts closure : Value} (hparts : parts.Within S)
    (h : lambdaClosure parts = .ok closure) : closure.Within S := by
  unfold lambdaClosure at h
  split at h
  · split at h
    · cases h
    · next hparams =>
      cases h
      exact ⟨lambdaParams_within hparts.1 hparams, hparts.2.1⟩
    · cases h
    · cases h
  · cases h

/-- What a builtin makes of arguments within `S` is within `S`. -/
theorem Builtin.call_within {b : Builtin} {vs : List Value} {v : Value}
    (hvs : ∀ v ∈ vs, v.Within S) (h : b.call (.ofList vs) = .ok v) : v.Within S := by
  rcases call_eq_ok h with ⟨n, rfl⟩ | ⟨f, rfl⟩ | ⟨first, rest, harguments, hv⟩
  · exact trivial
  · exact trivial
  · have hall := Value.ofList_within hvs
    rw [harguments] at hall
    rcases hv with rfl | rfl
    · exact hall.1.1
    · exact hall.1.2

section

variable {eval : Evaluator} (hcoin : eval.Coincides S) (h : env.AgreeOn S env')

include hcoin h

theorem evalConditional_same {parts : Value} (hparts : parts.Within S) :
    (evalConditional eval env parts).Same (Value.Within S) (evalConditional eval env' parts) := by
  rw [evalConditional_eq, evalConditional_eq]
  split
  · next test consequent alternative rest =>
    obtain ⟨htest, hconsequent, halternative, -⟩ := hparts
    apply (hcoin env env' test h htest).unlessError
    intro v _
    cases v with
    | nil => exact hcoin env env' alternative h halternative
    | _ => exact hcoin env env' consequent h hconsequent
  · exact Trace.same_pure trivial

theorem evalArguments_same {arguments : Value} (harguments : arguments.Within S) :
    (evalArguments (eval env) arguments).Same
      (fun vs => ∀ values, vs = .ok values → ∀ v ∈ values, v.Within S)
      (evalArguments (eval env') arguments) := by
  induction arguments with
  | nil =>
    apply Trace.same_pure
    intro values heq
    cases heq
    exact List.forall_mem_nil _
  | pair first rest _ ih =>
    refine (hcoin env env' first h harguments.1).bind ?_
    intro v hv
    cases v with
    | error message => exact Trace.same_pure nofun
    | _ =>
      refine (ih harguments.2).bind ?_
      intro vs hvs
      cases vs with
      | error message => exact Trace.same_pure nofun
      | ok vs =>
        apply Trace.same_pure
        intro values heq
        cases heq
        exact List.forall_mem_cons.2 ⟨hv, hvs vs rfl⟩
  | _ => exact Trace.same_pure nofun

theorem applyFunction_same (host : Host) {f : Value} (hf : f.Within S) {vs : List Value}
    (hvs : ∀ v ∈ vs, v.Within S) :
    (applyFunction host eval env f vs).Same (Value.Within S)
      (applyFunction host eval env' f vs) := by
  cases f with
  | native f =>
    refine ⟨rfl, ?_⟩
    intro v hv
    cases f with
    | builtin b =>
      have hanswer : (b.call (.ofList vs)).mapError Stop.violation = .ok v := hv
      cases hcall : b.call (.ofList vs) with
      | error violation => simp [hcall, Except.mapError] at hanswer
      | ok w =>
        simp only [hcall, Except.mapError, Except.ok.injEq] at hanswer
        subst hanswer
        exact Builtin.call_within hvs hcall
    | host id name => exact hf.elim
  | closure params body =>
    -- The arguments are within `S`, so the frames of the call keep the environments in agreement.
    simp only [applyFunction]
    split
    · exact Trace.same_pure trivial
    · split
      · exact Trace.same_pure trivial
      · exact hcoin _ _ body (h.call params hvs) hf.2
  | _ => exact Trace.same_stop _

theorem applyForm_same (host : Host) {head arguments : Value} (hhead : head.Within S)
    (harguments : arguments.Within S) :
    (applyForm host eval env head arguments).Same (Value.Within S)
      (applyForm host eval env' head arguments) := by
  apply (hcoin env env' head h hhead).unlessError
  intro f hf
  by_cases hfunction : f.isFunction = true
  · rw [if_pos hfunction, if_pos hfunction]
    apply (evalArguments_same hcoin h harguments).bind
    intro vs hvs
    cases vs with
    | ok vs => exact applyFunction_same hcoin h host hf (hvs vs rfl)
    | error message => exact Trace.same_pure trivial
  · rw [if_neg hfunction, if_neg hfunction]
    exact Trace.same_pure trivial

theorem SpecialForm.run_same (form : SpecialForm) {parts : Value} (hparts : parts.Within S) :
    (form.run eval env parts).Same (Value.Within S) (form.run eval env' parts) := by
  cases form with
  | quote => exact Trace.same_pure hparts
  | conditional => exact evalConditional_same hcoin h hparts
  | lambda =>
    simp only [SpecialForm.run]
    split
    · next hclosure => exact Trace.same_pure (lambdaClosure_within hparts hclosure)
    · exact Trace.same_pure trivial

omit h in
theorem evaluateForm_coincides (basis : Basis) :
    Evaluator.Coincides S (evaluateForm basis eval) := by
  intro env env' e h he
  cases e with
  | symbol s =>
    obtain ⟨heq, hwithin⟩ := h.evalSymbol basis he
    simp only [evaluateForm, ← heq]
    exact Trace.same_pure hwithin
  | pair head rest =>
    simp only [evaluateForm]
    split
    · exact SpecialForm.run_same hcoin h _ he.2
    · exact applyForm_same hcoin h basis.host he.1 he.2
  | foreign object => exact Trace.same_stop _
  | _ => exact Trace.same_pure he

end

theorem evaluate_coincides (basis : Basis) (limit : Nat) :
    Evaluator.Coincides S (evaluate basis limit) := by
  induction limit with
  | zero =>
    intro env env' e _ _
    exact Trace.same_stop .tooDeep
  | succ limit ih => exact evaluateForm_coincides ih basis

/-- **Coincidence.** Let all symbols of a form belong to `S`, and let the symbols of `S` mean the
same in two environments, namely values among symbols of `S` again, with no native functions but
builtins. Then at every limit the form has the same outcome in both, be it a value, an error value,
a violation or a stop for the depth, and makes the same calls; and a value that comes of it is again
among symbols of `S`. -/
theorem evaluate_eq_of_agreeOn (basis : Basis) (limit : Nat) {S : Set Symbol} {env env' : Env}
    {e : Value} (h : env.AgreeOn S env') (he : e.Within S) :
    evaluate basis limit env e = evaluate basis limit env' e ∧
      ∀ v, (evaluate basis limit env e).result = .ok v → v.Within S :=
  ⟨(evaluate_coincides basis limit env env' e h he).eq,
    (evaluate_coincides basis limit env env' e h he).good⟩

/-- `((lambda (x) (f 1)) 5)`, where `f` adds its argument to whatever `x` is at the call: three
frames, one of them hiding a binding of `x`, against a single one that binds a name out of reach. -/
theorem evaluate_eq_of_agreeOn_hidden_binding :
    let basis := Basis.new ∅ .none
    let x := Symbol.first "x"
    let y := Symbol.first "y"
    let f := Symbol.first "f"
    let plus := Symbol.first "+"
    let S : Set Symbol := {s | s ∈ [x, y, f, plus, .first "lambda"]}
    let addX : Value := .closure [y] (.ofList [.symbol plus, .symbol x, .symbol y])
    let form : Value := .ofList
      [.ofList [.sym "lambda", .ofList [.symbol x], .ofList [.symbol f, .int 1]], .int 5]
    let env : Env := [[(x, .int 9)], [(f, addX), (x, .int 2)], .builtins .first]
    let env' : Env :=
      [[(.first "z", .sym "z"), (plus, .native (.builtin .add)), (f, addX), (x, .int 9)]]
    env.AgreeOn S env' ∧ form.Within S ∧
      evaluate basis 4 env form = evaluate basis 4 env' form ∧
      (evaluate basis 4 env form).result = .ok (.int 6) := by
  intro basis x y f plus S addX form env env'
  have hagree : env.AgreeOn S env' := by
    constructor
    · show ∀ s ∈ [x, y, f, plus, .first "lambda"], env.lookup s = env'.lookup s
      decide
    · show ∀ s ∈ [x, y, f, plus, .first "lambda"], ∀ v ∈ env.lookup s, v.Within S
      decide
  have hform : form.Within S := by decide
  exact ⟨hagree, hform, (evaluate_eq_of_agreeOn basis 4 hagree hform).1, rfl⟩

end PocketLisp

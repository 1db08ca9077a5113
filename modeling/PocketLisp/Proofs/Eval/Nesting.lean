import PocketLisp.Proofs.Eval.Completeness

/-!
# Evaluations inside evaluations

Evaluating a form takes the evaluation of other forms: of the test of a conditional and then of one
branch, of a head, of arguments as long as those before them have given values, of the body of a
closure. `Demands` says which evaluations one form takes by itself, and `Nested` which ones happen
anywhere inside, each with the limit that is left for it.

An evaluation that stops, for whatever reason, stops all evaluations around it there and then
(`Nested.stops`): no surrounding form goes on with anything in its place, and no call is made after
it. And the depth is met only where an evaluation is begun with nothing left of the limit
(`tooDeep_iff_nested`).
-/

namespace PocketLisp

namespace Trace

variable {α β : Type}

/-- The trace stops for this reason, and the calls are the last it makes. -/
structure StopsAfter (x : Trace α) (s : Stop) (calls : List Call) : Prop where
  result : x.result = .error s
  last : calls <:+ x.calls

theorem StopsAfter.bind {x : Trace α} {s : Stop} {calls : List Call} (h : x.StopsAfter s calls)
    (f : α → Trace β) : (x.bind f).StopsAfter s calls := by
  rw [bind_of_error h.result]
  exact ⟨rfl, h.last⟩

theorem StopsAfter.bind_of_ok {x : Trace α} {f : α → Trace β} {a : α} {s : Stop}
    {calls : List Call} (hx : x.result = .ok a) (h : (f a).StopsAfter s calls) :
    (x.bind f).StopsAfter s calls := by
  rw [Trace.bind_of_ok hx]
  exact ⟨h.result, h.last.trans (List.suffix_append _ _)⟩

theorem StopsAfter.unlessError_of_ok {x : Trace Value} {f : Value → Trace Value} {v : Value}
    {s : Stop} {calls : List Call} (hx : x.result = .ok v) (herror : v.isError = false)
    (h : (f v).StopsAfter s calls) : (x.unlessError f).StopsAfter s calls := by
  apply StopsAfter.bind_of_ok hx
  cases v with
  | error message => cases herror
  | _ => exact h

/-- What goes on has stopped in its first part, or after it. -/
theorem bind_stopped {x : Trace α} {f : α → Trace β} {s : Stop}
    (h : (x.bind f).result = .error s) :
    x.result = .error s ∨ ∃ a, x.result = .ok a ∧ (f a).result = .error s := by
  cases hres : x.result with
  | error s' =>
    rw [bind_of_error hres] at h
    cases h
    exact .inl rfl
  | ok a =>
    rw [bind_of_ok hres] at h
    exact .inr ⟨a, rfl, h⟩

theorem unlessError_stopped {x : Trace Value} {f : Value → Trace Value} {s : Stop}
    (h : (x.unlessError f).result = .error s) :
    x.result = .error s ∨
      ∃ v, x.result = .ok v ∧ v.isError = false ∧ (f v).result = .error s := by
  rcases bind_stopped h with h | ⟨v, hx, hf⟩
  · exact .inl h
  · cases v with
    | error message => cases hf
    | _ => exact .inr ⟨_, hx, rfl, hf⟩

end Trace

/-! ## Which evaluations a form takes -/

/-- Among the arguments, this one is evaluated: all before it have values that are no errors. -/
inductive DemandsArgument (eval : Value → Trace Value) : Value → Value → Prop where
  | first {first rest : Value} : DemandsArgument eval (.pair first rest) first
  | later {first rest v argument : Value} (hfirst : (eval first).result = .ok v)
      (herror : v.isError = false) (hrest : DemandsArgument eval rest argument) :
      DemandsArgument eval (.pair first rest) argument

theorem DemandsArgument.mem_of_ofList {eval : Value → Trace Value} {arguments : List Value}
    {argument : Value} (h : DemandsArgument eval (.ofList arguments) argument) :
    argument ∈ arguments := by
  induction arguments with
  | nil => cases h
  | cons first rest ih =>
    cases h with
    | first => exact List.mem_cons_self
    | later _ _ hrest => exact List.mem_cons_of_mem first (ih hrest)

/-- Where `eval` evaluates the forms inside, the form `e` in `env` takes the evaluation of `e'` in
`env'`. -/
inductive Demands (basis : Basis) (eval : Evaluator) (env : Env) :
    (e : Value) → (env' : Env) → (e' : Value) → Prop where
  | test {test consequent alternative rest : Value} :
      Demands basis eval env
        (.pair (basis.head .conditional) (.chain [test, consequent, alternative] rest)) env test
  | alternative {test consequent alternative rest : Value}
      (htest : (eval env test).result = .ok .nil) :
      Demands basis eval env
        (.pair (basis.head .conditional) (.chain [test, consequent, alternative] rest)) env
        alternative
  | consequent {test consequent alternative rest v : Value}
      (htest : (eval env test).result = .ok v) (hv : v ≠ .nil) (herror : v.isError = false) :
      Demands basis eval env
        (.pair (basis.head .conditional) (.chain [test, consequent, alternative] rest)) env
        consequent
  | head {head arguments : Value} (hkeyword : head ∉ basis.heads) :
      Demands basis eval env (.pair head arguments) env head
  | argument {head arguments f argument : Value} (hkeyword : head ∉ basis.heads)
      (hhead : (eval env head).result = .ok f) (hf : f.isFunction = true)
      (hargument : DemandsArgument (eval env) arguments argument) :
      Demands basis eval env (.pair head arguments) env argument
  | body {head arguments body : Value} {params : List Symbol} {vs : List Value}
      (hkeyword : head ∉ basis.heads)
      (hhead : (eval env head).result = .ok (.closure params body))
      (harguments : (evalArguments (eval env) arguments).result = .ok (.ok vs))
      (hlength : vs.length = params.length) :
      Demands basis eval env (.pair head arguments) (env.call params vs) body

/-- Anywhere inside the evaluation of `e` in `env` at `limit`, itself included, `e'` is evaluated in
`env'` at `limit'`. -/
inductive Nested (basis : Basis) :
    (limit : Nat) → (env : Env) → (e : Value) → (limit' : Nat) → (env' : Env) → (e' : Value) → Prop
    where
  | self {limit : Nat} {env : Env} {e : Value} : Nested basis limit env e limit env e
  | inside {limit limit' : Nat} {env env₁ env' : Env} {e e₁ e' : Value}
      (h : Demands basis (evaluate basis limit) env e env₁ e₁)
      (hrest : Nested basis limit env₁ e₁ limit' env' e') :
      Nested basis (limit + 1) env e limit' env' e'

section

variable {basis : Basis} {eval : Evaluator} {env env' : Env} {e' : Value}

/-- An application takes the evaluation of its head; of arguments, once the head is a function; and
of the body of that function, once all arguments have values and are as many as they should be. -/
theorem Demands.application_cases {head arguments : Value} (hkeyword : head ∉ basis.heads)
    (h : Demands basis eval env (.pair head arguments) env' e') :
    (env' = env ∧ e' = head) ∨
    (∃ f, (eval env head).result = .ok f ∧ f.isFunction = true ∧ env' = env ∧
      DemandsArgument (eval env) arguments e') ∨
    ∃ params vs, (eval env head).result = .ok (.closure params e') ∧
      (evalArguments (eval env) arguments).result = .ok (.ok vs) ∧ vs.length = params.length ∧
      env' = env.call params vs := by
  cases h with
  | test => simp [Basis.heads] at hkeyword
  | alternative htest => simp [Basis.heads] at hkeyword
  | consequent htest hv herror => simp [Basis.heads] at hkeyword
  | head _ => exact .inl ⟨rfl, rfl⟩
  | argument _ hhead hf hargument => exact .inr (.inl ⟨_, hhead, hf, rfl, hargument⟩)
  | body _ hhead harguments hlength =>
    exact .inr (.inr ⟨_, _, hhead, harguments, hlength, rfl⟩)

/-- A conditional takes the evaluation of its test, and of another part only if that gives a value
which is no error. -/
theorem Demands.conditional_cases {test consequent alternative rest : Value}
    (h : Demands basis eval env
      (.pair (basis.head .conditional) (.chain [test, consequent, alternative] rest)) env' e') :
    (env' = env ∧ e' = test) ∨ ∃ v, (eval env test).result = .ok v ∧ v.isError = false := by
  cases h with
  | test => exact .inl ⟨rfl, rfl⟩
  | alternative htest => exact .inr ⟨.nil, htest, rfl⟩
  | consequent htest hv herror => exact .inr ⟨_, htest, herror⟩
  | head hkeyword => simp [Basis.heads] at hkeyword
  | argument hkeyword hhead hf hargument => simp [Basis.heads] at hkeyword
  | body hkeyword hhead harguments hlength => simp [Basis.heads] at hkeyword

end

/-! ## A stop inside is a stop -/

section

variable {basis : Basis} {eval : Evaluator} {env env' : Env} {e e' : Value} {s : Stop}
  {calls : List Call}

theorem DemandsArgument.stops {evalOne : Value → Trace Value} {arguments argument : Value}
    (h : DemandsArgument evalOne arguments argument)
    (hstop : (evalOne argument).StopsAfter s calls) :
    (evalArguments evalOne arguments).StopsAfter s calls := by
  induction h with
  | first => exact hstop.bind _
  | @later first rest v argument hfirst herror _ ih =>
    apply Trace.StopsAfter.bind_of_ok hfirst
    cases v with
    | error message => cases herror
    | _ => exact (ih hstop).bind _

/-- After a head that is a function, what stops the arguments or the call stops the application. -/
theorem applyForm_stops {head arguments f : Value} (hhead : (eval env head).result = .ok f)
    (hf : f.isFunction = true)
    (hstop : ((evalArguments (eval env) arguments).bind fun
      | .ok vs => applyFunction basis.host eval env f vs
      | .error message => .pure (.error message)).StopsAfter s calls) :
    (applyForm basis.host eval env head arguments).StopsAfter s calls := by
  apply Trace.StopsAfter.unlessError_of_ok hhead (Value.isError_of_isFunction hf)
  rw [if_pos hf]
  exact hstop

theorem applyFunction_closure {params : List Symbol} {body : Value} {vs : List Value}
    (hlength : vs.length = params.length) :
    applyFunction basis.host eval env (.closure params body) vs =
      eval (env.call params vs) body := by
  rw [applyFunction, if_neg (by omega), if_neg (by omega)]

theorem Demands.stops (h : Demands basis eval env e env' e')
    (hstop : (eval env' e').StopsAfter s calls) :
    (evaluateForm basis eval env e).StopsAfter s calls := by
  cases h with
  | test =>
    rw [evaluateForm_head, SpecialForm.run]
    exact hstop.bind _
  | alternative htest =>
    rw [evaluateForm_head, SpecialForm.run]
    exact Trace.StopsAfter.unlessError_of_ok htest rfl hstop
  | @consequent _ _ _ _ v htest hv herror =>
    rw [evaluateForm_head, SpecialForm.run]
    apply Trace.StopsAfter.unlessError_of_ok htest herror
    cases v with
    | nil => exact absurd rfl hv
    | _ => exact hstop
  | head hkeyword =>
    rw [evaluateForm_application eval hkeyword]
    exact hstop.bind _
  | argument hkeyword hhead hf hargument =>
    rw [evaluateForm_application eval hkeyword]
    exact applyForm_stops hhead hf ((hargument.stops hstop).bind _)
  | @body _ _ _ params vs hkeyword hhead harguments hlength =>
    rw [evaluateForm_application eval hkeyword]
    apply applyForm_stops hhead rfl
    apply Trace.StopsAfter.bind_of_ok harguments
    show (applyFunction basis.host eval env (.closure params e') vs).StopsAfter s calls
    rw [applyFunction_closure hlength]
    exact hstop

/-- A nested evaluation that stops is the last thing that happens. -/
theorem Nested.stops {limit limit' : Nat} (h : Nested basis limit env e limit' env' e')
    (hstop : (evaluate basis limit' env' e').StopsAfter s calls) :
    (evaluate basis limit env e).StopsAfter s calls := by
  induction h with
  | self => exact hstop
  | inside h _ ih => exact h.stops (ih hstop)

end

/-! ## Where the depth is met -/

section

variable {basis : Basis} {eval : Evaluator} {env : Env}

theorem demandsArgument_of_tooDeep {evalOne : Value → Trace Value} {arguments : Value}
    (h : (evalArguments evalOne arguments).result = .error .tooDeep) :
    ∃ argument, DemandsArgument evalOne arguments argument ∧
      (evalOne argument).result = .error .tooDeep := by
  induction arguments with
  | pair first rest _ ih =>
    rcases Trace.bind_stopped h with h | ⟨v, hfirst, hrest⟩
    · exact ⟨first, .first, h⟩
    · cases v with
      | error message => cases hrest
      | _ =>
        -- The first argument has a value, so the depth was met in the others.
        rcases Trace.bind_stopped hrest with hrest | ⟨vs, -, hlast⟩
        · obtain ⟨argument, hdemands, hdeep⟩ := ih hrest
          exact ⟨argument, .later hfirst rfl hdemands, hdeep⟩
        · cases vs <;> cases hlast
  | _ => cases h

/-- Native functions do not nest evaluations, so a call meets the depth only in a body. -/
theorem closure_of_tooDeep {f : Value} {vs : List Value}
    (h : (applyFunction basis.host eval env f vs).result = .error .tooDeep) :
    ∃ params body, f = .closure params body ∧ vs.length = params.length ∧
      (eval (env.call params vs) body).result = .error .tooDeep := by
  cases f with
  | native f =>
    have hanswer : ∀ answer : Except Violation Value,
        answer.mapError Stop.violation ≠ .error .tooDeep := by
      intro answer heq
      cases answer <;> cases heq
    exact absurd h (hanswer _)
  | closure params body =>
    simp only [applyFunction] at h
    split at h
    · cases h
    · split at h
      · cases h
      · exact ⟨params, body, rfl, by omega, h⟩
  | _ => cases h

theorem conditional_of_tooDeep {parts : Value}
    (h : (evalConditional eval env parts).result = .error .tooDeep) :
    ∃ env' e', Demands basis eval env (.pair (basis.head .conditional) parts) env' e' ∧
      (eval env' e').result = .error .tooDeep := by
  rw [evalConditional_eq] at h
  split at h
  · next test consequent alternative rest =>
    rcases Trace.unlessError_stopped h with h | ⟨v, htest, herror, hbranch⟩
    · exact ⟨env, test, .test, h⟩
    · by_cases hv : v = .nil
      · subst hv
        exact ⟨env, alternative, .alternative htest, hbranch⟩
      · refine ⟨env, consequent, .consequent htest hv herror, ?_⟩
        cases v with
        | nil => exact absurd rfl hv
        | _ => exact hbranch
  · cases h

theorem application_of_tooDeep {head arguments : Value} (hkeyword : head ∉ basis.heads)
    (h : (applyForm basis.host eval env head arguments).result = .error .tooDeep) :
    ∃ env' e', Demands basis eval env (.pair head arguments) env' e' ∧
      (eval env' e').result = .error .tooDeep := by
  rcases Trace.unlessError_stopped h with h | ⟨f, hhead, -, happly⟩
  · exact ⟨env, head, .head hkeyword, h⟩
  · split at happly
    · next hf =>
      rcases Trace.bind_stopped happly with happly | ⟨vs, harguments, hcall⟩
      · obtain ⟨argument, hdemands, hdeep⟩ := demandsArgument_of_tooDeep happly
        exact ⟨env, argument, .argument hkeyword hhead hf hdemands, hdeep⟩
      · cases vs with
        | error message => cases hcall
        | ok vs =>
          obtain ⟨params, body, rfl, hlength, hdeep⟩ := closure_of_tooDeep hcall
          exact ⟨_, body, .body hkeyword hhead harguments hlength, hdeep⟩
    · cases happly

/-- A form that meets the depth meets it in one of the evaluations it takes. -/
theorem demands_of_tooDeep {e : Value}
    (h : (evaluateForm basis eval env e).result = .error .tooDeep) :
    ∃ env' e', Demands basis eval env e env' e' ∧ (eval env' e').result = .error .tooDeep := by
  cases e with
  | pair head rest =>
    by_cases hkeyword : head ∈ basis.heads
    · simp only [Basis.heads, List.mem_cons, List.not_mem_nil, or_false] at hkeyword
      rcases hkeyword with rfl | rfl | rfl
      · rw [evaluateForm_head] at h
        cases h
      · rw [evaluateForm_head] at h
        exact conditional_of_tooDeep h
      · rw [evaluateForm_head, SpecialForm.run] at h
        split at h <;> cases h
    · rw [evaluateForm_application eval hkeyword] at h
      exact application_of_tooDeep hkeyword h
  | _ => cases h

end

/-- An evaluation meets the depth just if one inside it is begun with nothing left of the limit. -/
theorem tooDeep_iff_nested (basis : Basis) (limit : Nat) (env : Env) (e : Value) :
    (evaluate basis limit env e).result = .error .tooDeep ↔
      ∃ env' e', Nested basis limit env e 0 env' e' := by
  constructor
  · intro h
    induction limit generalizing env e with
    | zero => exact ⟨env, e, .self⟩
    | succ limit ih =>
      obtain ⟨env₁, e₁, hdemands, hdeep⟩ := demands_of_tooDeep h
      obtain ⟨env', e', hnested⟩ := ih env₁ e₁ hdeep
      exact ⟨env', e', .inside hdemands hnested⟩
  · rintro ⟨env', e', hnested⟩
    have hstop : (evaluate basis 0 env' e').StopsAfter .tooDeep [] := ⟨rfl, List.nil_suffix⟩
    exact (hnested.stops hstop).result

end PocketLisp

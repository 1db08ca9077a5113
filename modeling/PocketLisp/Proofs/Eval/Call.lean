import PocketLisp.Proofs.Eval.ComesTo
import PocketLisp.Proofs.Eval.Nesting

/-!
# The law of calls

What a call of a closure comes to is settled in a fixed order: by the first argument that comes to
an error, then by the number of arguments, then by the body (`comesTo_call_iff`). The body is
evaluated where its parameters mean the arguments, the last one if a parameter is there more than
once, and all other symbols mean what they mean at the call (`Env.Binds`). Nothing else has to be
known of that environment, since evaluation depends on environments only through what symbols mean
in them (`evaluate_eq_of_lookup_eq`).
-/

namespace PocketLisp

/-! ## What parameters mean in a call -/

namespace Frame

/-- Bindings of other symbols do not change what a symbol is bound to. -/
theorem get?_foldl_set {s : Symbol} {bindings : List (Symbol × Value)}
    (h : ∀ b ∈ bindings, b.1 ≠ s) (frame : Frame) :
    (bindings.foldl (fun frame (t, v) => frame.set t v) frame).get? s = frame.get? s := by
  induction bindings generalizing frame with
  | nil => rfl
  | cons b bindings ih =>
    rw [List.foldl_cons, ih fun b' hb' => h b' (List.mem_cons_of_mem b hb')]
    exact get?_set_of_ne frame b.2 (h b List.mem_cons_self).symm

/-- Of bindings made one after the other, the last one of a symbol counts. -/
theorem get?_foldl_set_zip {params : List Symbol} {vs : List Value} {j : Nat} {s : Symbol}
    {v : Value} (hs : params[j]? = some s) (hv : vs[j]? = some v)
    (hlast : ∀ k, j < k → params[k]? ≠ some s) (frame : Frame) :
    ((params.zip vs).foldl (fun frame (t, w) => frame.set t w) frame).get? s = some v := by
  induction params generalizing vs j frame with
  | nil => cases hs
  | cons t params ih =>
    cases vs with
    | nil => cases hv
    | cons w vs =>
      rw [List.zip_cons_cons, List.foldl_cons]
      cases j with
      | zero =>
        cases hs
        cases hv
        have hlater : ∀ b ∈ params.zip vs, b.1 ≠ s := by
          intro b hb heq
          obtain ⟨k, hk⟩ := List.getElem?_of_mem (List.of_mem_zip hb).1
          exact hlast (k + 1) (Nat.succ_pos k) (heq ▸ hk)
        rw [get?_foldl_set hlater, get?_set_self]
      | succ j => exact ih hs hv (fun k hk => hlast (k + 1) (Nat.succ_lt_succ hk)) _

end Frame

/-- In `env'` every parameter means the value at its last place in the list, and all other symbols
mean what they mean in `env`. -/
structure Env.Binds (env' : Env) (params : List Symbol) (vs : List Value) (env : Env) : Prop where
  last : ∀ (j : Nat) (s : Symbol) (v : Value), params[j]? = some s → vs[j]? = some v →
    (∀ k, j < k → params[k]? ≠ some s) → env'.lookup s = some v
  outside : ∀ s, s ∉ params → env'.lookup s = env.lookup s

namespace Env

/-- The environment of a call binds the parameters so. -/
theorem binds_call (env : Env) (params : List Symbol) (vs : List Value) :
    (env.call params vs).Binds params vs env where
  last := by
    intro j s v hs hv hlast
    rw [call, lookup_cons, Frame.ofBindings, Frame.get?_foldl_set_zip hs hv hlast]
    rfl
  outside := by
    intro s hs
    have hnone : ∀ b ∈ params.zip vs, b.1 ≠ s := by
      intro b hb heq
      exact hs (heq ▸ (List.of_mem_zip hb).1)
    rw [call, lookup_cons, Frame.ofBindings, Frame.get?_foldl_set hnone]
    rfl

/-- A symbol in a list has a last place there. -/
theorem exists_last_place {s : Symbol} {params : List Symbol} (h : s ∈ params) :
    ∃ j : Nat, params[j]? = some s ∧ ∀ k, j < k → params[k]? ≠ some s := by
  induction params with
  | nil => cases h
  | cons t params ih =>
    by_cases hs : s ∈ params
    · obtain ⟨j, hj, hlast⟩ := ih hs
      refine ⟨j + 1, hj, ?_⟩
      intro k hk
      obtain ⟨k, rfl⟩ : ∃ n, k = n + 1 := ⟨k - 1, by omega⟩
      exact hlast k (by omega)
    · obtain rfl := (List.mem_cons.1 h).resolve_right hs
      refine ⟨0, rfl, ?_⟩
      intro k hk hmem
      obtain ⟨k, rfl⟩ : ∃ n, k = n + 1 := ⟨k - 1, by omega⟩
      exact hs (List.mem_of_getElem? hmem)

/-- With a value for every parameter, this settles what all symbols mean. -/
theorem Binds.lookup_eq {env env₁ env₂ : Env} {params : List Symbol} {vs : List Value}
    (h₁ : env₁.Binds params vs env) (h₂ : env₂.Binds params vs env)
    (hlength : vs.length = params.length) (s : Symbol) : env₁.lookup s = env₂.lookup s := by
  by_cases hs : s ∈ params
  · obtain ⟨j, hj, hlast⟩ := exists_last_place hs
    have hlt : j < vs.length := by
      rw [hlength]
      exact (List.getElem?_eq_some_iff.1 hj).1
    have hv := List.getElem?_eq_getElem hlt
    rw [h₁.last j s _ hj hv hlast, h₂.last j s _ hj hv hlast]
  · rw [h₁.outside s hs, h₂.outside s hs]

theorem lookup_call_congr {env env' : Env} (h : ∀ s, env.lookup s = env'.lookup s)
    (params : List Symbol) (vs : List Value) (s : Symbol) :
    (env.call params vs).lookup s = (env'.call params vs).lookup s := by
  rw [call, call, lookup_cons, lookup_cons, h s]

end Env

/-! ## Evaluation sees environments through their lookups -/

/-- The evaluator does the same wherever all symbols mean the same. -/
def Evaluator.SeesLookups (eval : Evaluator) : Prop :=
  ∀ env env' : Env, (∀ s, env.lookup s = env'.lookup s) → eval env = eval env'

theorem evaluateForm_seesLookups (basis : Basis) {eval : Evaluator} (heval : eval.SeesLookups) :
    Evaluator.SeesLookups (evaluateForm basis eval) := by
  intro env env' h
  have happly : applyFunction basis.host eval env = applyFunction basis.host eval env' := by
    funext f vs
    cases f with
    | closure params body =>
      simp only [applyFunction, heval _ _ (Env.lookup_call_congr h params vs)]
    | _ => rfl
  funext e
  cases e with
  | symbol s => simp only [evaluateForm, evalSymbol, h s]
  | pair head rest =>
    simp only [evaluateForm]
    split
    · next form _ =>
      cases form with
      | conditional =>
        show evalConditional eval env rest = evalConditional eval env' rest
        rw [evalConditional_eq, evalConditional_eq]
        rw [heval env env' h]
      | _ => rfl
    · unfold applyForm
      rw [heval env env' h, happly]
  | _ => rfl

/-- How bindings are divided into frames, and bindings that are hidden, make no difference to
anything that is evaluated. -/
theorem evaluate_eq_of_lookup_eq (basis : Basis) (limit : Nat) :
    Evaluator.SeesLookups (evaluate basis limit) := by
  induction limit with
  | zero =>
    intro env env' _
    rfl
  | succ limit ih => exact evaluateForm_seesLookups basis ih

theorem ComesTo.of_lookup_eq {basis : Basis} {env env' : Env} {e v : Value} {calls : List Call}
    (h : ComesTo basis env e v calls) (henv : ∀ s, env.lookup s = env'.lookup s) :
    ComesTo basis env' e v calls := by
  obtain ⟨limit, hreached⟩ := h.reached
  rw [evaluate_eq_of_lookup_eq basis limit env env' henv] at hreached
  exact comesTo_of_evaluate limit hreached

/-! ## The law -/

/-- What a call in `env` of the closure with these parameters and this body comes to, and the calls
that are made for it once the closure is there. -/
inductive Called (basis : Basis) (env : Env) (params : List Symbol) (body : Value)
    (arguments : List Value) : Value → List Call → Prop where
  /-- The first argument that comes to an error settles the matter. -/
  | error {earlier later vs : List Value} {e : Value} {message : String} {calls more : List Call}
      (harguments : arguments = earlier ++ e :: later)
      (hearlier : AllComeTo basis env earlier vs calls)
      (he : ComesTo basis env e (.error message) more) :
      Called basis env params body arguments (.error message) (calls ++ more)
  | tooMany {vs : List Value} {calls : List Call} (hvalues : AllComeTo basis env arguments vs calls)
      (hlength : params.length < arguments.length) :
      Called basis env params body arguments (.error "too many lambda args") calls
  | tooFew {vs : List Value} {calls : List Call} (hvalues : AllComeTo basis env arguments vs calls)
      (hlength : arguments.length < params.length) :
      Called basis env params body arguments (.error "too few lambda args") calls
  | body {vs : List Value} {env' : Env} {v : Value} {calls more : List Call}
      (hvalues : AllComeTo basis env arguments vs calls)
      (hlength : arguments.length = params.length) (henv' : env'.Binds params vs env)
      (hbody : ComesTo basis env' body v more) :
      Called basis env params body arguments v (calls ++ more)

section

variable {basis : Basis} {env : Env} {params : List Symbol} {body head : Value}
  {arguments : List Value} {before : List Call} (hkeyword : head ∉ basis.heads)
  (hhead : ComesTo basis env head (.closure params body) before)

include hkeyword hhead

/-- What the rules make of the arguments and the function is what the call comes to. -/
theorem Called.evaluates {v : Value} {calls : List Call}
    (h : Called basis env params body arguments v calls) :
    Evaluates basis env (.pair head (.ofList arguments)) (.ok v) (before ++ calls) := by
  have hclosure := comesTo_iff_evaluates.1 hhead
  have happlied {vs : List Value} {w : Value} {made last : List Call}
      (hvalues : AllComeTo basis env arguments vs made)
      (happly : Applies basis env (.closure params body) vs (.ok w) last) :
      Evaluates basis env (.pair head (.ofList arguments)) (.ok w) (before ++ (made ++ last)) :=
    .application hkeyword hclosure rfl (evaluatesArguments_values_iff.2 hvalues) happly
  cases h with
  | @error earlier later vs e message calls more harguments hearlier he =>
    have hfirst :
        EvaluatesArguments basis env (.pair e (.ofList later)) (.ok (.error message)) more :=
      .firstError (comesTo_iff_evaluates.1 he)
    rw [harguments, Value.ofList, Value.chain, List.foldr_append]
    exact .argumentsError hkeyword hclosure rfl (hearlier.evaluatesArguments_error hfirst)
  | tooMany hvalues hlength =>
    have h := happlied hvalues (.tooMany (by rw [hvalues.length_eq]; exact hlength))
    rwa [List.append_nil] at h
  | tooFew hvalues hlength =>
    have h := happlied hvalues (.tooFew (by rw [hvalues.length_eq]; exact hlength))
    rwa [List.append_nil] at h
  | @body vs env' v calls more hvalues hlength henv' hbody =>
    -- The environment of the call may differ from `env'`, but not in what symbols mean.
    have hvs : vs.length = params.length := hvalues.length_eq.trans hlength
    have hcall := hbody.of_lookup_eq (henv'.lookup_eq (env.binds_call params vs) hvs)
    exact happlied hvalues (.body hvs (comesTo_iff_evaluates.1 hcall))

omit hkeyword hhead in
theorem called_of_applies {vs : List Value} {v : Value} {calls more : List Call}
    (hvalues : AllComeTo basis env arguments vs calls)
    (h : Applies basis env (.closure params body) vs (.ok v) more) :
    Called basis env params body arguments v (calls ++ more) := by
  cases h with
  | tooMany hlength =>
    rw [List.append_nil]
    exact .tooMany hvalues (by rw [← hvalues.length_eq]; exact hlength)
  | tooFew hlength =>
    rw [List.append_nil]
    exact .tooFew hvalues (by rw [← hvalues.length_eq]; exact hlength)
  | body hlength hbody =>
    exact .body hvalues (hvalues.length_eq.symm.trans hlength) (env.binds_call params vs)
      (comesTo_iff_evaluates.2 hbody)

/-- A call comes to nothing but what the law says. -/
theorem called_of_evaluates {v : Value} {calls : List Call}
    (h : Evaluates basis env (.pair head (.ofList arguments)) (.ok v) calls) :
    ∃ more, calls = before ++ more ∧ Called basis env params body arguments v more := by
  rcases evaluates_application_cases hkeyword hhead rfl h with
    ⟨message, more, rfl, harguments, rfl⟩ | ⟨vs, more, last, harguments, happly, rfl⟩
  · obtain ⟨earlier, e, later, vs, made, failing, hsplit, hearlier, he, rfl⟩ :=
      exists_first_error harguments
    exact ⟨made ++ failing, rfl, .error hsplit hearlier he⟩
  · have hvalues := evaluatesArguments_values_iff.1 harguments
    exact ⟨more ++ last, rfl, called_of_applies hvalues happly⟩

theorem comesTo_iff_called {v : Value} {calls : List Call} :
    ComesTo basis env (.pair head (.ofList arguments)) v calls ↔
      ∃ more, calls = before ++ more ∧ Called basis env params body arguments v more := by
  rw [comesTo_iff_evaluates]
  constructor
  · exact called_of_evaluates hkeyword hhead
  · rintro ⟨more, rfl, hcalled⟩
    exact hcalled.evaluates hkeyword hhead

/-- What is evaluated inside a call is the call itself, or it is evaluated inside the head or an
argument; or else inside the body, and then all arguments have values and are as many as the
parameters. -/
theorem nested_call {limit limit' : Nat} {env' : Env} {e' : Value}
    (h : Nested basis limit env (.pair head (.ofList arguments)) limit' env' e') :
    (env' = env ∧ e' = .pair head (.ofList arguments)) ∨
    (∃ part ∈ head :: arguments, ∃ n ≤ limit, Nested basis n env part limit' env' e') ∨
    ∃ vs calls env₁, AllComeTo basis env arguments vs calls ∧ arguments.length = params.length ∧
      env₁.Binds params vs env ∧ ∃ n ≤ limit, Nested basis n env₁ body limit' env' e' := by
  generalize hcall : Value.pair head (.ofList arguments) = call at h
  cases h with
  | self => exact .inl ⟨rfl, rfl⟩
  | @inside n _ _ _ _ _ part _ hdemands hrest =>
    subst hcall
    right
    rcases hdemands.application_cases hkeyword with
      ⟨rfl, rfl⟩ | ⟨-, -, -, rfl, hargument⟩ | ⟨params', vs, hresult, harguments, hlength, rfl⟩
    · exact .inl ⟨_, List.mem_cons_self, n, Nat.le_succ n, hrest⟩
    · have hmem := hargument.mem_of_ofList
      exact .inl ⟨part, List.mem_cons_of_mem head hmem, n, Nat.le_succ n, hrest⟩
    · cases hhead.eq_of_result hresult
      obtain ⟨calls, hevaluates⟩ := evaluatesArguments_of_result harguments
      have hvalues := evaluatesArguments_values_iff.1 hevaluates
      exact .inr ⟨vs, calls, _, hvalues, hvalues.length_eq.symm.trans hlength,
        env.binds_call params vs, n, Nat.le_succ n, hrest⟩

end

/-- **The law of calls.** Take a list of parameters, in which a symbol may be repeated, a body, and
any arguments. The application of `(lambda (p₁ … pₙ) body)` to the arguments comes to a value just
if the law says so: to the error of the first argument that comes to one, else to `too many lambda
args` or `too few lambda args` if the numbers differ, else to what the body comes to where the
parameters mean the values of the arguments. The same holds of any head other than a keyword that
comes to the closure, whose own calls come first. And the body is evaluated only if all arguments
have values and are as many as the parameters. -/
theorem comesTo_call_iff (basis : Basis) (env : Env) (params : List Symbol) (body : Value)
    (arguments : List Value) :
    (∀ v calls,
      ComesTo basis env
        (.pair (.ofList [basis.head .lambda, .ofList (params.map .symbol), body])
          (.ofList arguments))
        v calls ↔
      Called basis env params body arguments v calls) ∧
    ∀ head before, head ∉ basis.heads → ComesTo basis env head (.closure params body) before →
      (∀ v calls, ComesTo basis env (.pair head (.ofList arguments)) v calls ↔
        ∃ more, calls = before ++ more ∧ Called basis env params body arguments v more) ∧
      ∀ limit limit' env' e',
        Nested basis limit env (.pair head (.ofList arguments)) limit' env' e' →
        (env' = env ∧ e' = .pair head (.ofList arguments)) ∨
        (∃ part ∈ head :: arguments, ∃ n ≤ limit, Nested basis n env part limit' env' e') ∨
        ∃ vs calls env₁, AllComeTo basis env arguments vs calls ∧
          arguments.length = params.length ∧ env₁.Binds params vs env ∧
          ∃ n ≤ limit, Nested basis n env₁ body limit' env' e' := by
  constructor
  · intro v calls
    have hlambda : ComesTo basis env
        (.ofList [basis.head .lambda, .ofList (params.map .symbol), body])
        (.closure params body) [] :=
      comesTo_iff_evaluates.2 .lambda
    rw [comesTo_iff_called (by simp [Basis.heads, Basis.head, Value.ofList]) hlambda]
    simp only [List.nil_append, exists_eq_left']
  · intro head before hkeyword hhead
    refine ⟨fun v calls => comesTo_iff_called hkeyword hhead, ?_⟩
    intro limit limit' env' e' hnested
    exact nested_call hkeyword hhead hnested

/-- With `f` bound to a function of `x`, `y` and `x` again that adds `x` and `y`, `(f 1 2 3)` is
`5`; and `(f 1 2)` has too few arguments. -/
theorem comesTo_call_iff_repeated_parameter :
    let basis := Basis.new ∅ .none
    let x := Symbol.first "x"
    let y := Symbol.first "y"
    let body : Value := .ofList [.sym "+", .symbol x, .symbol y]
    let env : Env := [[(.first "f", .closure [x, y, x] body)], .builtins .first]
    ComesTo basis env (.sym "f") (.closure [x, y, x] body) [] ∧
    ComesTo basis env (.pair (.sym "f") (.ofList [.int 1, .int 2, .int 3])) (.int 5)
      [⟨.builtin .add, .ofList [.int 3, .int 2]⟩] ∧
    ComesTo basis env (.pair (.sym "f") (.ofList [.int 1, .int 2]))
      (.error "too few lambda args") [] := by
  intro basis x y body env
  have hf : ComesTo basis env (.sym "f") (.closure [x, y, x] body) [] := comesTo_of_evaluate 1 rfl
  have hint (n : Int) : ComesTo basis env (.int n) (.int n) [] := comesTo_of_evaluate 1 rfl
  have htwo : AllComeTo basis env [.int 1, .int 2] [.int 1, .int 2] [] :=
    .cons (hint 1) rfl (.cons (hint 2) rfl .nil)
  have hthree : AllComeTo basis env [.int 1, .int 2, .int 3] [.int 1, .int 2, .int 3] [] :=
    .cons (hint 1) rfl (.cons (hint 2) rfl (.cons (hint 3) rfl .nil))
  have hsum : ComesTo basis (env.call [x, y, x] [.int 1, .int 2, .int 3]) body (.int 5)
      [⟨.builtin .add, .ofList [.int 3, .int 2]⟩] :=
    comesTo_of_evaluate 2 rfl
  have hlaw (arguments : List Value) :=
    ((comesTo_call_iff basis env [x, y, x] body arguments).2 (.sym "f") [] (by decide) hf).1
  refine ⟨hf, (hlaw _ _ _).2 ⟨_, rfl, ?_⟩, (hlaw _ _ _).2 ⟨_, rfl, ?_⟩⟩
  · exact .body hthree rfl (env.binds_call _ _) hsum
  · exact .tooFew htwo (by decide)

end PocketLisp

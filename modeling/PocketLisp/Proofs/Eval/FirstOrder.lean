import PocketLisp.Proofs.Eval.Provenance

/-!
# Programs that make no functions

A form in which `lambda` does not stand makes no closure, and if none is bound around it either,
none turns up: quoting, the list accessors and variables give only what was there before. Every
evaluation inside such a form is then one of a form in it, strictly less deep, and never one of a
body (`Demands.evalNesting_lt`). So evaluations nest no deeper than the form does
(`Nested.evalNesting_le`), and with that much room the limit is not met (`evaluate_nests_within`).

Values bound around the form may hold the symbol `lambda`, because they are not evaluated.
-/

namespace PocketLisp

namespace Value

def isClosure : Value → Bool
  | closure _ _ => true
  | _ => false

/-- Neither a closure nor a function of the host, which could answer with one. -/
def Inert (p : Value) : Prop := p.isClosure = false ∧ p.isHostFunction = false

/-- Inert, and not the symbol that makes closures. -/
def FirstOrder (basis : Basis) (p : Value) : Prop := p ≠ basis.head .lambda ∧ p.Inert

instance : DecidablePred Inert := fun p =>
  inferInstanceAs (Decidable (p.isClosure = false ∧ p.isHostFunction = false))

instance (basis : Basis) : DecidablePred (FirstOrder basis) := fun p =>
  inferInstanceAs (Decidable (p ≠ basis.head .lambda ∧ p.Inert))

instance (P : Value → Prop) [DecidablePred P] (v : Value) : Decidable (v.All P) :=
  inferInstanceAs (Decidable (∀ p ∈ v.parts, P p))

theorem not_inert_closure {params : List Symbol} {body : Value} : ¬ (closure params body).Inert :=
  fun h => Bool.noConfusion h.1

theorem keepable_firstOrder (basis : Basis) : Keepable basis (FirstOrder basis) Inert where
  nil := ⟨rfl, rfl⟩
  int _ := ⟨rfl, rfl⟩
  closure hlambda _ _ := absurd rfl hlambda.1
  notHost h := h.2
  value h := h.2
  body h := absurd h.self not_inert_closure

/-! ## How deep a form nests -/

/-- How many forms stand inside each other, where the elements along a chain stand side by side in
it. -/
def evalNesting : Value → Nat
  | pair first rest => max (first.evalNesting + 1) rest.evalNesting
  | _ => 1

theorem evalNesting_pos (v : Value) : 0 < v.evalNesting := by
  induction v with
  | pair first rest ihfirst ihrest =>
    simp only [evalNesting]
    omega
  | _ => exact Nat.one_pos

/-- A form nests by one more than the deepest of its elements, and by one if there are none. -/
theorem evalNesting_eq (v : Value) :
    v.evalNesting = 1 + (v.elements.map evalNesting).foldr max 0 := by
  induction v with
  | pair first rest _ ih =>
    simp only [evalNesting, ih, elements_pair, List.map_cons, List.foldr_cons]
    omega
  | _ => rfl

theorem evalNesting_lt_of_mem {part v : Value} (h : part ∈ v.elements) :
    part.evalNesting < v.evalNesting := by
  induction v with
  | pair first rest _ ih =>
    simp only [evalNesting]
    rcases List.mem_cons.1 h with rfl | h
    · omega
    · have := ih h
      omega
  | _ => cases h

end Value

theorem DemandsArgument.mem_elements {eval : Value → Trace Value} {arguments argument : Value}
    (h : DemandsArgument eval arguments argument) : argument ∈ arguments.elements := by
  induction h with
  | first => exact List.mem_cons_self
  | later _ _ _ ih => exact List.mem_cons_of_mem _ ih

/-! ## Evaluations inside a form without `lambda` -/

section

variable {basis : Basis} {limit limit' : Nat} {env env' : Env} {e e' : Value}

/-- What is evaluated for a form is one of its elements, in the same environment: there is no
closure whose body could be evaluated. -/
theorem Demands.mem_elements (h : Demands basis (evaluate basis limit) env e env' e')
    (henv : env.All Value.Inert) (he : e.All (Value.FirstOrder basis)) :
    env' = env ∧ e' ∈ e.elements := by
  cases h with
  | test => exact ⟨rfl, by simp [Value.chain]⟩
  | alternative _ => exact ⟨rfl, by simp [Value.chain]⟩
  | consequent _ _ _ => exact ⟨rfl, by simp [Value.chain]⟩
  | head _ => exact ⟨rfl, List.mem_cons_self⟩
  | argument _ _ _ hargument => exact ⟨rfl, List.mem_cons_of_mem _ hargument.mem_elements⟩
  | body _ hhead _ _ =>
    have hkeeps := evaluate_keeps (Value.keepable_firstOrder basis) limit
    have hclosure := (hkeeps env _ henv he.first _ hhead).all rfl
    exact absurd hclosure.self Value.not_inert_closure

theorem Demands.evalNesting_lt (h : Demands basis (evaluate basis limit) env e env' e')
    (henv : env.All Value.Inert) (he : e.All (Value.FirstOrder basis)) :
    env' = env ∧ e'.All (Value.FirstOrder basis) ∧ e'.evalNesting < e.evalNesting := by
  obtain ⟨heq, hmem⟩ := h.mem_elements henv he
  obtain ⟨-, hall, -⟩ := h.keeps (Value.keepable_firstOrder basis) henv he
  exact ⟨heq, hall, Value.evalNesting_lt_of_mem hmem⟩

/-- Each level of the limit that is used up takes away a level of the form. -/
theorem Nested.evalNesting_le (h : Nested basis limit env e limit' env' e')
    (henv : env.All Value.Inert) (he : e.All (Value.FirstOrder basis)) :
    limit + e'.evalNesting ≤ limit' + e.evalNesting := by
  induction h with
  | self => exact Nat.le_refl _
  | inside hdemands _ ih =>
    obtain ⟨rfl, he₁, hlt⟩ := hdemands.evalNesting_lt henv he
    have hle := ih henv he₁
    omega

/-- With room for the nesting of the form, the depth is not met. -/
theorem evaluate_ne_tooDeep (henv : env.All Value.Inert) (he : e.All (Value.FirstOrder basis))
    (hlimit : e.evalNesting ≤ limit) : (evaluate basis limit env e).result ≠ .error .tooDeep := by
  intro hdeep
  obtain ⟨env', e', hnested⟩ := (tooDeep_iff_nested basis limit env e).1 hdeep
  have hle := hnested.evalNesting_le henv he
  have hpos := e'.evalNesting_pos
  omega

end

/-- A top-level form that ends has that outcome, and nothing is reported. -/
theorem Interpreter.evalForm_of_ends {i : Interpreter} {limit : Nat} {e : Value}
    {outcome : Except Violation Value} {calls : List Call}
    (h : (evaluate i.basis limit i.env e).Ends outcome calls) :
    i.evalForm limit e = (calls.map .called, outcome) := by
  simp only [evalForm]
  rw [show evaluate i.basis limit i.env e = _ from h]
  cases outcome <;> rfl

/-- **Bounded nesting without `lambda`.** Take a form in which neither the symbol `lambda` nor a
closure occurs, in an environment that binds no value with a closure in it, where all native
functions are builtins. There are never more evaluations inside each other, that of the form itself
included, than `evalNesting` says: one that is begun with `limit'` left of `limit` stands inside
`limit - limit'` others. So the form has an outcome by the rules, which know no limit; every limit
that is not less than `evalNesting` gives that outcome with the same calls; and at the top level
such a form is never given up for its depth. -/
theorem evaluate_nests_within (basis : Basis) (env : Env) (e : Value)
    (he : e.All (Value.FirstOrder basis)) (henv : env.All Value.Inert) :
    (∀ limit limit' env' e', Nested basis limit env e limit' env' e' →
      limit < limit' + e.evalNesting) ∧
    ∃ outcome calls, Evaluates basis env e outcome calls ∧
      ∀ limit, e.evalNesting ≤ limit →
        (evaluate basis limit env e).Ends outcome calls ∧
        ∀ i : Interpreter, i.basis = basis → i.env = env →
          i.evalForm limit e = (calls.map .called, outcome) := by
  constructor
  · intro limit limit' env' e' hnested
    have hle := hnested.evalNesting_le henv he
    have hpos := e'.evalNesting_pos
    omega
  · have hdeep : (evaluate basis e.evalNesting env e).result ≠ .error .tooDeep :=
      evaluate_ne_tooDeep henv he (Nat.le_refl _)
    obtain ⟨outcome, calls, hends⟩ := Trace.exists_ends hdeep
    refine ⟨outcome, calls, evaluate_sound basis _ env e outcome calls hends, ?_⟩
    intro limit hlimit
    have hlarger := hends.of_extends (evaluate_extends basis hlimit env e)
    refine ⟨hlarger, ?_⟩
    rintro i rfl rfl
    exact Interpreter.evalForm_of_ends hlarger

/-- With `ops` bound to a pair of the function `car` and the symbol `lambda`, `((car ops) '(5 6))`
nests by four and is `(5 6)` at every limit from four on. -/
theorem evaluate_nests_within_computed_head :
    let ops : Value := .pair (.native (.builtin .car)) (.sym "lambda")
    let i : Interpreter :=
      { Interpreter.new ∅ .none with root := (.first "ops", ops) :: Frame.builtins .first }
    let list := Value.ofList [.int 5, .int 6]
    let e := Value.ofList [.ofList [.sym "car", .sym "ops"], .ofList [.sym "quote", list]]
    e.All (Value.FirstOrder i.basis) ∧ i.env.All Value.Inert ∧ e.evalNesting = 4 ∧
    (∀ limit' env' e', Nested i.basis 4 i.env e limit' env' e' → 0 < limit') ∧
    ∀ limit, 4 ≤ limit → (i.evalForm limit e).2 = .ok list := by
  intro ops i list e
  have he : e.All (Value.FirstOrder i.basis) := by decide +kernel
  have henv : i.env.All Value.Inert := by
    show ∀ w ∈ i.env.values, w.All Value.Inert
    decide
  obtain ⟨hnested, outcome, calls, -, hlimits⟩ := evaluate_nests_within i.basis i.env e he henv
  refine ⟨he, henv, rfl, ?_, ?_⟩
  · intro limit' env' e' h
    have hlt : 4 < limit' + 4 := hnested 4 limit' env' e' h
    omega
  · have hfour : (i.evalForm 4 e).2 = .ok list := by with_unfolding_all rfl
    rw [(hlimits 4 (Nat.le_refl 4)).2 i rfl rfl] at hfour
    intro limit hlimit
    rw [(hlimits limit hlimit).2 i rfl rfl]
    exact hfour

end PocketLisp

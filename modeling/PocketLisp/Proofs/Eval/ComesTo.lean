import PocketLisp.Proofs.Eval.Completeness

/-!
# What a form comes to

For a law about forms the limit on nesting is a nuisance: its parts need less room than the whole,
and where there is too little of it nothing can be said. `ComesTo` leaves the limit out. A form
comes to a value if evaluation reaches that value with room enough, and then it gives that value,
with the same calls, at every limit at which it does not stop for its depth. This is what the rules
derive (`comesTo_iff_evaluates`), so laws are proved from the rules and read as statements about
`evaluate`.

`AllComeTo` is the same for forms one after the other, none of which may come to an error value: the
arguments of an application that get as far as the call, or as far as the first error.
-/

namespace PocketLisp

/-- Where there is room enough, the form comes to this value and makes these calls; and it does
nothing else at any limit at which it does not stop for its depth. -/
structure ComesTo (basis : Basis) (env : Env) (e v : Value) (calls : List Call) : Prop where
  reached : ∃ limit, evaluate basis limit env e = ⟨calls, .ok v⟩
  always : ∀ limit, (evaluate basis limit env e).result ≠ .error .tooDeep →
    evaluate basis limit env e = ⟨calls, .ok v⟩

/-- The forms come to these values, from left to right and none of them an error value, and make
these calls. -/
inductive AllComeTo (basis : Basis) (env : Env) : List Value → List Value → List Call → Prop where
  | nil : AllComeTo basis env [] [] []
  | cons {e v : Value} {es vs : List Value} {calls more : List Call}
      (hfirst : ComesTo basis env e v calls) (herror : v.isError = false)
      (hrest : AllComeTo basis env es vs more) :
      AllComeTo basis env (e :: es) (v :: vs) (calls ++ more)

section

variable {basis : Basis} {env : Env}

theorem comesTo_of_evaluate (limit : Nat) {e v : Value} {calls : List Call}
    (h : evaluate basis limit env e = ⟨calls, .ok v⟩) : ComesTo basis env e v calls where
  reached := ⟨limit, h⟩
  always := by
    intro limit' hdeep
    -- Raised to the larger of the two limits, both evaluations are the same.
    have hreached := evaluate_extends basis (Nat.le_max_left limit limit') env e (by rw [h]; simp)
    have hother := evaluate_extends basis (Nat.le_max_right limit limit') env e hdeep
    rw [← hother, hreached, h]

theorem comesTo_iff_evaluates {e v : Value} {calls : List Call} :
    ComesTo basis env e v calls ↔ Evaluates basis env e (.ok v) calls := by
  constructor
  · rintro ⟨⟨limit, hreached⟩, -⟩
    exact evaluate_sound basis limit env e (.ok v) calls hreached
  · intro h
    obtain ⟨limit, hends⟩ := h.reached
    exact comesTo_of_evaluate limit hends

/-- Whatever value is given at some limit is the one that the form comes to. -/
theorem ComesTo.eq_of_result {limit : Nat} {e v w : Value} {calls : List Call}
    (h : ComesTo basis env e v calls) (hw : (evaluate basis limit env e).result = .ok w) :
    w = v := by
  have heq := h.always limit (by rw [hw]; simp)
  rw [heq] at hw
  exact (Except.ok.inj hw).symm

theorem ComesTo.unique {e v w : Value} {calls more : List Call} (h : ComesTo basis env e v calls)
    (h' : ComesTo basis env e w more) : w = v ∧ more = calls := by
  obtain ⟨limit, hreached⟩ := h'.reached
  have heq := h.always limit (by rw [hreached]; simp)
  rw [hreached] at heq
  cases heq
  exact ⟨rfl, rfl⟩

theorem AllComeTo.length_eq {es vs : List Value} {calls : List Call}
    (h : AllComeTo basis env es vs calls) : vs.length = es.length := by
  induction h with
  | nil => rfl
  | cons _ _ _ ih => rw [List.length_cons, List.length_cons, ih]

/-! ## Arguments -/

/-- Arguments whose values are found at some limit have those values by the rules. -/
theorem evaluatesArguments_of_result {limit : Nat} {arguments : Value} {vs : List Value}
    (h : (evalArguments (evaluate basis limit env) arguments).result = .ok (.ok vs)) :
    ∃ calls, EvaluatesArguments basis env arguments (.ok (.ok vs)) calls := by
  rcases htrace : evalArguments (evaluate basis limit env) arguments with ⟨calls, result⟩
  rw [htrace] at h
  subst h
  exact ⟨calls, evalArguments_sound (evaluate_sound basis limit) htrace⟩

/-- Behind arguments that have values, an error among the others is the error of all. -/
theorem AllComeTo.evaluatesArguments_error {es vs : List Value} {tail : Value} {message : String}
    {calls more : List Call} (h : AllComeTo basis env es vs calls)
    (htail : EvaluatesArguments basis env tail (.ok (.error message)) more) :
    EvaluatesArguments basis env (.chain es tail) (.ok (.error message)) (calls ++ more) := by
  induction h with
  | nil => exact htail
  | cons hfirst herror _ ih =>
    rw [List.append_assoc]
    exact .restError (comesTo_iff_evaluates.1 hfirst) herror ih

/-- The arguments that have values are those that all come to one which is no error. -/
theorem evaluatesArguments_values_iff {es vs : List Value} {calls : List Call} :
    EvaluatesArguments basis env (.ofList es) (.ok (.ok vs)) calls ↔
      AllComeTo basis env es vs calls := by
  constructor
  · intro h
    induction es generalizing vs calls with
    | nil =>
      cases h with
      | nil => exact .nil
    | cons e es ih =>
      cases h with
      | cons hfirst herror hrest => exact .cons (comesTo_iff_evaluates.2 hfirst) herror (ih hrest)
  · intro h
    induction h with
    | nil => exact .nil
    | cons hfirst herror _ ih => exact .cons (comesTo_iff_evaluates.1 hfirst) herror ih

/-- The error of a proper list of arguments is that of the first of them which comes to one. -/
theorem exists_first_error {es : List Value} {message : String} {calls : List Call}
    (h : EvaluatesArguments basis env (.ofList es) (.ok (.error message)) calls) :
    ∃ earlier e later vs before after, es = earlier ++ e :: later ∧
      AllComeTo basis env earlier vs before ∧ ComesTo basis env e (.error message) after ∧
      calls = before ++ after := by
  induction es generalizing calls with
  | nil =>
    cases h with
    | notList htail hpair => exact absurd rfl htail
  | cons e es ih =>
    cases h with
    | notList htail hpair => cases hpair
    | firstError hfirst =>
      exact ⟨[], e, es, [], [], calls, rfl, .nil, comesTo_iff_evaluates.2 hfirst, rfl⟩
    | restError hfirst herror hrest =>
      obtain ⟨earlier, e', later, vs, before, after, rfl, hearlier, he', rfl⟩ := ih hrest
      have hall := AllComeTo.cons (comesTo_iff_evaluates.2 hfirst) herror hearlier
      exact ⟨e :: earlier, e', later, _, _, after, rfl, hall, he',
        (List.append_assoc _ _ _).symm⟩

/-! ## Applications -/

/-- An application whose head comes to a function comes to the error of its arguments, or to what
the function makes of their values. -/
theorem evaluates_application_cases {head arguments f v : Value} {before calls : List Call}
    (hkeyword : head ∉ basis.heads) (hhead : ComesTo basis env head f before)
    (hf : f.isFunction = true) (h : Evaluates basis env (.pair head arguments) (.ok v) calls) :
    (∃ message more, v = .error message ∧
      EvaluatesArguments basis env arguments (.ok (.error message)) more ∧ calls = before ++ more) ∨
    ∃ vs more last, EvaluatesArguments basis env arguments (.ok (.ok vs)) more ∧
      Applies basis env f vs (.ok v) last ∧ calls = before ++ (more ++ last) := by
  have hunique {w : Value} {made : List Call} (hw : Evaluates basis env head (.ok w) made) :
      w = f ∧ made = before :=
    hhead.unique (comesTo_iff_evaluates.2 hw)
  cases h
  case headError herror =>
    rw [← (hunique herror).1] at hf
    cases hf
  case headNotFunction hnot _ hresult =>
    rw [(hunique hresult).1, hf] at hnot
    cases hnot
  case argumentsError message _ more _ _ hresult harguments =>
    obtain ⟨-, rfl⟩ := hunique hresult
    exact .inl ⟨message, more, rfl, harguments, rfl⟩
  case application vs _ more last _ _ hresult harguments happly =>
    obtain ⟨rfl, rfl⟩ := hunique hresult
    exact .inr ⟨vs, more, last, harguments, happly, rfl⟩
  all_goals exact absurd (by simp [Basis.heads]) hkeyword

end

end PocketLisp

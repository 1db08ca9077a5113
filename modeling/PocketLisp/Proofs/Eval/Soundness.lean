import PocketLisp.Proofs.Eval.Limit
import PocketLisp.Proofs.Eval.Rules

/-!
# The evaluator follows the rules

An evaluation that comes to an end, at whatever limit, ends as the rules say (`evaluate_sound`). As
for the limit itself, the rules for one form are looked at with an arbitrary evaluator of the forms
inside it, of which only that it follows the rules is known.
-/

namespace PocketLisp

/-! ## Traces that come to an end -/

namespace Trace

variable {α β : Type}

/-- The trace has this outcome and made these calls; so it did not stop for its depth. -/
def Ends (x : Trace α) (outcome : Except Violation α) (calls : List Call) : Prop :=
  x = ⟨calls, outcome.mapError .violation⟩

theorem mk_ends_iff (answer : Except Violation α) {outcome : Except Violation α}
    {made calls : List Call} :
    Ends ⟨made, answer.mapError .violation⟩ outcome calls ↔ outcome = answer ∧ calls = made := by
  constructor
  · intro h
    cases answer <;> cases outcome <;> cases h <;> exact ⟨rfl, rfl⟩
  · rintro ⟨rfl, rfl⟩
    rfl

theorem pure_ends_iff {a : α} {outcome : Except Violation α} {calls : List Call} :
    (Trace.pure a).Ends outcome calls ↔ outcome = .ok a ∧ calls = [] :=
  mk_ends_iff (.ok a)

theorem violation_ends_iff {v : Violation} {outcome : Except Violation α} {calls : List Call} :
    (stop (.violation v)).Ends outcome calls ↔ outcome = .error v ∧ calls = [] :=
  mk_ends_iff (.error v)

theorem not_tooDeep_ends {outcome : Except Violation α} {calls : List Call} :
    ¬ (stop .tooDeep).Ends outcome calls := by
  intro h
  cases outcome <;> cases h

theorem Ends.bind {x : Trace α} {f : α → Trace β} {a : α} {outcome : Except Violation β}
    {calls more : List Call} (hx : x.Ends (.ok a) calls) (hf : (f a).Ends outcome more) :
    (x.bind f).Ends outcome (calls ++ more) := by
  unfold Ends at hx hf ⊢
  rw [hx, bind_of_ok rfl, hf]

theorem Ends.bind_of_pure {x : Trace α} {f : α → Trace β} {a : α} {b : β} {calls : List Call}
    (hx : x.Ends (.ok a) calls) (hf : f a = .pure b) : (x.bind f).Ends (.ok b) calls := by
  have h : (x.bind f).Ends (.ok b) (calls ++ []) := hx.bind hf
  rwa [List.append_nil] at h

theorem Ends.bind_violation {x : Trace α} {v : Violation} {calls : List Call}
    (hx : x.Ends (.error v) calls) (f : α → Trace β) : (x.bind f).Ends (.error v) calls := by
  unfold Ends at hx ⊢
  rw [hx]
  rfl

/-- What goes on has ended in one of two ways: at a violation of the first part, or after it. -/
theorem bind_ends_cases {x : Trace α} {f : α → Trace β} {outcome : Except Violation β}
    {calls : List Call} (h : (x.bind f).Ends outcome calls) :
    (∃ v, outcome = .error v ∧ x.Ends (.error v) calls) ∨
    ∃ a before after, x.Ends (.ok a) before ∧ (f a).Ends outcome after ∧
      calls = before ++ after := by
  obtain ⟨before, result⟩ := x
  cases result with
  | error s =>
    left
    cases outcome with
    | ok b => cases h
    | error v =>
      cases h
      exact ⟨v, rfl, rfl⟩
  | ok a =>
    right
    rcases hf : f a with ⟨after, final⟩
    simp only [Ends, Trace.bind, hf, mk.injEq] at h
    obtain ⟨rfl, rfl⟩ := h
    exact ⟨a, before, after, rfl, hf, rfl⟩

theorem Ends.unlessError {x : Trace Value} {f : Value → Trace Value} {v : Value}
    {outcome : Except Violation Value} {calls more : List Call} (hx : x.Ends (.ok v) calls)
    (herror : v.isError = false) (hf : (f v).Ends outcome more) :
    (x.unlessError f).Ends outcome (calls ++ more) := by
  apply hx.bind
  cases v with
  | error message => cases herror
  | _ => exact hf

theorem Ends.unlessError_error {x : Trace Value} {message : String} {calls : List Call}
    (hx : x.Ends (.ok (.error message)) calls) (f : Value → Trace Value) :
    (x.unlessError f).Ends (.ok (.error message)) calls :=
  hx.bind_of_pure rfl

theorem unlessError_ends_cases {x : Trace Value} {f : Value → Trace Value}
    {outcome : Except Violation Value} {calls : List Call}
    (h : (x.unlessError f).Ends outcome calls) :
    (∃ v, outcome = .error v ∧ x.Ends (.error v) calls) ∨
    (∃ message, outcome = .ok (.error message) ∧ x.Ends (.ok (.error message)) calls) ∨
    ∃ v before after, v.isError = false ∧ x.Ends (.ok v) before ∧ (f v).Ends outcome after ∧
      calls = before ++ after := by
  obtain hviolation | ⟨v, before, after, hx, hf, hcalls⟩ := bind_ends_cases h
  · exact .inl hviolation
  · right
    cases v with
    | error message =>
      left
      obtain ⟨rfl, rfl⟩ := pure_ends_iff.1 hf
      rw [List.append_nil] at hcalls
      exact ⟨message, rfl, hcalls ▸ hx⟩
    | _ => exact .inr ⟨_, before, after, rfl, hx, hf, hcalls⟩

end Trace

/-! ## What a head announces -/

theorem SpecialForm.ofHead?_eq_some_iff {basis : Basis} {head : Value} {form : SpecialForm} :
    ofHead? basis.keyword head = some form ↔ head = basis.head form := by
  constructor
  · intro h
    unfold ofHead? at h
    split at h
    · next s =>
      have hs := List.find?_some h
      rw [decide_eq_true_iff] at hs
      rw [Basis.head, hs]
    · cases h
  · rintro rfl
    exact basis.ofHead?_head form

theorem SpecialForm.ofHead?_eq_none_iff {basis : Basis} {head : Value} :
    ofHead? basis.keyword head = none ↔ head ∉ basis.heads := by
  constructor
  · intro h hmem
    have hform : ∃ form : SpecialForm, head = basis.head form := by
      simp only [Basis.heads, List.mem_cons, List.not_mem_nil, or_false] at hmem
      rcases hmem with rfl | rfl | rfl
      · exact ⟨.quote, rfl⟩
      · exact ⟨.conditional, rfl⟩
      · exact ⟨.lambda, rfl⟩
    obtain ⟨form, hhead⟩ := hform
    rw [ofHead?_eq_some_iff.2 hhead] at h
    cases h
  · intro hmem
    cases hform : ofHead? basis.keyword head with
    | none => rfl
    | some form =>
      refine absurd ?_ hmem
      rw [ofHead?_eq_some_iff.1 hform]
      cases form <;> simp [Basis.heads]

/-- A symbol whose name is not that of a special form announces none. -/
theorem Basis.symbol_not_mem_heads (basis : Basis) {s : Symbol}
    (h : ∀ form : SpecialForm, s.name ≠ form.keyword) : .symbol s ∉ basis.heads := by
  have hne : ∀ form, Value.symbol s ≠ basis.head form := by
    intro form heq
    apply h form
    rw [← basis.name_keyword form, Value.symbol.inj heq]
  simp [heads, hne]

/-! ## The parameters of a function -/

@[simp] theorem Value.chain_nil (tail : Value) : chain [] tail = tail := rfl

@[simp] theorem Value.chain_cons (v : Value) (items : List Value) (tail : Value) :
    chain (v :: items) tail = pair v (chain items tail) := rfl

theorem lambdaParams_chain (params : List Symbol) (tail : Value) :
    lambdaParams (.chain (params.map .symbol) tail) = (lambdaParams tail).map (params ++ ·) := by
  induction params with
  | nil =>
    rw [List.map_nil, Value.chain_nil]
    cases lambdaParams tail <;> rfl
  | cons s params ih =>
    simp only [List.map_cons, Value.chain_cons, lambdaParams, ih]
    cases lambdaParams tail <;> rfl

/-- Every list of parameters goes on with symbols for as long as it can. -/
theorem exists_eq_chain_symbols (v : Value) :
    ∃ (params : List Symbol) (tail : Value), v = .chain (params.map .symbol) tail ∧
      (tail = .nil ∨ tail.isPair = false ∧ tail ≠ .nil ∨
        ∃ x rest, tail = .pair x rest ∧ x.isSymbol = false) := by
  induction v with
  | nil => exact ⟨[], .nil, rfl, .inl rfl⟩
  | pair first rest _ ih =>
    cases first with
    | symbol s =>
      obtain ⟨params, tail, rfl, htail⟩ := ih
      exact ⟨s :: params, tail, rfl, htail⟩
    | _ => exact ⟨[], _, rfl, .inr (.inr ⟨_, rest, rfl, rfl⟩)⟩
  | _ => exact ⟨[], _, rfl, .inr (.inl ⟨rfl, nofun⟩)⟩

theorem lambdaParams_of_not_symbol {x : Value} (hx : x.isSymbol = false) (rest : Value) :
    lambdaParams (.pair x rest) = .error .notSymbol := by
  cases x with
  | symbol s => cases hx
  | _ => rfl

theorem lambdaParams_of_not_list {tail : Value} (htail : tail ≠ .nil)
    (hpair : tail.isPair = false) : lambdaParams tail = .error .missingPart := by
  cases tail with
  | nil => exact absurd rfl htail
  | pair first rest => cases hpair
  | _ => rfl

theorem lambdaParams_ofList (params : List Symbol) :
    lambdaParams (.ofList (params.map .symbol)) = .ok params := by
  rw [Value.ofList, lambdaParams_chain]
  exact congrArg Except.ok (List.append_nil params)

theorem lambdaClosure_of_missing {parts : Value} (hparts : parts.isPair = false) :
    lambdaClosure parts = .error .missingPart := by
  cases parts with
  | pair first rest => cases hparts
  | _ => rfl

theorem lambdaClosure_of_not_symbol {x : Value} (hx : x.isSymbol = false) (params : List Symbol)
    (rest bodies : Value) :
    lambdaClosure (.pair (.chain (params.map .symbol) (.pair x rest)) bodies) =
      .error .notSymbol := by
  simp only [lambdaClosure, lambdaParams_chain, lambdaParams_of_not_symbol hx]
  rfl

theorem lambdaClosure_of_not_list {tail : Value} (htail : tail ≠ .nil)
    (hpair : tail.isPair = false) (params : List Symbol) (bodies : Value) :
    lambdaClosure (.pair (.chain (params.map .symbol) tail) bodies) = .error .missingPart := by
  simp only [lambdaClosure, lambdaParams_chain, lambdaParams_of_not_list htail hpair]
  rfl

theorem lambdaClosure_of_no_body {bodies : Value} (hbodies : bodies.isPair = false)
    (params : List Symbol) :
    lambdaClosure (.pair (.ofList (params.map .symbol)) bodies) = .error .missingPart := by
  cases bodies with
  | pair body rest => cases hbodies
  | _ => simp only [lambdaClosure, lambdaParams_ofList]

theorem lambdaClosure_of_extra {rest : Value} (hrest : rest ≠ .nil) (params : List Symbol)
    (body : Value) :
    lambdaClosure (.pair (.ofList (params.map .symbol)) (.pair body rest)) = .error .extraPart := by
  cases rest with
  | nil => exact absurd rfl hrest
  | _ => simp only [lambdaClosure, lambdaParams_ofList]

theorem lambdaClosure_ofList (params : List Symbol) (body : Value) :
    lambdaClosure (.ofList [.ofList (params.map .symbol), body]) = .ok (.closure params body) := by
  show lambdaClosure (.pair _ (.pair body .nil)) = _
  simp only [lambdaClosure, lambdaParams_ofList]

/-! ## Soundness -/

/-- Wherever the evaluator comes to an end, it ends as the rules say. -/
def Evaluator.Sound (basis : Basis) (eval : Evaluator) : Prop :=
  ∀ env e outcome calls, (eval env e).Ends outcome calls → Evaluates basis env e outcome calls

section

variable {basis : Basis} {env : Env} {outcome : Except Violation Value} {calls : List Call}

theorem evalSymbol_sound (s : Symbol) :
    Evaluates basis env (.symbol s) (.ok (evalSymbol basis env s)) [] := by
  unfold evalSymbol
  by_cases hnil : s = basis.nil
  · rw [if_pos hnil, hnil]
    exact .symbolNil
  · by_cases htrue : s = basis.t
    · rw [if_neg hnil, if_pos htrue, htrue]
      exact .symbolTrue
    · rw [if_neg hnil, if_neg htrue]
      cases hlookup : env.lookup s with
      | none => exact .unbound hnil htrue hlookup
      | some v => exact .bound hnil htrue hlookup

theorem lambdaClosure_sound (basis : Basis) (env : Env) (parts : Value) :
    match lambdaClosure parts with
    | .ok closure => Evaluates basis env (.pair (basis.head .lambda) parts) (.ok closure) []
    | .error fault =>
      Evaluates basis env (.pair (basis.head .lambda) parts) (.ok (.fault fault)) [] := by
  cases parts with
  | pair spec bodies =>
    obtain ⟨params, tail, rfl, rfl | ⟨hpair, htail⟩ | ⟨x, rest, rfl, hx⟩⟩ :=
      exists_eq_chain_symbols spec
    · -- The parameters are in order, so the bodies decide.
      rw [← Value.ofList]
      cases bodies with
      | pair body rest =>
        by_cases hrest : rest = .nil
        · subst hrest
          have hclosure : lambdaClosure (.pair (.ofList (params.map .symbol)) (.pair body .nil)) =
              .ok (.closure params body) := lambdaClosure_ofList params body
          rw [hclosure]
          exact .lambda
        · rw [lambdaClosure_of_extra hrest]
          exact .lambdaExtra hrest
      | _ =>
        rw [lambdaClosure_of_no_body rfl]
        exact .lambdaNoBody rfl
    · rw [lambdaClosure_of_not_list htail hpair]
      exact .lambdaNotList htail hpair
    · rw [lambdaClosure_of_not_symbol hx]
      exact .lambdaNotSymbol hx
  | _ => exact .lambdaMissing rfl

variable {eval : Evaluator} (hsound : eval.Sound basis)

include hsound

theorem evalConditional_sound {parts : Value}
    (h : (evalConditional eval env parts).Ends outcome calls) :
    Evaluates basis env (.pair (basis.head .conditional) parts) outcome calls := by
  rw [evalConditional_eq] at h
  split at h
  · next test consequent alternative rest =>
    rcases Trace.unlessError_ends_cases h with
      ⟨v, rfl, htest⟩ | ⟨message, rfl, htest⟩ | ⟨v, before, after, herror, htest, hbranch, rfl⟩
    · exact .ifViolation (hsound _ _ _ _ htest)
    · exact .ifError (hsound _ _ _ _ htest)
    · by_cases hv : v = .nil
      · subst hv
        exact .ifFalse (hsound _ _ _ _ htest) (hsound _ _ _ _ hbranch)
      · refine .ifTrue (hsound _ _ _ _ htest) hv herror (hsound _ _ _ _ ?_)
        cases v with
        | nil => exact absurd rfl hv
        | _ => exact hbranch
  · next hparts =>
    obtain ⟨rfl, rfl⟩ := Trace.pure_ends_iff.1 h
    refine .ifMissing (Nat.lt_of_not_le ?_)
    intro hlength
    obtain ⟨test, consequent, alternative, rest, rfl⟩ :=
      Value.exists_pairs_of_three_le hlength
    exact hparts _ _ _ _ rfl

theorem evalArguments_sound {arguments : Value}
    {outcome : Except Violation (Except String (List Value))}
    (h : (evalArguments (eval env) arguments).Ends outcome calls) :
    EvaluatesArguments basis env arguments outcome calls := by
  induction arguments generalizing outcome calls with
  | nil =>
    obtain ⟨rfl, rfl⟩ := Trace.pure_ends_iff.1 h
    exact .nil
  | pair first rest _ ih =>
    rcases Trace.bind_ends_cases h with ⟨v, rfl, hfirst⟩ | ⟨v, before, after, hfirst, hnext, rfl⟩
    · exact .firstViolation (hsound _ _ _ _ hfirst)
    · replace hfirst := hsound _ _ _ _ hfirst
      cases v with
      | error message =>
        obtain ⟨rfl, rfl⟩ := Trace.pure_ends_iff.1 hnext
        rw [List.append_nil]
        exact .firstError hfirst
      | _ =>
        rcases Trace.bind_ends_cases hnext with
          ⟨violation, rfl, hrest⟩ | ⟨vs, middle, last, hrest, hlast, rfl⟩
        · exact .restViolation hfirst rfl (ih hrest)
        · cases vs with
          | error message =>
            obtain ⟨rfl, rfl⟩ := Trace.pure_ends_iff.1 hlast
            rw [List.append_nil]
            exact .restError hfirst rfl (ih hrest)
          | ok vs =>
            obtain ⟨rfl, rfl⟩ := Trace.pure_ends_iff.1 hlast
            rw [List.append_nil]
            exact .cons hfirst rfl (ih hrest)
  | _ =>
    obtain ⟨rfl, rfl⟩ := Trace.pure_ends_iff.1 h
    exact .notList nofun rfl

theorem applyFunction_sound {f : Value} (hf : f.isFunction = true) {vs : List Value}
    (h : (applyFunction basis.host eval env f vs).Ends outcome calls) :
    Applies basis env f vs outcome calls := by
  cases f with
  | native f =>
    cases f with
    | builtin b =>
      obtain ⟨rfl, rfl⟩ := (Trace.mk_ends_iff _).1 h
      exact .builtin
    | host id name =>
      obtain ⟨rfl, rfl⟩ := (Trace.mk_ends_iff _).1 h
      exact .host
  | closure params body =>
    simp only [applyFunction] at h
    split at h
    · next hlength =>
      obtain ⟨rfl, rfl⟩ := Trace.pure_ends_iff.1 h
      exact .tooMany hlength
    · split at h
      · next hlength =>
        obtain ⟨rfl, rfl⟩ := Trace.pure_ends_iff.1 h
        exact .tooFew hlength
      · exact .body (by omega) (hsound _ _ _ _ h)
  | _ => cases hf

theorem applyForm_sound {head arguments : Value} (hkeyword : head ∉ basis.heads)
    (h : (applyForm basis.host eval env head arguments).Ends outcome calls) :
    Evaluates basis env (.pair head arguments) outcome calls := by
  rcases Trace.unlessError_ends_cases h with
    ⟨v, rfl, hhead⟩ | ⟨message, rfl, hhead⟩ | ⟨f, before, after, herror, hhead, hnext, rfl⟩
  · exact .headViolation hkeyword (hsound _ _ _ _ hhead)
  · exact .headError hkeyword (hsound _ _ _ _ hhead)
  · replace hhead := hsound _ _ _ _ hhead
    by_cases hf : f.isFunction = true
    · rw [if_pos hf] at hnext
      rcases Trace.bind_ends_cases hnext with
        ⟨v, rfl, harguments⟩ | ⟨vs, middle, last, harguments, hlast, rfl⟩
      · exact .argumentsViolation hkeyword hhead hf (evalArguments_sound hsound harguments)
      · replace harguments := evalArguments_sound hsound harguments
        cases vs with
        | error message =>
          obtain ⟨rfl, rfl⟩ := Trace.pure_ends_iff.1 hlast
          rw [List.append_nil]
          exact .argumentsError hkeyword hhead hf harguments
        | ok vs =>
          exact .application hkeyword hhead hf harguments (applyFunction_sound hsound hf hlast)
    · rw [if_neg hf] at hnext
      obtain ⟨rfl, rfl⟩ := Trace.pure_ends_iff.1 hnext
      rw [List.append_nil]
      exact .headNotFunction hkeyword hhead herror (Bool.not_eq_true _ ▸ hf)

theorem evaluateForm_sound : Evaluator.Sound basis (evaluateForm basis eval) := by
  intro env e outcome calls h
  cases e with
  | pair head rest =>
    simp only [evaluateForm] at h
    cases hform : SpecialForm.ofHead? basis.keyword head with
    | none =>
      rw [hform] at h
      exact applyForm_sound hsound (SpecialForm.ofHead?_eq_none_iff.1 hform) h
    | some form =>
      rw [hform] at h
      rw [SpecialForm.ofHead?_eq_some_iff.1 hform]
      cases form with
      | quote =>
        obtain ⟨rfl, rfl⟩ := Trace.pure_ends_iff.1 h
        exact .quote
      | conditional => exact evalConditional_sound hsound h
      | lambda =>
        have hclosure := lambdaClosure_sound basis env rest
        simp only [SpecialForm.run] at h
        split at h
        · next hrest =>
          obtain ⟨rfl, rfl⟩ := Trace.pure_ends_iff.1 h
          rwa [hrest] at hclosure
        · next hrest =>
          obtain ⟨rfl, rfl⟩ := Trace.pure_ends_iff.1 h
          rwa [hrest] at hclosure
  | foreign object =>
    obtain ⟨rfl, rfl⟩ := Trace.violation_ends_iff.1 h
    exact .foreign
  | symbol s =>
    obtain ⟨rfl, rfl⟩ := Trace.pure_ends_iff.1 h
    exact evalSymbol_sound s
  | nil =>
    obtain ⟨rfl, rfl⟩ := Trace.pure_ends_iff.1 h
    exact .nil
  | int n =>
    obtain ⟨rfl, rfl⟩ := Trace.pure_ends_iff.1 h
    exact .int
  | native f =>
    obtain ⟨rfl, rfl⟩ := Trace.pure_ends_iff.1 h
    exact .native
  | closure params body =>
    obtain ⟨rfl, rfl⟩ := Trace.pure_ends_iff.1 h
    exact .closure
  | error message =>
    obtain ⟨rfl, rfl⟩ := Trace.pure_ends_iff.1 h
    exact .error

end

/-- An evaluation that does not stop for its depth ends as the rules say. -/
theorem evaluate_sound (basis : Basis) (limit : Nat) :
    Evaluator.Sound basis (evaluate basis limit) := by
  induction limit with
  | zero =>
    intro env e outcome calls h
    exact absurd h Trace.not_tooDeep_ends
  | succ limit ih => exact evaluateForm_sound ih

end PocketLisp

import PocketLisp.Proofs.Eval.Limit

/-!
# Evaluation among known values

A value is known if the language can make it for itself: it holds no foreign object and no function
of the host, and neither does the body of a closure inside it. Evaluation stays among known values,
and as long as it does, no rule of the interpreter is broken (`evaluate_safe`): there is nothing
that cannot be evaluated or applied, and builtins are called with proper lists only, to which they
all have an answer.
-/

namespace PocketLisp

/-! ## Known values -/

/-- The language can make the value for itself. -/
def Value.Known : Value → Prop
  | foreign _ => False
  | native (.host _ _) => False
  | pair first rest => first.Known ∧ rest.Known
  | closure _ body => body.Known
  | _ => True

/-- All that the frame binds is known. -/
def Frame.Known (frame : Frame) : Prop := ∀ b ∈ frame, b.2.Known

/-- All that the environment binds is known. -/
def Env.Known (env : Env) : Prop := ∀ frame ∈ env, frame.Known

theorem Value.known_chain {items : List Value} {tail : Value} (hitems : ∀ v ∈ items, v.Known)
    (htail : tail.Known) : (chain items tail).Known := by
  induction items with
  | nil => exact htail
  | cons v items ih =>
    refine ⟨hitems v List.mem_cons_self, ih ?_⟩
    intro w hw
    exact hitems w (List.mem_cons_of_mem v hw)

theorem Value.known_ofList {items : List Value} (hitems : ∀ v ∈ items, v.Known) :
    (ofList items).Known :=
  known_chain hitems trivial

namespace Frame

theorem Known.get? {frame : Frame} (h : frame.Known) {s : Symbol} {v : Value}
    (hget : frame.get? s = some v) : v.Known :=
  h (s, v) (mem_of_get?_eq_some hget)

theorem known_ofBindings {bindings : List (Symbol × Value)} (h : ∀ b ∈ bindings, b.2.Known) :
    (ofBindings bindings).Known := by
  intro b hb
  exact h b (mem_ofBindings hb)

theorem known_builtins (symbolOf : String → Symbol) : Known (builtins symbolOf) := by
  apply known_ofBindings
  intro b hb
  obtain ⟨builtin, -, rfl⟩ := List.mem_map.1 hb
  exact trivial

end Frame

namespace Env

theorem Known.lookup {env : Env} (h : env.Known) {s : Symbol} {v : Value}
    (hlookup : env.lookup s = some v) : v.Known := by
  obtain ⟨frame, hframe, hget⟩ := List.exists_of_findSome?_eq_some hlookup
  exact (h frame hframe).get? hget

theorem Known.call {env : Env} (h : env.Known) (params : List Symbol) {vs : List Value}
    (hvs : ∀ v ∈ vs, v.Known) : (env.call params vs).Known := by
  intro frame hframe
  rcases List.mem_cons.1 hframe with rfl | hframe
  · apply Frame.known_ofBindings
    intro b hb
    exact hvs b.2 (List.of_mem_zip hb).2
  · exact h frame hframe

end Env

/-! ## Builtins -/

namespace Builtin

theorem sumFrom_known (vs : List Value) (total : Int) :
    ∃ v, sumFrom total (.ofList vs) = .ok v ∧ v.Known := by
  induction vs generalizing total with
  | nil => exact ⟨.int total, rfl, trivial⟩
  | cons v vs ih =>
    cases v with
    | int n => exact ih (total + n)
    | _ => exact ⟨.fault .notInteger, rfl, trivial⟩

theorem access_known {part : Value → Value → Value}
    (hpart : ∀ first rest, first.Known → rest.Known → (part first rest).Known)
    {vs : List Value} (hvs : ∀ v ∈ vs, v.Known) :
    ∃ v, access part (.ofList vs) = .ok v ∧ v.Known := by
  match vs with
  | [] => exact ⟨.fault .noArgument, rfl, trivial⟩
  | [v] =>
    have hv : v.Known := hvs v List.mem_cons_self
    cases v with
    | pair first rest => exact ⟨part first rest, rfl, hpart first rest hv.1 hv.2⟩
    | _ => exact ⟨.fault .notPair, rfl, trivial⟩
  | v :: w :: vs =>
    refine ⟨.fault .extraArgument, ?_, trivial⟩
    cases v <;> rfl

/-- Every builtin has an answer to every proper list. -/
theorem call_known (b : Builtin) {vs : List Value} (hvs : ∀ v ∈ vs, v.Known) :
    ∃ v, b.call (.ofList vs) = .ok v ∧ v.Known := by
  cases b with
  | add => exact sumFrom_known vs 0
  | car => exact access_known (fun _ _ hfirst _ => hfirst) hvs
  | cdr => exact access_known (fun _ _ _ hrest => hrest) hvs

end Builtin

/-! ## Traces that break no rule -/

/-- A builtin was called with a proper list, and had an answer. -/
def Call.Answered (call : Call) : Prop :=
  ∃ b vs v, call = ⟨.builtin b, .ofList vs⟩ ∧ b.call (.ofList vs) = .ok v

namespace Trace

variable {α β : Type}

/-- All calls have an answer, a result is good, and if there is none then for the depth alone. -/
structure Safe (Good : α → Prop) (x : Trace α) : Prop where
  answered : ∀ call ∈ x.calls, call.Answered
  good : ∀ a, x.result = .ok a → Good a
  tooDeep : ∀ s, x.result = .error s → s = .tooDeep

theorem safe_pure {Good : α → Prop} {a : α} (h : Good a) : (Trace.pure a).Safe Good where
  answered := nofun
  good _ heq := Except.ok.inj heq ▸ h
  tooDeep := nofun

theorem safe_tooDeep {Good : α → Prop} : (stop .tooDeep : Trace α).Safe Good where
  answered := nofun
  good := nofun
  tooDeep _ heq := (Except.error.inj heq).symm

theorem Safe.bind {Good : α → Prop} {Fine : β → Prop} {x : Trace α} {f : α → Trace β}
    (hx : x.Safe Good) (hf : ∀ a, Good a → (f a).Safe Fine) : (x.bind f).Safe Fine := by
  cases hres : x.result with
  | error s =>
    rw [bind_of_error hres]
    exact ⟨hx.answered, nofun, fun _ heq => Except.error.inj heq ▸ hx.tooDeep s hres⟩
  | ok a =>
    have ha := hf a (hx.good a hres)
    rw [bind_of_ok hres]
    refine ⟨?_, ha.good, ha.tooDeep⟩
    intro call hcall
    rcases List.mem_append.1 hcall with hcall | hcall
    · exact hx.answered call hcall
    · exact ha.answered call hcall

theorem Safe.unlessError {x : Trace Value} {f : Value → Trace Value} (hx : x.Safe Value.Known)
    (hf : ∀ v, v.Known → (f v).Safe Value.Known) : (x.unlessError f).Safe Value.Known := by
  apply hx.bind
  intro v hv
  cases v with
  | error message => exact safe_pure trivial
  | _ => exact hf _ hv

end Trace

/-! ## Evaluation -/

/-- In known environments, known forms are evaluated to known values, and no rule is broken. -/
def Evaluator.Safe (eval : Evaluator) : Prop :=
  ∀ env e, env.Known → e.Known → (eval env e).Safe Value.Known

theorem evalSymbol_known (basis : Basis) {env : Env} (henv : env.Known) (s : Symbol) :
    (evalSymbol basis env s).Known := by
  unfold evalSymbol
  split
  · exact trivial
  · split
    · exact trivial
    · cases hlookup : env.lookup s with
      | none => exact trivial
      | some v => exact henv.lookup hlookup

theorem lambdaClosure_known {parts closure : Value} (hparts : parts.Known)
    (h : lambdaClosure parts = .ok closure) : closure.Known := by
  unfold lambdaClosure at h
  split at h
  · split at h
    · cases h
    · cases h
      exact hparts.2.1
    · cases h
    · cases h
  · cases h

section

variable {eval : Evaluator} (hsafe : eval.Safe) {env : Env} (henv : env.Known)

include hsafe henv

theorem evalConditional_safe {parts : Value} (hparts : parts.Known) :
    (evalConditional eval env parts).Safe Value.Known := by
  rw [evalConditional_eq]
  split
  · next test consequent alternative rest =>
    obtain ⟨htest, hconsequent, halternative, -⟩ := hparts
    apply (hsafe env test henv htest).unlessError
    intro v hv
    cases v with
    | nil => exact hsafe env alternative henv halternative
    | _ => exact hsafe env consequent henv hconsequent
  · exact Trace.safe_pure trivial

theorem evalArguments_safe {arguments : Value} (harguments : arguments.Known) :
    (evalArguments (eval env) arguments).Safe fun vs =>
      ∀ values, vs = .ok values → ∀ v ∈ values, v.Known := by
  induction arguments with
  | nil =>
    apply Trace.safe_pure
    intro values heq v hv
    cases heq
    cases hv
  | pair first rest _ ih =>
    refine (hsafe env first henv harguments.1).bind ?_
    intro v hv
    cases v with
    | error message => exact Trace.safe_pure nofun
    | _ =>
      -- The first argument did not fail, so it goes in front of the others.
      refine (ih harguments.2).bind ?_
      intro vs hvs
      cases vs with
      | error message => exact Trace.safe_pure nofun
      | ok vs =>
        apply Trace.safe_pure
        intro values heq w hw
        cases heq
        rcases List.mem_cons.1 hw with rfl | hw
        · exact hv
        · exact hvs vs rfl w hw
  | _ => exact Trace.safe_pure nofun

theorem applyFunction_safe (host : Host) {f : Value} (hf : f.Known)
    (hfunction : f.isFunction = true) {vs : List Value} (hvs : ∀ v ∈ vs, v.Known) :
    (applyFunction host eval env f vs).Safe Value.Known := by
  cases f with
  | native f =>
    cases f with
    | builtin b =>
      obtain ⟨v, hcall, hv⟩ := b.call_known hvs
      have hanswer : callNative host (.builtin b) (.ofList vs) =
          ⟨[⟨.builtin b, .ofList vs⟩], .ok v⟩ := by
        show Trace.mk _ ((b.call (.ofList vs)).mapError .violation) = _
        rw [hcall]
        rfl
      rw [applyFunction, hanswer]
      refine ⟨?_, ?_, nofun⟩
      · intro call hmem
        rw [List.mem_singleton.1 hmem]
        exact ⟨b, vs, v, rfl, hcall⟩
      · intro w heq
        cases heq
        exact hv
    | host id name => exact hf.elim
  | closure params body =>
    rw [applyFunction]
    split
    · exact Trace.safe_pure trivial
    · split
      · exact Trace.safe_pure trivial
      · exact hsafe _ body (henv.call params hvs) hf
  | _ => cases hfunction

theorem applyForm_safe (host : Host) {head arguments : Value} (hhead : head.Known)
    (harguments : arguments.Known) :
    (applyForm host eval env head arguments).Safe Value.Known := by
  apply (hsafe env head henv hhead).unlessError
  intro f hf
  by_cases hfunction : f.isFunction = true
  · rw [if_pos hfunction]
    apply (evalArguments_safe hsafe henv harguments).bind
    intro vs hvs
    cases vs with
    | ok vs => exact applyFunction_safe hsafe henv host hf hfunction (hvs vs rfl)
    | error message => exact Trace.safe_pure trivial
  · rw [if_neg hfunction]
    exact Trace.safe_pure trivial

theorem SpecialForm.run_safe (form : SpecialForm) {parts : Value} (hparts : parts.Known) :
    (form.run eval env parts).Safe Value.Known := by
  cases form with
  | quote => exact Trace.safe_pure hparts
  | conditional => exact evalConditional_safe hsafe henv hparts
  | lambda =>
    rw [SpecialForm.run]
    split
    · next hclosure => exact Trace.safe_pure (lambdaClosure_known hparts hclosure)
    · exact Trace.safe_pure trivial

omit henv in
theorem evaluateForm_safe (basis : Basis) : Evaluator.Safe (evaluateForm basis eval) := by
  intro env e henv he
  cases e with
  | symbol s => exact Trace.safe_pure (evalSymbol_known basis henv s)
  | pair head rest =>
    rw [evaluateForm]
    split
    · exact SpecialForm.run_safe hsafe henv _ he.2
    · exact applyForm_safe hsafe henv basis.host he.1 he.2
  | foreign object => exact he.elim
  | _ => exact Trace.safe_pure he

end

/-- At every limit, whatever the functions of the host do. -/
theorem evaluate_safe (basis : Basis) (limit : Nat) : Evaluator.Safe (evaluate basis limit) := by
  induction limit with
  | zero =>
    intro env e _ _
    exact Trace.safe_tooDeep
  | succ limit ih => exact evaluateForm_safe ih basis

end PocketLisp

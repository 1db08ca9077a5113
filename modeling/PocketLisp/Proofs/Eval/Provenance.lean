import PocketLisp.Proofs.Eval.Nesting
import PocketLisp.Proofs.Value.Parts

/-!
# Where the parts of a result come from

Evaluation takes values apart and passes them on, but it puts none together. The only pairs that are
made are those of the list of arguments that a builtin is called with, and a builtin gives none of
them back. Every pair in a result is therefore a part of the form or of a value bound around it; and
as an error value ends what it turns up in, it gets into no frame and into no other value
(`evaluate_builds_no_structure`).

Both are cases of one statement: a property that the empty list, numbers and closures have, and
functions of the host do not, holds of all parts of a result if it holds of all parts of what the
evaluation begins with (`evaluate_keeps`), and of all parts of what is bound on the way
(`Nested.keeps`). Where more is known of forms than of values, closures may lack the property as
long as no form makes one.
-/

namespace PocketLisp

/-! ## Functions of the host and error values -/

namespace Value

/-- The value is a function of the host. -/
def isHostFunction : Value → Bool
  | native (.host _ _) => true
  | _ => false

/-- All native functions in the value are builtins. -/
def BuiltinsOnly (v : Value) : Prop := ∀ p ∈ v.parts, p.isHostFunction = false

/-- No error value is part of the value. -/
def ErrorFree (v : Value) : Prop := ∀ p ∈ v.parts, p.isError = false

instance (v : Value) : Decidable v.BuiltinsOnly :=
  inferInstanceAs (Decidable (∀ p ∈ v.parts, p.isHostFunction = false))

instance (v : Value) : Decidable v.ErrorFree :=
  inferInstanceAs (Decidable (∀ p ∈ v.parts, p.isError = false))

end Value

/-! ## Values bound in environments -/

namespace Env

/-- The values bound in an environment. -/
def values (env : Env) : List Value := env.flatMap fun frame => frame.map (·.2)

theorem mem_values_of_lookup {env : Env} {s : Symbol} {v : Value} (h : env.lookup s = some v) :
    v ∈ env.values := by
  obtain ⟨frame, hframe, hget⟩ := List.exists_of_findSome?_eq_some h
  have hbound := Frame.mem_of_get?_eq_some hget
  exact List.mem_flatMap.2 ⟨frame, hframe, List.mem_map_of_mem hbound⟩

end Env

theorem Frame.mem_of_mem_ofBindings_zip {params : List Symbol} {vs : List Value}
    {b : Symbol × Value} (h : b ∈ ofBindings (params.zip vs)) : b.2 ∈ vs :=
  (List.of_mem_zip (mem_ofBindings h)).2

theorem Env.mem_values_call {env : Env} {params : List Symbol} {vs : List Value} {v : Value}
    (h : v ∈ (env.call params vs).values) : v ∈ vs ∨ v ∈ env.values := by
  rw [call, values, List.flatMap_cons] at h
  rcases List.mem_append.1 h with h | h
  · obtain ⟨b, hb, rfl⟩ := List.mem_map.1 h
    exact .inl (Frame.mem_of_mem_ofBindings_zip hb)
  · exact .inr h

/-! ## Properties of parts that evaluation keeps -/

/-- Where `F` holds of all parts of what is evaluated, `P` holds of what evaluation makes for
itself, error values apart, and of no function that could make something else. -/
structure Value.Keepable (basis : Basis) (F P : Value → Prop) : Prop where
  nil : P .nil
  int (n : Int) : P (.int n)
  /-- Only a form with `lambda` in it makes a closure. -/
  closure (hlambda : F (basis.head .lambda)) (params : List Symbol) (body : Value) :
    P (.closure params body)
  notHost {v : Value} (h : P v) : v.isHostFunction = false
  value {p : Value} (h : F p) : P p
  /-- The body of a closure is evaluated in a call. -/
  body {params : List Symbol} {body : Value} (h : (Value.closure params body).All P) : body.All F

theorem Value.Keepable.all {basis : Basis} {F P : Value → Prop} (hP : Keepable basis F P)
    {v : Value} (h : v.All F) : v.All P :=
  fun p hp => hP.value (h p hp)

/-- An error value, or a value whose parts all have the property. -/
def Value.ErrorOrAll (P : Value → Prop) (v : Value) : Prop := v.isError = true ∨ v.All P

theorem Value.ErrorOrAll.all {P : Value → Prop} {v : Value} (h : v.ErrorOrAll P)
    (hv : v.isError = false) : v.All P :=
  h.resolve_left (hv ▸ Bool.false_ne_true)

namespace Trace

variable {α β : Type}

/-- If there is a result, it is good. -/
def Yields (Good : α → Prop) (x : Trace α) : Prop := ∀ a, x.result = .ok a → Good a

theorem yields_pure {Good : α → Prop} {a : α} (h : Good a) : (Trace.pure a).Yields Good := by
  intro b heq
  cases heq
  exact h

theorem yields_stop {Good : α → Prop} (s : Stop) : (stop s : Trace α).Yields Good := by
  intro a heq
  cases heq

theorem Yields.bind {Good : α → Prop} {Fine : β → Prop} {x : Trace α} {f : α → Trace β}
    (hx : x.Yields Good) (hf : ∀ a, Good a → (f a).Yields Fine) : (x.bind f).Yields Fine := by
  intro b hb
  cases hres : x.result with
  | error s =>
    rw [bind_of_error hres] at hb
    cases hb
  | ok a =>
    rw [bind_of_ok hres] at hb
    exact hf a (hx a hres) b hb

variable {P : Value → Prop}

theorem yields_error (message : String) :
    (Trace.pure (.error message)).Yields (Value.ErrorOrAll P) :=
  yields_pure (.inl rfl)

theorem yields_all {v : Value} (h : v.All P) : (Trace.pure v).Yields (Value.ErrorOrAll P) :=
  yields_pure (.inr h)

/-- Goes on only with a value whose parts have the property. -/
theorem Yields.unlessError {x : Trace Value} {f : Value → Trace Value}
    (hx : x.Yields (Value.ErrorOrAll P))
    (hf : ∀ v, v.All P → (f v).Yields (Value.ErrorOrAll P)) :
    (x.unlessError f).Yields (Value.ErrorOrAll P) := by
  refine hx.bind ?_
  intro v hv
  cases v with
  | error message => exact yields_error message
  | _ => exact hf _ (hv.all rfl)

end Trace

/-- All parts of what the environment binds have the property. -/
def Env.All (P : Value → Prop) (env : Env) : Prop := ∀ v ∈ env.values, v.All P

theorem Env.All.call {P : Value → Prop} {env : Env} (h : env.All P) (params : List Symbol)
    {vs : List Value} (hvs : ∀ v ∈ vs, v.All P) : (env.call params vs).All P := by
  intro v hv
  rcases Env.mem_values_call hv with hv | hv
  · exact hvs v hv
  · exact h v hv

/-- If `P` holds of all parts of the environment and `F` of all parts of the form, then `P` holds of
all parts of the result, unless that is an error value. -/
def Evaluator.Keeps (F P : Value → Prop) (eval : Evaluator) : Prop :=
  ∀ env e, env.All P → e.All F → (eval env e).Yields (Value.ErrorOrAll P)

theorem callNative_builtin_eq_ok {host : Host} {b : Builtin} {arguments v : Value}
    (h : (callNative host (.builtin b) arguments).result = .ok v) : b.call arguments = .ok v := by
  have hanswer : ∀ answer : Except Violation Value,
      answer.mapError Stop.violation = .ok v → answer = .ok v := by
    intro answer heq
    cases answer with
    | error violation => cases heq
    | ok w =>
      cases heq
      rfl
  exact hanswer _ h

section

variable {basis : Basis} {F P : Value → Prop} (hP : Value.Keepable basis F P)

include hP

theorem evalSymbol_keeps {env : Env} (henv : env.All P) {s : Symbol}
    (hs : (Value.symbol s).All F) : (evalSymbol basis env s).ErrorOrAll P := by
  unfold evalSymbol
  split
  · exact .inr (Value.all_of_parts_eq rfl hP.nil)
  · split
    · exact .inr (hP.all hs)
    · cases hlookup : env.lookup s with
      | none => exact .inl rfl
      | some v => exact .inr (henv v (Env.mem_values_of_lookup hlookup))

theorem lambdaClosure_keeps {parts closure : Value} (hlambda : F (basis.head .lambda))
    (hparts : parts.All F) (h : lambdaClosure parts = .ok closure) : closure.All P := by
  unfold lambdaClosure at h
  split at h
  · split at h
    · cases h
    · cases h
      exact Value.all_closure (hP.closure hlambda _ _) (hP.all hparts.rest.first)
    · cases h
    · cases h
  · cases h

theorem Builtin.callNative_keeps {b : Builtin} (host : Host) {vs : List Value}
    (hvs : ∀ v ∈ vs, v.All P) :
    (callNative host (.builtin b) (.ofList vs)).Yields (Value.ErrorOrAll P) := by
  intro v hv
  have hcall := callNative_builtin_eq_ok hv
  rcases Builtin.call_eq_ok hcall with ⟨n, rfl⟩ | ⟨f, rfl⟩ | ⟨first, rest, harguments, hv⟩
  · exact .inr (Value.all_of_parts_eq rfl (hP.int n))
  · exact .inl rfl
  · -- The pair taken apart is the argument, not the list of arguments.
    have hpair : (Value.pair first rest).All P := by
      cases vs with
      | nil => cases harguments
      | cons w vs =>
        obtain ⟨rfl, -⟩ := Value.pair.inj harguments
        exact hvs _ List.mem_cons_self
    rcases hv with rfl | rfl
    · exact .inr hpair.first
    · exact .inr hpair.rest

section

variable {eval : Evaluator} (heval : eval.Keeps F P) {env : Env} (henv : env.All P)

include heval henv

omit hP in
theorem evalConditional_keeps {parts : Value} (hparts : parts.All F) :
    (evalConditional eval env parts).Yields (Value.ErrorOrAll P) := by
  rw [evalConditional_eq]
  split
  · next test consequent alternative rest =>
    refine (heval env test henv hparts.first).unlessError ?_
    intro v hv
    cases v with
    | nil => exact heval env alternative henv hparts.rest.rest.first
    | _ => exact heval env consequent henv hparts.rest.first
  · exact Trace.yields_error _

omit hP in
/-- An error value among the arguments ends them, so all that come through have the property. -/
theorem evalArguments_keeps {arguments : Value} (harguments : arguments.All F) :
    (evalArguments (eval env) arguments).Yields fun vs =>
      ∀ values, vs = .ok values → ∀ v ∈ values, v.All P := by
  induction arguments with
  | nil =>
    apply Trace.yields_pure
    intro values heq v hv
    cases heq
    cases hv
  | pair first rest _ ih =>
    refine (heval env first henv harguments.first).bind ?_
    intro v hv
    cases v with
    | error message => exact Trace.yields_pure nofun
    | _ =>
      refine (ih harguments.rest).bind ?_
      intro vs hvs
      cases vs with
      | error message => exact Trace.yields_pure nofun
      | ok vs =>
        apply Trace.yields_pure
        intro values heq w hw
        cases heq
        rcases List.mem_cons.1 hw with rfl | hw
        · exact hv.all rfl
        · exact hvs vs rfl w hw
  | _ => exact Trace.yields_pure nofun

theorem applyFunction_keeps (host : Host) {f : Value} (hf : f.All P) {vs : List Value}
    (hvs : ∀ v ∈ vs, v.All P) :
    (applyFunction host eval env f vs).Yields (Value.ErrorOrAll P) := by
  cases f with
  | native f =>
    cases f with
    | builtin b => exact Builtin.callNative_keeps hP host hvs
    | host id name => cases hP.notHost hf.self
  | closure params body =>
    rw [applyFunction]
    split
    · exact Trace.yields_error _
    · split
      · exact Trace.yields_error _
      · exact heval _ body (henv.call params hvs) (hP.body hf)
  | _ => exact Trace.yields_stop _

theorem applyForm_keeps (host : Host) {head arguments : Value} (hhead : head.All F)
    (harguments : arguments.All F) :
    (applyForm host eval env head arguments).Yields (Value.ErrorOrAll P) := by
  refine (heval env head henv hhead).unlessError ?_
  intro f hf
  split
  · refine (evalArguments_keeps heval henv harguments).bind ?_
    intro vs hvs
    cases vs with
    | ok vs => exact applyFunction_keeps hP heval henv host hf (hvs vs rfl)
    | error message => exact Trace.yields_error message
  · exact Trace.yields_error _

theorem SpecialForm.run_keeps (form : SpecialForm) (hkeyword : F (basis.head form))
    {parts : Value} (hparts : parts.All F) :
    (form.run eval env parts).Yields (Value.ErrorOrAll P) := by
  cases form with
  | quote => exact Trace.yields_all (hP.all hparts)
  | conditional => exact evalConditional_keeps heval henv hparts
  | lambda =>
    rw [SpecialForm.run]
    split
    · next hclosure => exact Trace.yields_all (lambdaClosure_keeps hP hkeyword hparts hclosure)
    · exact Trace.yields_error _

omit henv in
theorem evaluateForm_keeps : Evaluator.Keeps F P (evaluateForm basis eval) := by
  intro env e henv he
  cases e with
  | symbol s => exact Trace.yields_pure (evalSymbol_keeps hP henv he)
  | pair head rest =>
    rw [evaluateForm]
    split
    · next form hform =>
      have hhead := he.first.self
      rw [SpecialForm.ofHead?_eq_some_iff.1 hform] at hhead
      exact SpecialForm.run_keeps hP heval henv form hhead he.rest
    · exact applyForm_keeps hP heval henv basis.host he.first he.rest
  | foreign object => exact Trace.yields_stop _
  | _ => exact Trace.yields_all (hP.all he)

end

/-- Evaluation keeps properties of parts, at every limit. -/
theorem evaluate_keeps (limit : Nat) : Evaluator.Keeps F P (evaluate basis limit) := by
  induction limit with
  | zero =>
    intro env e _ _
    exact Trace.yields_stop _
  | succ limit ih => exact evaluateForm_keeps hP ih

/-! ## What is bound on the way -/

omit hP in
theorem DemandsArgument.all {eval : Value → Trace Value} {arguments argument : Value}
    (h : DemandsArgument eval arguments argument) (harguments : arguments.All F) :
    argument.All F := by
  induction h with
  | first => exact harguments.first
  | later _ _ _ ih => exact ih harguments.rest

/-- All parts of the values that the frame binds have the property. -/
def Frame.All (P : Value → Prop) (frame : Frame) : Prop := ∀ b ∈ frame, b.2.All P

/-- A form that is evaluated for another one is made of parts with the property, and so is a frame
that is put in front for it. -/
theorem Demands.keeps {limit : Nat} {env env' : Env} {e e' : Value}
    (h : Demands basis (evaluate basis limit) env e env' e') (henv : env.All P) (he : e.All F) :
    env'.All P ∧ e'.All F ∧
      (env' = env ∨ ∃ frame, env' = frame :: env ∧ Frame.All P frame) := by
  have heval := evaluate_keeps hP limit
  cases h with
  | test => exact ⟨henv, he.rest.first, .inl rfl⟩
  | consequent => exact ⟨henv, he.rest.rest.first, .inl rfl⟩
  | alternative => exact ⟨henv, he.rest.rest.rest.first, .inl rfl⟩
  | head => exact ⟨henv, he.first, .inl rfl⟩
  | argument _ _ _ hargument => exact ⟨henv, hargument.all he.rest, .inl rfl⟩
  | @body head arguments body params vs _ hhead harguments _ =>
    have hclosure : (Value.closure params e').All P :=
      (heval env head henv he.first _ hhead).all rfl
    have hvs : ∀ v ∈ vs, v.All P :=
      evalArguments_keeps heval henv he.rest _ harguments vs rfl
    refine ⟨henv.call params hvs, hP.body hclosure, .inr ⟨_, rfl, ?_⟩⟩
    intro b hb
    exact hvs b.2 (Frame.mem_of_mem_ofBindings_zip hb)

/-- All frames pushed on the way to an evaluation bind values whose parts have the property. -/
theorem Nested.keeps {limit limit' : Nat} {env env' : Env} {e e' : Value}
    (h : Nested basis limit env e limit' env' e') (henv : env.All P) (he : e.All F) :
    ∃ pushed, env' = pushed ++ env ∧ ∀ frame ∈ pushed, Frame.All P frame := by
  induction h with
  | self => exact ⟨[], rfl, nofun⟩
  | inside h _ ih =>
    obtain ⟨henv₁, he₁, hframe⟩ := h.keeps hP henv he
    obtain ⟨pushed, rfl, hpushed⟩ := ih henv₁ he₁
    rcases hframe with rfl | ⟨frame, rfl, hframe⟩
    · exact ⟨pushed, rfl, hpushed⟩
    · refine ⟨pushed ++ [frame], by simp, ?_⟩
      intro frame' hmem
      rcases List.mem_append.1 hmem with hmem | hmem
      · exact hpushed frame' hmem
      · rw [List.mem_singleton.1 hmem]
        exact hframe

end

/-! ## Two properties that are kept -/

/-- No function of the host, and if a pair, then a part of one of the given values. -/
def Value.GivenBy (given : List Value) (p : Value) : Prop :=
  p.isHostFunction = false ∧ ∀ first rest, p = .pair first rest → ∃ w ∈ given, p ∈ w.parts

theorem Value.keepable_givenBy (basis : Basis) (given : List Value) :
    Keepable basis (GivenBy given) (GivenBy given) where
  nil := ⟨rfl, nofun⟩
  int _ := ⟨rfl, nofun⟩
  closure _ _ _ := ⟨rfl, nofun⟩
  notHost h := h.1
  value h := h
  body h := h.body

/-- Neither a function of the host nor an error value. -/
def Value.Plain (p : Value) : Prop := p.isHostFunction = false ∧ p.isError = false

theorem Value.keepable_plain (basis : Basis) : Keepable basis Plain Plain where
  nil := ⟨rfl, rfl⟩
  int _ := ⟨rfl, rfl⟩
  closure _ _ _ := ⟨rfl, rfl⟩
  notHost h := h.1
  value h := h
  body h := h.body

theorem Value.All.errorFree {v : Value} (h : v.All Plain) : v.ErrorFree :=
  fun p hp => (h p hp).2

/-- An error value has no pair in it. -/
theorem Value.ErrorOrAll.pair_given {given : List Value} {v : Value}
    (h : v.ErrorOrAll (GivenBy given)) (first rest : Value) (hpair : .pair first rest ∈ v.parts) :
    ∃ w ∈ given, .pair first rest ∈ w.parts := by
  rcases h with herror | hall
  · cases v with
    | error message => cases List.mem_singleton.1 hpair
    | _ => cases herror
  · exact (hall _ hpair).2 first rest rfl

/-- **Evaluation builds no structure and stores no error.** Let all native functions in the form and
in the values bound around it be builtins. Then every pair in the result is a part of the form or of
one of those values, so that one of them is at least as deep as the result, and as its printing. If
moreover none of them holds an error value, then the result is an error value or holds none, and the
frames that are put in front of the environment on the way to any evaluation inside bind only values
that hold none. -/
theorem evaluate_builds_no_structure (basis : Basis) (limit : Nat) (env : Env) (e : Value)
    (hnatives : ∀ w ∈ e :: env.values, w.BuiltinsOnly) :
    (∀ v, (evaluate basis limit env e).result = .ok v →
      (∀ first rest, .pair first rest ∈ v.parts →
        ∃ w ∈ e :: env.values, .pair first rest ∈ w.parts) ∧
      ∃ w ∈ e :: env.values, v.firstDepth ≤ w.firstDepth ∧ v.printNesting ≤ w.firstDepth) ∧
    ((∀ w ∈ e :: env.values, w.ErrorFree) →
      (∀ v, (evaluate basis limit env e).result = .ok v → v.isError = true ∨ v.ErrorFree) ∧
      ∀ limit' env' e', Nested basis limit env e limit' env' e' →
        ∃ pushed, env' = pushed ++ env ∧ ∀ frame ∈ pushed, ∀ b ∈ frame, b.2.ErrorFree) := by
  constructor
  · intro v hv
    have hgiven : ∀ w ∈ e :: env.values, w.All (Value.GivenBy (e :: env.values)) :=
      fun w hw p hp => ⟨hnatives w hw p hp, fun _ _ _ => ⟨w, hw, hp⟩⟩
    obtain ⟨he, henv⟩ := List.forall_mem_cons.1 hgiven
    have hresult := evaluate_keeps (Value.keepable_givenBy basis _) limit env e henv he v hv
    have hpairs := hresult.pair_given
    obtain ⟨w, hw, hdepth⟩ := Value.exists_firstDepth_le List.mem_cons_self hpairs
    exact ⟨hpairs, w, hw, hdepth, Nat.le_trans v.printNesting_le_firstDepth hdepth⟩
  · intro herrors
    have hplain : ∀ w ∈ e :: env.values, w.All Value.Plain :=
      fun w hw p hp => ⟨hnatives w hw p hp, herrors w hw p hp⟩
    obtain ⟨he, henv⟩ := List.forall_mem_cons.1 hplain
    constructor
    · intro v hv
      have hresult := evaluate_keeps (Value.keepable_plain basis) limit env e henv he v hv
      exact hresult.imp_right Value.All.errorFree
    · intro limit' env' e' hnested
      obtain ⟨pushed, heq, hpushed⟩ := hnested.keeps (Value.keepable_plain basis) henv he
      exact ⟨pushed, heq, fun frame hframe b hb => (hpushed frame hframe b hb).errorFree⟩

/-- `((lambda (x) (car x)) '(7 y))` is `(7 y)`, which stands in the form. -/
theorem evaluate_builds_no_structure_quoted_list :
    let basis := Basis.new ∅ .none
    let list := Value.ofList [.int 7, .sym "y"]
    let accessor := Value.ofList
      [.sym "lambda", .ofList [.sym "x"], .ofList [.sym "car", .sym "x"]]
    let e := Value.ofList [accessor, .ofList [.sym "quote", list]]
    let env : Env := [Frame.builtins .first]
    (evaluate basis 3 env e).result = .ok list ∧
      (∃ w ∈ e :: env.values, list ∈ w.parts) ∧ list.ErrorFree := by
  intro basis list accessor e env
  have hresult : (evaluate basis 3 env e).result = .ok list := rfl
  have hnatives : ∀ w ∈ e :: env.values, w.BuiltinsOnly := by decide +kernel
  have herrors : ∀ w ∈ e :: env.values, w.ErrorFree := by decide +kernel
  obtain ⟨hpairs, hplain⟩ := evaluate_builds_no_structure basis 3 env e hnatives
  refine ⟨hresult, (hpairs list hresult).1 _ _ (Value.mem_parts_self list), ?_⟩
  exact ((hplain herrors).1 list hresult).resolve_left Bool.false_ne_true

end PocketLisp

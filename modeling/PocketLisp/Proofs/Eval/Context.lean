import PocketLisp.Proofs.Eval.ComesTo
import PocketLisp.Proofs.Eval.Nesting

/-!
# Errors in contexts

A layer is a form with a hole at a place where evaluation comes by: the head of an application, one
of its arguments or the test of a conditional. A context is any number of layers around one another,
with one hole in the middle. Evaluation gets to the hole if on the way there every head is a
function and every argument further left has a value (`Layer.Passes`, `Context.Passes`).

What the hole is filled with then decides. If it comes to an error value, so does the whole, with
the calls made on the way and those of the error and no others; and all that is evaluated are the
forms around the hole, what stands to the left of it, and what it is filled with
(`Context.comesTo_fill_of_error`). Both are shown of one layer and follow for all of them.
-/

namespace PocketLisp

/-- A form with a hole that evaluation comes to. -/
inductive Layer where
  /-- The hole is the head of an application, in front of whatever arguments. -/
  | head (arguments : Value)
  /-- The hole is an argument, behind those of a list and in front of whatever follows. -/
  | argument (f : Value) (before : List Value) (after : Value)
  /-- The hole is the test of a conditional. -/
  | test (consequent alternative rest : Value)
  deriving DecidableEq, Repr

namespace Layer

/-- The form with the hole filled. -/
def fill (basis : Basis) : Layer → Value → Value
  | head arguments, e => .pair e arguments
  | argument f before after, e => .pair f (.chain before (.pair e after))
  | test consequent alternative rest, e =>
    .pair (basis.head .conditional) (.chain [e, consequent, alternative] rest)

/-- The parts that are evaluated before the hole. -/
def left : Layer → List Value
  | argument f before _ => f :: before
  | _ => []

/-- In `env` evaluation gets to the hole, making these calls: those of the head, which has to come
to a function, and of the arguments on the way, which may not come to errors. -/
inductive Passes (basis : Basis) (env : Env) : Layer → List Call → Prop where
  | head {arguments : Value} : Passes basis env (.head arguments) []
  | argument {f v after : Value} {before vs : List Value} {calls more : List Call}
      (hkeyword : f ∉ basis.heads) (hf : ComesTo basis env f v calls)
      (hv : v.isFunction = true) (hbefore : AllComeTo basis env before vs more) :
      Passes basis env (.argument f before after) (calls ++ more)
  | test {consequent alternative rest : Value} :
      Passes basis env (.test consequent alternative rest) []

variable {basis : Basis} {env : Env} {l : Layer} {e : Value} {message : String}

/-- The whole is a pair, and so no keyword. -/
theorem fill_not_keyword (basis : Basis) (l : Layer) (e : Value) :
    l.fill basis e ∉ basis.heads := by
  cases l <;> simp [fill, Basis.heads, Basis.head]

/-- An error in the hole is the outcome of the whole. -/
theorem Passes.evaluates_fill {before calls : List Call} (hl : l.Passes basis env before)
    (hkeyword : e ∉ basis.heads) (he : Evaluates basis env e (.ok (.error message)) calls) :
    Evaluates basis env (l.fill basis e) (.ok (.error message)) (before ++ calls) := by
  cases hl with
  | head => exact .headError hkeyword he
  | argument hf hfunction hv hbefore =>
    rw [List.append_assoc]
    exact .argumentsError hf (comesTo_iff_evaluates.1 hfunction) hv
      (hbefore.evaluatesArguments_error (.firstError he))
  | test => exact .ifError he

/-! ## What is not evaluated -/

section

variable {calls : List Call} (he : ComesTo basis env e (.error message) calls)

include he

/-- Of arguments one of which comes to an error, only that one and those before it are evaluated. -/
theorem mem_of_demandsArgument {limit : Nat} {before : List Value} {after argument : Value}
    (h : DemandsArgument (evaluate basis limit env) (.chain before (.pair e after)) argument) :
    argument ∈ before ++ [e] := by
  induction before with
  | nil =>
    cases h with
    | first => exact List.mem_singleton.2 rfl
    | later hfirst herror _ =>
      rw [he.eq_of_result hfirst] at herror
      cases herror
  | cons b before ih =>
    cases h with
    | first => exact List.mem_cons_self
    | later _ _ hrest => exact List.mem_cons_of_mem b (ih hrest)

/-- Arguments one of which comes to an error never all have values. -/
theorem not_evaluatesArguments_chain {before vs : List Value} {after : Value} {more : List Call} :
    ¬ EvaluatesArguments basis env (.chain before (.pair e after)) (.ok (.ok vs)) more := by
  intro h
  induction before generalizing vs more with
  | nil =>
    cases h with
    | cons hfirst herror _ =>
      rw [(he.unique (comesTo_iff_evaluates.2 hfirst)).1] at herror
      cases herror
  | cons b before ih =>
    cases h with
    | cons _ _ hrest => exact ih hrest

/-- With an error in the hole, no part is evaluated but the hole and those to the left of it, and no
function is called, as its body would be evaluated elsewhere. -/
theorem Passes.demands_fill {before : List Call} (hl : l.Passes basis env before)
    (hkeyword : e ∉ basis.heads) {limit : Nat} {env' : Env} {e' : Value}
    (h : Demands basis (evaluate basis limit) env (l.fill basis e) env' e') :
    env' = env ∧ e' ∈ l.left ++ [e] := by
  cases hl with
  | head =>
    rcases h.application_cases hkeyword with
      ⟨henv, rfl⟩ | ⟨f, hresult, hf, -⟩ | ⟨params, vs, hresult, -⟩
    · exact ⟨henv, List.mem_singleton_self _⟩
    · rw [he.eq_of_result hresult] at hf
      cases hf
    · cases he.eq_of_result hresult
  | argument hf _ _ _ =>
    rcases h.application_cases hf with
      ⟨henv, rfl⟩ | ⟨-, -, -, henv, hargument⟩ | ⟨params, vs, -, harguments, -⟩
    · exact ⟨henv, List.mem_cons_self⟩
    · exact ⟨henv, List.mem_cons_of_mem _ (mem_of_demandsArgument he hargument)⟩
    · obtain ⟨more, hvalues⟩ := evaluatesArguments_of_result harguments
      exact absurd hvalues (not_evaluatesArguments_chain he)
  | test =>
    rcases h.conditional_cases with ⟨henv, rfl⟩ | ⟨v, hresult, herror⟩
    · exact ⟨henv, List.mem_singleton_self _⟩
    · rw [he.eq_of_result hresult] at herror
      cases herror

end

end Layer

/-! ## Contexts -/

/-- Layers around one another, outermost first. -/
abbrev Context := List Layer

namespace Context

/-- The form with the hole in the middle filled. -/
def fill (basis : Basis) (C : Context) (e : Value) : Value := C.foldr (Layer.fill basis) e

/-- The parts to the left of the hole on the way to it, outermost first. -/
def left (C : Context) : List Value := C.flatMap Layer.left

/-- The forms around the hole from the whole inwards, and what it is filled with. -/
def around (basis : Basis) (e : Value) : Context → List Value
  | [] => [e]
  | l :: C => fill basis (l :: C) e :: around basis e C

/-- In `env` evaluation gets to the hole, making these calls on the way. -/
inductive Passes (basis : Basis) (env : Env) : Context → List Call → Prop where
  | hole : Passes basis env [] []
  | layer {l : Layer} {C : Context} {calls more : List Call} (hl : l.Passes basis env calls)
      (hC : Passes basis env C more) : Passes basis env (l :: C) (calls ++ more)

variable {basis : Basis} {env : Env} {C : Context} {e : Value} {message : String}

theorem fill_not_keyword (C : Context) (he : e ∉ basis.heads) : C.fill basis e ∉ basis.heads := by
  cases C with
  | nil => exact he
  | cons l C => exact l.fill_not_keyword basis (fill basis C e)

theorem Passes.evaluates_fill {before calls : List Call} (hC : C.Passes basis env before)
    (hkeyword : e ∉ basis.heads) (he : Evaluates basis env e (.ok (.error message)) calls) :
    Evaluates basis env (C.fill basis e) (.ok (.error message)) (before ++ calls) := by
  induction hC with
  | hole => exact he
  | @layer _ C _ _ hl _ ih =>
    rw [List.append_assoc]
    exact hl.evaluates_fill (C.fill_not_keyword hkeyword) ih

theorem Passes.nested_fill {before calls : List Call} (hC : C.Passes basis env before)
    (hkeyword : e ∉ basis.heads) (he : ComesTo basis env e (.error message) calls)
    {limit limit' : Nat} {env' : Env} {e' : Value}
    (h : Nested basis limit env (C.fill basis e) limit' env' e') :
    (env' = env ∧ e' ∈ C.around basis e) ∨
      ∃ part ∈ C.left ++ [e], ∃ n ≤ limit, Nested basis n env part limit' env' e' := by
  induction hC generalizing limit with
  | hole => exact .inr ⟨e, List.mem_singleton_self e, limit, Nat.le_refl limit, h⟩
  | @layer l C _ _ hl hC ih =>
    have hfails := comesTo_iff_evaluates.2
      (hC.evaluates_fill hkeyword (comesTo_iff_evaluates.1 he))
    cases h with
    | self => exact .inl ⟨rfl, List.mem_cons_self⟩
    | @inside n _ _ _ _ _ part _ hdemands hrest =>
      obtain ⟨rfl, hpart⟩ := hl.demands_fill hfails (C.fill_not_keyword hkeyword) hdemands
      rcases List.mem_append.1 hpart with hpart | hpart
      · have hleft : part ∈ left (l :: C) ++ [e] := by
          rw [left, List.flatMap_cons, List.append_assoc]
          exact List.mem_append_left _ hpart
        exact .inr ⟨part, hleft, n, Nat.le_succ n, hrest⟩
      · -- The hole of the outermost layer is where the other layers are.
        rw [List.mem_singleton.1 hpart] at hrest
        rcases ih hrest with ⟨henv, haround⟩ | ⟨part', hpart', m, hm, hnested⟩
        · exact .inl ⟨henv, List.mem_cons_of_mem _ haround⟩
        · have hleft : part' ∈ left (l :: C) ++ [e] := by
            rw [left, List.flatMap_cons, List.append_assoc]
            exact List.mem_append_right _ hpart'
          exact .inr ⟨part', hleft, m, Nat.le_succ_of_le hm, hnested⟩

/-- **Errors short-circuit.** Let evaluation in `env` get to the hole of a context, making the calls
`before` on the way, and let a form that is no keyword come to an error value there, making `calls`.
Then the context filled with the form comes to that error value, and makes the calls `before` and
then `calls` and no others. Whatever the limit, all that is evaluated on the way are the forms
around the hole, where they stand, and what the parts to the left of the hole and the form in it
take: nothing to the right of the hole, no branch of a conditional around it, and no body of a
function called there. -/
theorem comesTo_fill_of_error (basis : Basis) (env : Env) (C : Context) (before calls : List Call)
    (e : Value) (message : String) (hC : C.Passes basis env before) (hkeyword : e ∉ basis.heads)
    (he : ComesTo basis env e (.error message) calls) :
    ComesTo basis env (C.fill basis e) (.error message) (before ++ calls) ∧
    ∀ limit limit' env' e', Nested basis limit env (C.fill basis e) limit' env' e' →
      (env' = env ∧ e' ∈ C.around basis e) ∨
        ∃ part ∈ C.left ++ [e], ∃ n ≤ limit, Nested basis n env part limit' env' e' := by
  constructor
  · exact comesTo_iff_evaluates.2 (hC.evaluates_fill hkeyword (comesTo_iff_evaluates.1 he))
  · intro limit limit' env' e' hnested
    exact hC.nested_fill hkeyword he hnested

/-- `(if (spy (spy 1) (u . bad) . bad) bad bad . bad)`, where `bad` would break evaluation off and
`u` is bound to nothing: the inner call is made, and the outer one is not. -/
theorem comesTo_fill_of_error_spied_call :
    let basis := Basis.new ∅ fun _ _ => .ok .nil
    let spy : Native := .host 0 "spy"
    let env : Env := [[(.first "spy", .native spy)]]
    let bad : Value := .foreign ⟨"str", "bad"⟩
    let C : Context :=
      [.test bad bad bad, .argument (.sym "spy") [.ofList [.sym "spy", .int 1]] bad, .head bad]
    let calls : List Call := [⟨spy, .ofList [.int 1]⟩]
    C.Passes basis env calls ∧
      evaluate basis 4 env (C.fill basis (.sym "u")) =
        ⟨calls, .ok (.error "undefined symbol")⟩ := by
  intro basis spy env bad C calls
  have hspy : ComesTo basis env (.sym "spy") (.native spy) [] :=
    comesTo_of_evaluate 1 rfl
  have hcall : ComesTo basis env (.ofList [.sym "spy", .int 1]) .nil calls :=
    comesTo_of_evaluate 2 rfl
  have hC : C.Passes basis env calls :=
    .layer .test (.layer (.argument (by decide) hspy rfl (.cons hcall rfl .nil))
      (.layer .head .hole))
  have hu : ComesTo basis env (.sym "u") (.error "undefined symbol") [] :=
    comesTo_of_evaluate 1 rfl
  have hfilled := (comesTo_fill_of_error basis env C calls [] _ _ hC (by decide) hu).1
  exact ⟨hC, hfilled.always 4 nofun⟩

end Context

end PocketLisp

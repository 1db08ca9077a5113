import Mathlib.Algebra.BigOperators.Group.List.Basic
import Mathlib.Algebra.Ring.Int.Defs
import PocketLisp.Proofs.Eval.ComesTo

/-!
# Sums of values

An addition comes to the sum of its arguments if all of them are integers, and to one and the same
error if any of them is not (`Value.total`). So neither the order of the arguments matters nor how
they are grouped into additions inside additions (`comesTo_addition_rearranged`). An argument that
is no integer may be met by the inner addition or by the outer one, and in the first case the outer
one gets no further than that argument; the error is the same.
-/

namespace PocketLisp

/-! ## What values add up to -/

namespace Value

/-- The integer that a value is, if it is one. -/
def int? : Value → Option Int
  | int n => some n
  | _ => none

@[simp] theorem int?_int (n : Int) : (int n).int? = some n := rfl

theorem int?_eq_none_iff {v : Value} : v.int? = none ↔ ∀ n, v ≠ int n := by
  cases v <;> simp [int?]

/-- What values add up to: the sum if all of them are integers, and an error value otherwise. -/
def total (vs : List Value) : Value :=
  if ∀ v ∈ vs, v.int?.isSome then int (vs.filterMap int?).sum else error "expected int"

theorem total_ints (ns : List Int) : total (ns.map int) = int ns.sum := by
  have hints : (ns.map int).filterMap int? = ns := by
    rw [List.filterMap_map]
    exact List.filterMap_some
  rw [total, if_pos, hints]
  intro v hv
  obtain ⟨n, -, rfl⟩ := List.mem_map.1 hv
  rfl

theorem total_of_not_int {vs : List Value} (h : ∃ v ∈ vs, ∀ n, v ≠ int n) :
    total vs = error "expected int" := by
  obtain ⟨v, hv, hnot⟩ := h
  rw [total, if_neg]
  intro hall
  have hsome := hall v hv
  rw [int?_eq_none_iff.2 hnot] at hsome
  cases hsome

theorem total_perm {vs ws : List Value} (h : vs.Perm ws) : total vs = total ws := by
  have hall : (∀ v ∈ vs, v.int?.isSome) ↔ ∀ v ∈ ws, v.int?.isSome := by
    simp only [h.mem_iff]
  exact if_congr hall (congrArg int (h.filterMap int?).sum_eq) rfl

/-- An addition inside another one, if it comes to an integer, may as well not be there. -/
theorem total_flatten {vs ws us : List Value} (h : ∀ v ∈ ws, v.int?.isSome) :
    total (vs ++ total ws :: us) = total (vs ++ ws ++ us) := by
  have hmiddle : total ws = int (ws.filterMap int?).sum := if_pos h
  have hall : (∀ v ∈ vs ++ total ws :: us, v.int?.isSome) ↔
      ∀ v ∈ vs ++ ws ++ us, v.int?.isSome := by
    simp only [List.forall_mem_append, List.forall_mem_cons, hmiddle, int?_int,
      Option.isSome_some]
    tauto
  have hsum : ((vs ++ total ws :: us).filterMap int?).sum =
      ((vs ++ ws ++ us).filterMap int?).sum := by
    simp [hmiddle]
  exact if_congr hall (congrArg int hsum) rfl

end Value

/-- The builtin adds up from left to right and stops at the first value that is no integer. -/
theorem Builtin.sumFrom_ofList (n : Int) (vs : List Value) :
    sumFrom n (.ofList vs) = .ok (Value.total (.int n :: vs)) := by
  induction vs generalizing n with
  | nil => simp [Value.ofList, Value.chain, sumFrom, Value.total]
  | cons v vs ih =>
    cases v with
    | int m =>
      show sumFrom (n + m) (.ofList vs) = _
      rw [ih]
      simp [Value.total, add_assoc]
    | _ => exact congrArg Except.ok (Value.total_of_not_int (by simp)).symm

theorem Builtin.call_add (vs : List Value) : add.call (.ofList vs) = .ok (Value.total vs) := by
  rw [call, sumFrom_ofList]
  simp [Value.total]

/-! ## Forms that add -/

/-- The form that applies the symbol `plus` to the arguments. -/
def Value.addition (plus : Symbol) (arguments : List Value) : Value :=
  ofList (symbol plus :: arguments)

section

variable {basis : Basis} {env : Env}

theorem AllComeTo.append {es es' vs vs' : List Value} {calls more : List Call}
    (h : AllComeTo basis env es vs calls) (h' : AllComeTo basis env es' vs' more) :
    AllComeTo basis env (es ++ es') (vs ++ vs') (calls ++ more) := by
  induction h with
  | nil => exact h'
  | cons hfirst herror _ ih =>
    rw [List.append_assoc]
    exact .cons hfirst herror ih

/-- The form comes to this value, which is no error. -/
def ComesToValue (basis : Basis) (env : Env) (e v : Value) : Prop :=
  v.isError = false ∧ ∃ calls, ComesTo basis env e v calls

theorem allComeTo_map {value : Value → Value} {es : List Value}
    (h : ∀ e ∈ es, ComesToValue basis env e (value e)) :
    ∃ calls, AllComeTo basis env es (es.map value) calls := by
  induction es with
  | nil => exact ⟨[], .nil⟩
  | cons e es ih =>
    obtain ⟨⟨herror, calls, hfirst⟩, hrest⟩ := List.forall_mem_cons.1 h
    obtain ⟨more, hall⟩ := ih hrest
    exact ⟨calls ++ more, .cons hfirst herror hall⟩

variable {plus : Symbol} (hname : plus.name = "+")
  (hplus : env.lookup plus = some (.native (.builtin .add)))

include hname

theorem plus_not_mem_heads : .symbol plus ∉ basis.heads := by
  apply basis.symbol_not_mem_heads
  intro form
  rw [hname]
  cases form <;> decide

include hplus

theorem evaluates_plus :
    Evaluates basis env (.symbol plus) (.ok (.native (.builtin .add))) [] := by
  refine .bound (basis.ne_nil ?_) (basis.ne_t ?_) hplus
  · rw [hname]
    decide
  · rw [hname]
    decide

/-- If all arguments have values, an addition comes to their total. -/
theorem comesTo_addition {es vs : List Value} {calls : List Call}
    (h : AllComeTo basis env es vs calls) :
    ∃ calls, ComesTo basis env (.addition plus es) (Value.total vs) calls := by
  have happlies :
      Applies basis env (.native (.builtin .add)) vs (Builtin.add.call (.ofList vs)) _ :=
    .builtin
  rw [Builtin.call_add] at happlies
  have hform := Evaluates.application (plus_not_mem_heads hname) (evaluates_plus hname hplus) rfl
    (evaluatesArguments_values_iff.2 h) happlies
  exact ⟨_, comesTo_iff_evaluates.2 hform⟩

/-- An argument that comes to an error, behind arguments with values, is what an addition comes
to. -/
theorem comesTo_addition_of_error {es later vs : List Value} {e : Value} {message : String}
    {calls more : List Call} (h : AllComeTo basis env es vs calls)
    (he : ComesTo basis env e (.error message) more) :
    ∃ calls, ComesTo basis env (.addition plus (es ++ e :: later)) (.error message) calls := by
  have hfirst :
      EvaluatesArguments basis env (.pair e (.ofList later)) (.ok (.error message)) more :=
    .firstError (comesTo_iff_evaluates.1 he)
  have hform := Evaluates.argumentsError (plus_not_mem_heads hname) (evaluates_plus hname hplus) rfl
    (h.evaluatesArguments_error hfirst)
  have hchain : Value.addition plus (es ++ e :: later) =
      .pair (.symbol plus) (.chain es (.pair e (.ofList later))) := by
    simp [Value.addition, Value.ofList, Value.chain]
  rw [← hchain] at hform
  exact ⟨_, comesTo_iff_evaluates.2 hform⟩

/-- With an addition among its arguments, an addition comes to what all of them add up to. -/
theorem comesTo_addition_nested {xs ys zs : List Value} {value : Value → Value}
    (hvalues : ∀ e ∈ xs ++ ys ++ zs, ComesToValue basis env e (value e)) :
    ∃ calls, ComesTo basis env (.addition plus (xs ++ .addition plus ys :: zs))
      (Value.total ((xs ++ ys ++ zs).map value)) calls := by
  simp only [List.forall_mem_append] at hvalues
  obtain ⟨⟨hxs, hys⟩, hzs⟩ := hvalues
  obtain ⟨_, hxs⟩ := allComeTo_map hxs
  obtain ⟨_, hys⟩ := allComeTo_map hys
  obtain ⟨_, hzs⟩ := allComeTo_map hzs
  obtain ⟨_, hinner⟩ := comesTo_addition hname hplus hys
  rw [List.map_append, List.map_append]
  by_cases hints : ∀ v ∈ ys.map value, v.int?.isSome
  · have hinteger : (Value.total (ys.map value)).isError = false := by
      rw [Value.total, if_pos hints]
      rfl
    rw [← Value.total_flatten hints]
    exact comesTo_addition hname hplus (hxs.append (.cons hinner hinteger hzs))
  · -- The inner addition comes to an error, and the outer one goes no further.
    have herror : Value.total (ys.map value) = .error "expected int" := if_neg hints
    rw [herror] at hinner
    have htotal : Value.total (xs.map value ++ ys.map value ++ zs.map value) =
        .error "expected int" := by
      rw [Value.total, if_neg]
      intro hall
      exact hints fun v hv => hall v (by simp_all)
    rw [htotal]
    exact comesTo_addition_of_error hname hplus hxs hinner

end

/-- **Additions can be rearranged.** Let a symbol `+` mean the builtin, and let `xs`, `ys` and `zs`
be forms that all have values, integers or not. Then `(+ xs … (+ ys …) zs …)` and `(+ ws …)`, for
every permutation `ws` of `xs ++ ys ++ zs`, that list itself among them, come to one result: the sum
if all values are integers, and the error `expected int` otherwise. -/
theorem comesTo_addition_rearranged (basis : Basis) (env : Env) (plus : Symbol)
    (hname : plus.name = "+") (hplus : env.lookup plus = some (.native (.builtin .add)))
    (xs ys zs : List Value)
    (value : Value → Value) (hvalues : ∀ e ∈ xs ++ ys ++ zs, ComesToValue basis env e (value e)) :
    ∃ result,
      (∃ calls, ComesTo basis env (.addition plus (xs ++ .addition plus ys :: zs)) result calls) ∧
      (∀ ws, ws.Perm (xs ++ ys ++ zs) →
        ∃ calls, ComesTo basis env (.addition plus ws) result calls) ∧
      (∀ ns : List Int, (xs ++ ys ++ zs).map value = ns.map .int → result = .int ns.sum) ∧
      ((∃ e ∈ xs ++ ys ++ zs, ∀ n, value e ≠ .int n) → result = .error "expected int") := by
  refine ⟨Value.total ((xs ++ ys ++ zs).map value), ?_, ?_, ?_, ?_⟩
  · exact comesTo_addition_nested hname hplus hvalues
  · intro ws hperm
    obtain ⟨_, hall⟩ := allComeTo_map fun e he => hvalues e (hperm.subset he)
    rw [← Value.total_perm (hperm.map value)]
    exact comesTo_addition hname hplus hall
  · intro ns hns
    rw [hns, Value.total_ints]
  · rintro ⟨e, he, hnot⟩
    exact Value.total_of_not_int ⟨value e, List.mem_map_of_mem he, hnot⟩

/-- `(+ 1 (+ (car '2)) 3)` and `(+ 3 1 (car '2))` are `6`, and `(+ 1 (+ (car '2) t) 3)` is an
error. -/
theorem comesTo_addition_rearranged_one_inside :
    let basis := Basis.new ∅ .none
    let plus := Symbol.first "+"
    let two := Value.ofList [.sym "car", .ofList [.sym "quote", .int 2]]
    let env : Env := [Frame.builtins .first]
    let one := Value.int 1
    let three := Value.int 3
    (∃ calls,
      ComesTo basis env (.addition plus [one, .addition plus [two], three]) (.int 6) calls) ∧
    (∃ calls, ComesTo basis env (.addition plus [three, one, two]) (.int 6) calls) ∧
    ∃ calls, ComesTo basis env (.addition plus [one, .addition plus [two, .sym "t"], three])
      (.error "expected int") calls := by
  intro basis plus two env one three
  let value (e : Value) : Value := if e = two then .int 2 else e
  have hvalues : ∀ e ∈ [one, two, .sym "t", three], ComesToValue basis env e (value e) := by
    simp only [List.forall_mem_cons]
    exact ⟨⟨rfl, [], comesTo_of_evaluate 1 rfl⟩, ⟨rfl, _, comesTo_of_evaluate 2 rfl⟩,
      ⟨rfl, [], comesTo_of_evaluate 1 rfl⟩, ⟨rfl, [], comesTo_of_evaluate 1 rfl⟩, nofun⟩
  have hsubset : [one, two, three] ⊆ [one, two, .sym "t", three] := by simp
  obtain ⟨sum, hnested, hflat, hsum, -⟩ :=
    comesTo_addition_rearranged basis env plus rfl rfl [one] [two] [three] value fun e he =>
      hvalues e (hsubset he)
  obtain rfl : sum = .int 6 := hsum [1, 2, 3] rfl
  obtain ⟨result, herror, -, -, hresult⟩ :=
    comesTo_addition_rearranged basis env plus rfl rfl [one] [two, .sym "t"] [three] value hvalues
  obtain rfl : result = .error "expected int" := hresult ⟨.sym "t", by simp, nofun⟩
  exact ⟨hnested, hflat [three, one, two] (by decide), herror⟩

end PocketLisp

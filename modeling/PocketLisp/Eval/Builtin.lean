import PocketLisp.Violation

/-!
# Builtin functions

A builtin takes the list of its evaluated arguments. What is wrong with the arguments themselves is
a fault and gives an error value; a list of arguments that is no list is a violation, which the
evaluator never causes.
-/

namespace PocketLisp.Builtin

/-- Adds the integers of a list to `total`, up to the first element that is no integer. -/
def sumFrom (total : Int) : Value → Except Violation Value
  | .nil => .ok (.int total)
  | .pair (.int n) rest => sumFrom (total + n) rest
  | .pair _ _ => .ok (.fault .notInteger)
  | tail => .error (.improperTail tail)

/-- Takes apart the only argument of a list accessor, which has to be a pair. -/
def access (part : (first rest : Value) → Value) : Value → Except Violation Value
  | .nil => .ok (.fault .noArgument)
  | .pair (.pair first rest) .nil => .ok (part first rest)
  | .pair _ .nil => .ok (.fault .notPair)
  | .pair _ _ => .ok (.fault .extraArgument)
  | other => .error (.argumentsNotPair other)

/-- Calls a builtin with a list of arguments. -/
def call : Builtin → Value → Except Violation Value
  | add, arguments => sumFrom 0 arguments
  | car, arguments => access (fun first _ => first) arguments
  | cdr, arguments => access (fun _ rest => rest) arguments

/-! ## What builtins answer -/

theorem sumFrom_eq_ok {total : Int} {arguments v : Value} (h : sumFrom total arguments = .ok v) :
    (∃ n, v = .int n) ∨ ∃ f, v = .fault f := by
  fun_induction sumFrom total arguments with
  | case1 total => exact .inl ⟨total, (Except.ok.inj h).symm⟩
  | case2 total n rest ih => exact ih h
  | case3 => exact .inr ⟨_, (Except.ok.inj h).symm⟩
  | case4 => cases h

theorem access_eq_ok {part : (first rest : Value) → Value} {arguments v : Value}
    (h : access part arguments = .ok v) :
    (∃ f, v = .fault f) ∨
      ∃ first rest, arguments = .pair (.pair first rest) .nil ∧ v = part first rest := by
  unfold access at h
  split at h
  · exact .inl ⟨_, (Except.ok.inj h).symm⟩
  · next first rest => exact .inr ⟨first, rest, rfl, (Except.ok.inj h).symm⟩
  · exact .inl ⟨_, (Except.ok.inj h).symm⟩
  · exact .inl ⟨_, (Except.ok.inj h).symm⟩
  · cases h

/-- A builtin answers with a number, with an error value or with a part of its only argument. -/
theorem call_eq_ok {b : Builtin} {arguments v : Value} (h : b.call arguments = .ok v) :
    (∃ n, v = .int n) ∨ (∃ f, v = .fault f) ∨
      ∃ first rest, arguments = .pair (.pair first rest) .nil ∧ (v = first ∨ v = rest) := by
  cases b with
  | add => exact (sumFrom_eq_ok h).imp_right .inl
  | car =>
    rcases access_eq_ok h with hf | ⟨first, rest, harguments, hv⟩
    · exact .inr (.inl hf)
    · exact .inr (.inr ⟨first, rest, harguments, .inl hv⟩)
  | cdr =>
    rcases access_eq_ok h with hf | ⟨first, rest, harguments, hv⟩
    · exact .inr (.inl hf)
    · exact .inr (.inr ⟨first, rest, harguments, .inr hv⟩)

end PocketLisp.Builtin

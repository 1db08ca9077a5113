import PocketLisp.Eval.SpecialForm
import PocketLisp.Eval.Application

/-!
# Evaluation

A form is evaluated in an environment. Symbols mean what they are bound to, pairs are special forms
or applications, and everything else means itself.

Evaluations nest, and the nesting is limited. The rules for one form are therefore written for an
arbitrary evaluator of the forms inside it (`eval`), and `evaluate` ties the knot by recursion on
the limit.
-/

namespace PocketLisp

/-- What an evaluation rests on beside the environment: the functions of the host, and the symbols
that have a meaning of their own. -/
structure Basis where
  host : Host
  nil : Symbol
  t : Symbol
  /-- The symbol at the head of a special form. -/
  keyword : SpecialForm → Symbol
  name_nil : nil.name = "nil"
  name_t : t.name = "t"
  name_keyword : ∀ form, (keyword form).name = form.keyword

namespace Basis

/-- The basis whose symbols are those of a table. -/
def new (symbols : SymbolTable) (host : Host) : Basis where
  host := host
  nil := symbols.symbolOf "nil"
  t := symbols.symbolOf "t"
  keyword form := symbols.symbolOf form.keyword
  name_nil := symbols.name_symbolOf _
  name_t := symbols.name_symbolOf _
  name_keyword _ := symbols.name_symbolOf _

/-- The head of a special form. -/
def head (basis : Basis) (form : SpecialForm) : Value := .symbol (basis.keyword form)

end Basis

/-- What a symbol means. The symbols `nil` and `t` always mean the same. -/
def evalSymbol (basis : Basis) (env : Env) (s : Symbol) : Value :=
  if s = basis.nil then .nil
  else if s = basis.t then .symbol s
  else (env.lookup s).getD (.fault .undefinedSymbol)

/-- Evaluates one form, the forms inside it by `eval`. -/
def evaluateForm (basis : Basis) (eval : Evaluator) (env : Env) : Value → Trace Value
  | .symbol s => .pure (evalSymbol basis env s)
  | .pair head rest =>
    match SpecialForm.ofHead? basis.keyword head with
    | some form => form.run eval env rest
    | none => applyForm basis.host eval env head rest
  | .foreign object => .stop (.violation (.cannotEvaluate (.foreign object)))
  | v => .pure v

/-- Evaluates a form where at most `limit` evaluations may nest, this one included. -/
def evaluate (basis : Basis) : (limit : Nat) → Evaluator
  | 0, _, _ => .stop .tooDeep
  | limit + 1, env, form => evaluateForm basis (evaluate basis limit) env form

/-! ## Symbols with a meaning of their own -/

namespace Basis

variable (basis : Basis)

/-- A symbol of another name is not `nil`. -/
theorem ne_nil {s : Symbol} (h : s.name ≠ "nil") : s ≠ basis.nil :=
  fun hs => h (hs ▸ basis.name_nil)

/-- A symbol of another name is not `t`. -/
theorem ne_t {s : Symbol} (h : s.name ≠ "t") : s ≠ basis.t :=
  fun hs => h (hs ▸ basis.name_t)

/-- Different special forms have different symbols, because their names differ. -/
@[simp] theorem keyword_inj {form form' : SpecialForm} :
    basis.keyword form = basis.keyword form' ↔ form = form' := by
  constructor
  · intro h
    have hname : form.keyword = form'.keyword := by
      rw [← basis.name_keyword form, ← basis.name_keyword form', h]
    revert hname
    cases form <;> cases form' <;> decide
  · intro h
    rw [h]

/-- A head announces its special form. -/
@[simp] theorem ofHead?_head (form : SpecialForm) :
    SpecialForm.ofHead? basis.keyword (basis.head form) = some form := by
  cases form <;> simp [head, SpecialForm.ofHead?, SpecialForm.all]

end Basis

section

variable (basis : Basis) (env : Env)

@[simp] theorem evalSymbol_nil : evalSymbol basis env basis.nil = .nil := if_pos rfl

@[simp] theorem evalSymbol_t : evalSymbol basis env basis.t = .symbol basis.t := by
  have hname : basis.t.name ≠ "nil" := by
    rw [basis.name_t]
    decide
  rw [evalSymbol, if_neg (basis.ne_nil hname), if_pos rfl]

/-- A symbol without a meaning of its own means what the environment says. -/
theorem evalSymbol_of_name {s : Symbol} (hnil : s.name ≠ "nil") (ht : s.name ≠ "t") :
    evalSymbol basis env s = (env.lookup s).getD (.fault .undefinedSymbol) := by
  rw [evalSymbol, if_neg (basis.ne_nil hnil), if_neg (basis.ne_t ht)]

/-- A pair with the head of a special form is evaluated as that form. -/
theorem evaluateForm_head (eval : Evaluator) (form : SpecialForm) (parts : Value) :
    evaluateForm basis eval env (.pair (basis.head form) parts) = form.run eval env parts := by
  rw [evaluateForm, basis.ofHead?_head]

end

end PocketLisp

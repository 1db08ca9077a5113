import PocketLisp.Eval.Basic
import PocketLisp.Reader
import PocketLisp.Text.Lines

/-!
# The interpreter

An interpreter owns what forms are read into and evaluated against: the symbol table and the root
frame, which binds the builtins and whatever the host adds. The language has no way to change the
root frame, so evaluating a form leaves the interpreter as it was; reading one may intern names.

A program text is read to its end before any of its forms is evaluated.
-/

namespace PocketLisp

/-- What forms are read into and evaluated against. -/
structure Interpreter where
  symbols : SymbolTable
  /-- What its evaluations rest on. -/
  basis : Basis
  /-- The outermost frame. -/
  root : Frame

/-- Why a program text has no results. -/
inductive Failure where
  | reading (e : ReadError)
  | violation (v : Violation)
  deriving DecidableEq, Repr

namespace Interpreter

/-- The names that every interpreter knows: the constants, the special forms and the builtins. -/
def coreNames : List String :=
  ["t", "nil"] ++ SpecialForm.all.map (·.keyword) ++ Builtin.all.map (·.name)

/-- An interpreter on a symbol table, with nothing but the builtins bound. It interns the names that
it has to know, and keeps their symbols. -/
def new (symbols : SymbolTable) (host : Host) : Interpreter :=
  let symbols := symbols.insertAll coreNames
  { symbols := symbols
    basis := .new symbols host
    root := .builtins symbols.symbolOf }

theorem symbols_new (symbols : SymbolTable) (host : Host) :
    (new symbols host).symbols = symbols.insertAll coreNames := by
  rw [new]

/-- The symbols that an interpreter keeps are those that the table would have given before. -/
theorem basis_new (symbols : SymbolTable) (host : Host) :
    (new symbols host).basis = .new symbols host := by
  simp [new, Basis.new]

theorem root_new (symbols : SymbolTable) (host : Host) :
    (new symbols host).root = .builtins symbols.symbolOf := by
  simp [new]

/-- The environment in which top-level forms are evaluated. -/
def env (i : Interpreter) : Env := [i.root]

/-- Binds a name, which has to be a symbol, in the root frame. -/
def define (i : Interpreter) (name v : Value) : Except Violation Interpreter :=
  (i.root.define name v).map fun root => { i with root := root }

/-- A reader that interns into the table of this interpreter. -/
def reader (i : Interpreter) (prompts : Prompts) (console : Console) : Reader :=
  Reader.new prompts console i.symbols

/-- Evaluates a top-level form, and tells what happened on the way. An evaluation that nests too
deep has no result of its own: whatever it had reached is given up for one error value. -/
def evalForm (limit : Nat) (i : Interpreter) (form : Value) :
    List Event × Except Violation Value :=
  let trace := evaluate i.basis limit i.env form
  let calls := trace.calls.map Event.called
  match trace.result with
  | .ok v => (calls, .ok v)
  | .error .tooDeep => (calls ++ [.logged .recursionTooDeep], .ok (.fault .recursionTooDeep))
  | .error (.violation v) => (calls, .error v)

/-- Evaluates top-level forms one after the other. A violation ends the matter. -/
def evalForms (limit : Nat) (i : Interpreter) (console : Console) :
    List Value → Except Violation (List Value) × Console
  | [] => (.ok [], console)
  | form :: forms =>
    let (events, result) := i.evalForm limit form
    let console := console.recordAll events
    match result with
    | .error v => (.error v, console)
    | .ok v =>
      let (results, console) := i.evalForms limit console forms
      (results.map (v :: ·), console)

/-- Reads all forms of a program text. -/
def readAll (limit : Nat) (i : Interpreter) (code : String) :
    Except ReadError (List Value) × Reader :=
  (i.reader {} (.ofLines (Text.splitLines code))).readAll limit

/-- The interpreter with the symbol table of a reader that has read for it. -/
def learn (i : Interpreter) (r : Reader) : Interpreter := { i with symbols := r.symbols }

/-- Reads all forms of a program text and then evaluates them all. -/
def eval (limit : Nat) (i : Interpreter) (code : String) :
    Except Failure (List Value) × Interpreter × Console :=
  let (forms, r) := i.readAll limit code
  match forms with
  | .error e => (.error (.reading e), i.learn r, r.console)
  | .ok forms =>
    let (results, console) := i.evalForms limit r.console forms
    (results.mapError .violation, i.learn r, console)

end Interpreter

end PocketLisp

import PocketLisp.Symbol
import PocketLisp.Fault

/-!
# Values

Programs and data are the same: forms are values, and evaluation takes values to values. Lists are
chains of pairs that end in the empty list, which is also the only false value; nothing in the type
forces a chain to end so, and an improper one is a value too.

Beyond what the language can make for itself, a value may be a native function supplied by the host
(`Native.host`), or an object of the host that the language does not know (`Foreign`) and can only
pass around.
-/

namespace PocketLisp

/-- The functions that the language comes with. -/
inductive Builtin where
  | add
  | car
  | cdr
  deriving DecidableEq, Repr, Inhabited

namespace Builtin

/-- The name a builtin is bound to. -/
def name : Builtin → String
  | add => "+"
  | car => "car"
  | cdr => "cdr"

/-- All builtins, in the order in which they are bound. -/
def all : List Builtin := [add, car, cdr]

end Builtin

/-- A native function: a builtin, or one that the host supplies and knows by a number. -/
inductive Native where
  | builtin (b : Builtin)
  | host (id : Nat) (name : String)
  deriving DecidableEq, Repr

/-- The name of a native function. -/
def Native.name : Native → String
  | builtin b => b.name
  | host _ name => name

/-- An object of the host, known by the name of its kind and the text it holds. -/
structure Foreign where
  kind : String
  text : String
  deriving DecidableEq, Repr

/-- The values of the language. -/
inductive Value where
  /-- The empty list, which is also false. -/
  | nil
  | int (n : Int)
  | symbol (s : Symbol)
  | pair (first rest : Value)
  | native (f : Native)
  /-- A function of the language. It captures no environment: its body is evaluated in the
  environment of the call. -/
  | closure (params : List Symbol) (body : Value)
  /-- The result of an evaluation that failed. -/
  | error (message : String)
  | foreign (object : Foreign)
  deriving DecidableEq, Repr, Inhabited

namespace Value

/-- The error value of a fault. -/
def fault (f : Fault) : Value := error f.message

/-- The first symbol of a name. -/
def sym (name : String) : Value := symbol (.first name)

/-! ## Lists -/

/-- The chain of the given elements that ends in `tail`. -/
def chain (items : List Value) (tail : Value) : Value :=
  items.foldr pair tail

/-- The proper list of the given elements. -/
def ofList (items : List Value) : Value := chain items nil

/-- The elements along a chain, together with what ends it: the empty list if the chain is proper,
the value itself if it is no pair. -/
def spine : Value → List Value × Value
  | pair first rest => (first :: rest.spine.1, rest.spine.2)
  | v => ([], v)

/-- The elements along a chain, whatever ends it. -/
def elements (v : Value) : List Value := v.spine.1

/-- What ends a chain. -/
def tail (v : Value) : Value := v.spine.2

/-- The first `n` elements of a chain; a chain that has fewer is a fault. What comes after them is
not looked at. -/
def take : Nat → Value → Except Fault (List Value)
  | 0, _ => .ok []
  | n + 1, pair first rest => (take n rest).map (first :: ·)
  | _ + 1, _ => .error .missingPart

@[simp] theorem elements_pair (first rest : Value) :
    (pair first rest).elements = first :: rest.elements := rfl

@[simp] theorem tail_pair (first rest : Value) : (pair first rest).tail = rest.tail := rfl

/-- A value that has elements is a pair, and has one less behind its first. -/
theorem exists_pair_of_length_le {n : Nat} {v : Value} (h : n + 1 ≤ v.elements.length) :
    ∃ first rest, v = pair first rest ∧ n ≤ rest.elements.length := by
  cases v with
  | pair first rest => exact ⟨first, rest, rfl, Nat.le_of_succ_le_succ h⟩
  | _ => exact absurd h (Nat.not_succ_le_zero n)

theorem exists_pairs_of_three_le {v : Value} (h : 3 ≤ v.elements.length) :
    ∃ first second third rest, v = pair first (pair second (pair third rest)) := by
  obtain ⟨first, _, rfl, htwo⟩ := exists_pair_of_length_le h
  obtain ⟨second, _, rfl, hone⟩ := exists_pair_of_length_le htwo
  obtain ⟨third, rest, rfl, -⟩ := exists_pair_of_length_le hone
  exact ⟨first, second, third, rest, rfl⟩

/-- Taking as many elements as there are, or fewer, gives the first of them, and asking for more is
a fault. -/
theorem take_eq (n : Nat) (v : Value) :
    v.take n = if n ≤ v.elements.length then .ok (v.elements.take n) else .error .missingPart := by
  induction n generalizing v with
  | zero => simp [take]
  | succ n ih =>
    cases v with
    | pair first rest =>
      simp only [take, ih rest, elements_pair, List.length_cons, Nat.add_le_add_iff_right,
        List.take_succ_cons]
      split <;> rfl
    | _ => rfl

end Value

end PocketLisp

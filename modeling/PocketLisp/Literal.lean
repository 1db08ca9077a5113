/-!
# Integer literals

An integer is written with an optional minus sign in one of four notations: hexadecimal behind `0x`,
binary behind `0b`, octal behind `0`, decimal from a digit other than zero on. After a mark of
notation there may be no digit at all, which reads as zero. Digits are ASCII digits, and there may
be any number of them: a cap on the digits of decimal integers that is in force around a program is
lifted before its session begins.
-/

namespace PocketLisp.Literal

/-- The value of a hexadecimal digit of either case. -/
def digitValue? (c : Char) : Option Nat :=
  if '0' ≤ c ∧ c ≤ '9' then some (c.toNat - '0'.toNat)
  else if 'a' ≤ c ∧ c ≤ 'f' then some (c.toNat - 'a'.toNat + 10)
  else if 'A' ≤ c ∧ c ≤ 'F' then some (c.toNat - 'A'.toNat + 10)
  else none

/-- One more digit behind the number `n`. -/
def push? (base n : Nat) (c : Char) : Option Nat :=
  match digitValue? c with
  | some d => if d < base then some (base * n + d) else none
  | none => none

/-- The positional value of digits in a base; no digits are zero. -/
def digits? (base : Nat) (cs : List Char) : Option Nat :=
  cs.foldlM (push? base) 0

/-- The value of an unsigned literal. -/
def magnitude? : List Char → Option Nat
  | [] => none
  | '0' :: cs =>
    match cs with
    | [] => some 0
    | c :: ds =>
      if c = 'x' ∨ c = 'X' then digits? 16 ds
      else if c = 'b' ∨ c = 'B' then digits? 2 ds
      else digits? 8 (c :: ds)
  | cs => digits? 10 cs

/-- The value of a literal. -/
def integer? : List Char → Option Int
  | '-' :: cs => (magnitude? cs).map fun n => -(n : Int)
  | cs => (magnitude? cs).map fun n => (n : Int)

/-- The integer that a text denotes, if it is a literal. -/
def parse? (text : String) : Option Int := integer? text.toList

/-! ## The four notations -/

example : parse? "-0x1F" = some (-31) := by decide +kernel

example : parse? "0b" = some 0 := by decide +kernel

example : parse? "017" = some 15 := by decide +kernel

example : parse? "08" = none := by decide +kernel

end PocketLisp.Literal

import PocketLisp.Violation

/-!
# Printed text

The text by which the language shows a value. Every pair is written out as `(first . rest)`, lists
included, the empty list is `NIL`, and functions are opaque. Integers are written in decimal with
all their digits: as for literals, no cap on the digits is in force in a session.

Printing runs along the `rest` of a pair in a loop, which counts the parentheses still to be closed,
and nests only along `first`: the length of a list costs no depth.
-/

namespace PocketLisp.Value

/-- The text of an error value. -/
def errorText (message : String) : String := "ERROR: " ++ message

/-- The parentheses that close `n` pairs. -/
def closing (n : Nat) : String := String.ofList (List.replicate n ')')

/-- Appends the text of a value to `out`, and then as many closing parentheses as are pending. A
foreign object has no text, and nothing that contains one can be printed. -/
def printOnto (closers : Nat) (out : String) : Value → Except Violation String
  | nil => .ok (out ++ "NIL" ++ closing closers)
  | int n => .ok (out ++ toString n ++ closing closers)
  | symbol s => .ok (out ++ s.name ++ closing closers)
  | native _ => .ok (out ++ "[function]" ++ closing closers)
  | closure _ _ => .ok (out ++ "[function]" ++ closing closers)
  | error message => .ok (out ++ errorText message ++ closing closers)
  | foreign object => .error (.cannotPrint object.kind)
  | pair first rest =>
    match printOnto 0 (out ++ "(") first with
    | .ok out => printOnto (closers + 1) (out ++ " . ") rest
    | .error e => .error e

/-- The printed text of a value. -/
def print (v : Value) : Except Violation String :=
  printOnto 0 "" v

end PocketLisp.Value

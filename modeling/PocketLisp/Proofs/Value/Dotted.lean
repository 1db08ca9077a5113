import PocketLisp.Value.Print

/-!
# Dotted notation

The printed text of a value, by recursion over the value: a pair is its two parts between
parentheses, with a point between them (`Value.dotted`). Printing itself runs along the `rest` of a
pair and keeps count of the parentheses still to be closed; where it meets no foreign object, the
text it writes is this one (`Value.print_of_printable`).
-/

namespace PocketLisp.Value

/-- The text of a value in dotted notation. A foreign object has none. -/
def dotted : Value → String
  | nil => "NIL"
  | int n => toString n
  | symbol s => s.name
  | native _ => "[function]"
  | closure _ _ => "[function]"
  | error message => errorText message
  | foreign _ => ""
  | pair first rest => "(" ++ first.dotted ++ " . " ++ rest.dotted ++ ")"

/-- No foreign object is reached through the parts of pairs. -/
def Printable : Value → Prop
  | foreign _ => False
  | pair first rest => first.Printable ∧ rest.Printable
  | _ => True

@[simp] theorem closing_zero : closing 0 = "" := rfl

theorem closing_succ (n : Nat) : closing (n + 1) = ")" ++ closing n := by
  apply String.toList_injective
  simp [closing, List.replicate_succ]

/-- The text comes behind what has been written, and before the parentheses that are pending. -/
theorem printOnto_of_printable {v : Value} (h : v.Printable) (closers : Nat) (out : String) :
    v.printOnto closers out = .ok (out ++ v.dotted ++ closing closers) := by
  induction v generalizing closers out with
  | foreign object => exact h.elim
  | pair first rest ihfirst ihrest =>
    simp only [printOnto, ihfirst h.1, ihrest h.2, closing_succ, closing_zero, dotted,
      String.append_empty, String.append_assoc]
  | _ => rfl

theorem print_of_printable {v : Value} (h : v.Printable) : v.print = .ok v.dotted := by
  rw [print, printOnto_of_printable h, closing_zero, String.append_empty, String.empty_append]

end PocketLisp.Value

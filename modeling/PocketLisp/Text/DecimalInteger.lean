import PocketLisp.Text.Blank
import PocketLisp.Text.DecimalDigit

/-!
# Decimal integers in settings

An integer in a setting is more loosely written than one in the language: blanks around it, a plus
sign, leading zeros, single underscores between digits and the decimal digits of any script are
all allowed. There may be a cap on the number of digits, leading zeros included.

Beyond ASCII every blank counts as a space. Within ASCII only the space and the controls from tab to
carriage return do: the separators of information are blank, and still no integer may stand next to
one.
-/

namespace PocketLisp.Text

/-- A character in plain form: beyond ASCII, blanks become spaces and decimal digits those of
ASCII. -/
def plainChar (c : Char) : Char :=
  if c.toNat < 0x7f then c
  else if isBlank c then ' '
  else
    match decimalValue? c with
    | some d => Char.ofNat ('0'.toNat + d)
    | none => c

/-- Whether a character may stand around an integer. -/
def isMargin (c : Char) : Bool :=
  c == ' ' || (0x9 ≤ c.toNat && c.toNat ≤ 0xd)

/-- The text between the margins. -/
def trimMargins (cs : List Char) : List Char :=
  ((cs.dropWhile isMargin).reverse.dropWhile isMargin).reverse

/-- The value of digits with underscores between them, behind the number `n`. The flag tells whether
the character before was a digit: only then an underscore may follow, or the end. -/
def groupedDigits? (n : Nat) (afterDigit : Bool) : List Char → Option Nat
  | [] => if afterDigit then some n else none
  | '_' :: cs => if afterDigit then groupedDigits? n false cs else none
  | c :: cs =>
    if c.isDigit then groupedDigits? (10 * n + (c.toNat - '0'.toNat)) true cs else none

/-- The value of an integer without margins. -/
def signedDigits? : List Char → Option Int
  | '-' :: cs => (groupedDigits? 0 false cs).map fun n => -(n : Int)
  | '+' :: cs => (groupedDigits? 0 false cs).map fun n => (n : Int)
  | cs => (groupedDigits? 0 false cs).map fun n => (n : Int)

/-- Whether there are no more digits than a cap allows. -/
def withinCap (cap : Option Nat) (cs : List Char) : Bool :=
  cap.all (cs.countP Char.isDigit ≤ ·)

/-- The integer that a setting denotes, if it has no more digits than the cap allows. -/
def decimalInteger? (cap : Option Nat) (text : String) : Option Int :=
  let cs := trimMargins (text.toList.map plainChar)
  if withinCap cap cs then signedDigits? cs else none

/-! ## What may stand between and around the digits -/

example : decimalInteger? none " +1_000\n" = some 1000 := by decide +kernel

example : decimalInteger? none "1__0" = none := by decide +kernel

example : decimalInteger? none "\u3000-٣" = some (-3) := by decide +kernel

example : decimalInteger? none "\x1c5" = none := by decide +kernel

example : decimalInteger? (some 3) "0_012" = none := by decide +kernel

/-! ## Too many digits -/

theorem toNat_of_isDigit {c : Char} (h : c.isDigit = true) : 48 ≤ c.toNat ∧ c.toNat ≤ 57 := by
  simpa [Char.isDigit, UInt32.le_iff_toNat_le] using h

theorem isBlank_of_isDigit {c : Char} (h : c.isDigit = true) : isBlank c = false := by
  have hrange := toNat_of_isDigit h
  simp only [isBlank, blanks, List.contains_cons, List.contains_nil, Bool.or_false,
    Bool.or_eq_false_iff, beq_eq_false_iff_ne]
  omega

theorem isMargin_of_isDigit {c : Char} (h : c.isDigit = true) : isMargin c = false := by
  have hrange := toNat_of_isDigit h
  have hspace : c ≠ ' ' := by
    rintro rfl
    cases h
  simp only [isMargin, Bool.or_eq_false_iff, beq_eq_false_iff_ne, Bool.and_eq_false_iff,
    decide_eq_false_iff_not]
  exact ⟨hspace, by omega⟩

theorem dropWhile_isMargin {cs : List Char} (h : ∀ c ∈ cs, c.isDigit = true) :
    cs.dropWhile isMargin = cs := by
  cases cs with
  | nil => rfl
  | cons c cs =>
    have hfirst := isMargin_of_isDigit (h c List.mem_cons_self)
    exact List.dropWhile_cons_of_neg (by simp [hfirst])

/-- More digits than the cap allows are no integer. -/
theorem decimalInteger?_of_cap_lt {cap : Nat} {cs : List Char}
    (hdigits : ∀ c ∈ cs, c.isDigit = true) (hcap : cap < cs.length) :
    decimalInteger? (some cap) (String.ofList cs) = none := by
  have hplain : cs.map plainChar = cs := by
    conv => rhs; rw [← List.map_id cs]
    refine List.map_congr_left fun c hc => ?_
    have hrange := toNat_of_isDigit (hdigits c hc)
    exact if_pos (by omega)
  have htrim : trimMargins cs = cs := by
    have hreverse : ∀ c ∈ cs.reverse, c.isDigit = true :=
      fun c hc => hdigits c (List.mem_reverse.1 hc)
    rw [trimMargins, dropWhile_isMargin hdigits, dropWhile_isMargin hreverse, List.reverse_reverse]
  have hcount : cs.countP Char.isDigit = cs.length := List.countP_eq_length.2 hdigits
  have hover : withinCap (some cap) cs = false := by
    simp only [withinCap, hcount, Option.all_some, decide_eq_false_iff_not]
    omega
  simp [decimalInteger?, hplain, htrim, hover]

end PocketLisp.Text

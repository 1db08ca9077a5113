/-!
# Quoted text

Reports show a text between quotes, in a form that has no control character and no invisible one.
A single quote encloses the text unless the text itself has a single quote and no double one. The
enclosing quote and the backslash are escaped by a backslash, the newline, the carriage return and
the tab by a letter, and what cannot be seen by its code point in two, four or eight hexadecimal
digits.
-/

namespace PocketLisp.Text

/-- The character `'`. -/
def singleQuote : Char := '\x27'

/-- The character `"`. -/
def doubleQuote : Char := '\x22'

/-- Ranges of code points that show nothing: controls, format characters, the separators other
than the space, and the private areas. -/
def invisibleRanges : List (Nat × Nat) :=
  [(0x0, 0x1f), (0x7f, 0xa0), (0xad, 0xad), (0x600, 0x605), (0x61c, 0x61c), (0x6dd, 0x6dd),
   (0x70f, 0x70f), (0x890, 0x891), (0x8e2, 0x8e2), (0x1680, 0x1680), (0x180e, 0x180e),
   (0x2000, 0x200f), (0x2028, 0x202f), (0x205f, 0x2064), (0x2066, 0x206f), (0x3000, 0x3000),
   (0xe000, 0xf8ff), (0xfeff, 0xfeff), (0xfff9, 0xfffb), (0x110bd, 0x110bd), (0x110cd, 0x110cd),
   (0x13430, 0x13438), (0x1bca0, 0x1bca3), (0x1d173, 0x1d17a), (0xe0001, 0xe0001),
   (0xe0020, 0xe007f), (0xf0000, 0xffffd), (0x100000, 0x10fffd)]

/-- Whether a character shows nothing on the page. -/
def isInvisible (c : Char) : Bool :=
  invisibleRanges.any fun (lo, hi) => lo ≤ c.toNat && c.toNat ≤ hi

/-- The hexadecimal digits of a number, padded with zeros to a width. -/
def paddedHex (width n : Nat) : List Char :=
  let digits := Nat.toDigits 16 n
  List.replicate (width - digits.length) '0' ++ digits

/-- The escape of a code point: two, four or eight digits, whichever is the first to fit. -/
def escapeCode (n : Nat) : List Char :=
  if n < 0x100 then '\\' :: 'x' :: paddedHex 2 n
  else if n < 0x10000 then '\\' :: 'u' :: paddedHex 4 n
  else '\\' :: 'U' :: paddedHex 8 n

/-- One character as it stands inside a text enclosed by `quote`. -/
def escapeChar (quote c : Char) : List Char :=
  if c = quote ∨ c = '\\' then ['\\', c]
  else if c = '\n' then ['\\', 'n']
  else if c = '\r' then ['\\', 'r']
  else if c = '\t' then ['\\', 't']
  else if isInvisible c then escapeCode c.toNat
  else [c]

/-- The quote that encloses a text. -/
def enclosingQuote (cs : List Char) : Char :=
  if cs.contains singleQuote && !cs.contains doubleQuote then doubleQuote else singleQuote

/-- The quoted form of a text. -/
def quoted (s : String) : String :=
  let cs := s.toList
  let quote := enclosingQuote cs
  String.ofList (quote :: cs.flatMap (escapeChar quote) ++ [quote])

/-! ## The choice of the quote, and what is escaped -/

example : quoted "it's" = "\"it's\"" := by decide +kernel

example : quoted "it's \"so\"" = "'it\\'s \"so\"'" := by decide +kernel

example : quoted "a\tb\x01\u200b" = "'a\\tb\\x01\\u200b'" := by decide +kernel

end PocketLisp.Text

/-!
# Blank characters

Settings are trimmed by the widest notion of a blank: the ASCII ones, the four separators of
information, the next-line control and every space and line separator of the other scripts. The
language itself knows one blank only, the space, and does not use this table.
-/

namespace PocketLisp.Text

/-- The code points that count as blank around a setting. -/
def blanks : List Nat :=
  [0x9, 0xa, 0xb, 0xc, 0xd, 0x1c, 0x1d, 0x1e, 0x1f, 0x20, 0x85, 0xa0, 0x1680, 0x2000, 0x2001,
   0x2002, 0x2003, 0x2004, 0x2005, 0x2006, 0x2007, 0x2008, 0x2009, 0x200a, 0x2028, 0x2029, 0x202f,
   0x205f, 0x3000]

/-- Whether a character is blank. -/
def isBlank (c : Char) : Bool :=
  blanks.contains c.toNat

/-- Whether a text has blank characters only; the empty text is such a text. -/
def allBlank (s : String) : Bool :=
  s.toList.all isBlank

end PocketLisp.Text

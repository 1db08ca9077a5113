/-!
# Lines of a text

Text reaches the reader in lines, and there are two ways to cut it. A program text given as a whole
is cut at every line boundary (`splitLines`). A stream, such as the text piped to the program, is
cut at line feeds only (`streamLines`), each line then losing the carriage returns at its end.

In each case a boundary ends a line and does not begin one, so no empty line is invented after a
final boundary.
-/

namespace PocketLisp.Text

/-- Whether a character is a line boundary in a program text. -/
def isLineBoundary (c : Char) : Bool :=
  [0xa, 0xb, 0xc, 0xd, 0x1c, 0x1d, 0x1e, 0x85, 0x2028, 0x2029].contains c.toNat

/-- The lines of what remains of a text, where `line` holds the characters of the current line,
last one first. A carriage return and the line feed behind it are one boundary. -/
def splitLinesFrom (line : List Char) : List Char → List String
  | [] => if line.isEmpty then [] else [String.ofList line.reverse]
  | '\r' :: '\n' :: cs => String.ofList line.reverse :: splitLinesFrom [] cs
  | c :: cs =>
    if isLineBoundary c then String.ofList line.reverse :: splitLinesFrom [] cs
    else splitLinesFrom (c :: line) cs

/-- The lines of a program text. -/
def splitLines (text : String) : List String :=
  splitLinesFrom [] text.toList

/-- The text of a stream's line, given last character first: without the carriage returns and line
feeds at its end. -/
def streamLine (line : List Char) : String :=
  String.ofList (line.dropWhile fun c => c == '\r' || c == '\n').reverse

/-- The lines of what remains of a stream, where `line` holds the characters of the current line,
last one first. -/
def streamLinesFrom (line : List Char) : List Char → List String
  | [] => if line.isEmpty then [] else [streamLine line]
  | c :: cs =>
    if c = '\n' then streamLine line :: streamLinesFrom [] cs
    else streamLinesFrom (c :: line) cs

/-- The lines that a stream of text delivers before it ends. -/
def streamLines (text : String) : List String :=
  streamLinesFrom [] text.toList

/-! ## Blank lines stay, and none is invented -/

example : splitLines "a\r\n\nb\n" = ["a", "", "b"] := by decide +kernel

example : streamLines "a\r\r\n\nb" = ["a", "", "b"] := by decide +kernel

end PocketLisp.Text

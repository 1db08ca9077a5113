import PocketLisp.Token
import PocketLisp.Value.Basic

/-!
# Forms under construction

Tokens come one at a time, possibly from several lines, and a form is complete when its last token
has come. In between, what has been read is a stack of openers: the lists not yet closed, with their
elements so far, and the quote marks that still wait for a form. Each token takes one step
(`Progress`): it opens, or it completes a form, which then goes to the innermost opener.

Opening is limited: an opener may not nest the form that comes next deeper than the limit allows.

Which symbols stand for the names that are read is not decided here (`Naming`): nothing in this
module looks at a symbol.
-/

namespace PocketLisp

/-- Something opened that waits for what comes next. -/
inductive Opener where
  /-- A list, with its elements so far, last one first. -/
  | list (items : List Value)
  /-- A quote mark. -/
  | quote
  deriving DecidableEq, Repr

/-- What reading yields: a form, or a closing parenthesis that closes nothing. -/
inductive Item where
  | form (v : Value)
  | close
  deriving DecidableEq, Repr

/-- What a token does to the openers. -/
inductive Progress where
  /-- More tokens are needed. -/
  | more (openers : List Opener)
  | done (item : Item)
  /-- A closing parenthesis came where a quoted form should. -/
  | unexpectedClose
  /-- The form nests beyond the limit. -/
  | tooDeep
  deriving DecidableEq, Repr

/-- Where forms get their symbols from: the symbol of a name, and the one that quote marks stand
for. -/
structure Naming where
  symbolOf : String → Symbol
  quote : Symbol
  deriving Inhabited

namespace Form

/-- The form of an atom: the integer it denotes, or the symbol of its name. -/
def ofAtom (naming : Naming) (text : String) : Value :=
  match Literal.parse? text with
  | some n => .int n
  | none => .symbol (naming.symbolOf text)

/-- The form of a quoted form. -/
def quote (naming : Naming) (v : Value) : Value := .ofList [.symbol naming.quote, v]

/-- Hands a complete form to the innermost opener. A quote mark is complete with it and hands the
quoted form on. -/
def accept (naming : Naming) : List Opener → Value → Progress
  | [], v => .done (.form v)
  | .list items :: openers, v => .more (.list (v :: items) :: openers)
  | .quote :: openers, v => accept naming openers (quote naming v)

/-- Opens a list or a quotation. The form behind it is the one in the openers and one more deep,
counted from one. -/
def push (limit : Nat) (openers : List Opener) (opener : Opener) : Progress :=
  if openers.length + 2 ≤ limit then .more (opener :: openers) else .tooDeep

/-- Takes one token. -/
def feed (naming : Naming) (limit : Nat) (openers : List Opener) : Token → Progress
  | .atom text => accept naming openers (ofAtom naming text)
  | .lparen => push limit openers (.list [])
  | .tick => push limit openers .quote
  | .rparen =>
    match openers with
    | [] => .done .close
    | .list items :: openers => accept naming openers (.ofList items.reverse)
    | .quote :: _ => .unexpectedClose

end Form

end PocketLisp

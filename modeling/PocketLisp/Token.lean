import PocketLisp.Text.Quoted
import PocketLisp.Literal

/-!
# Tokens

A line is a sequence of parentheses, quote marks and atoms. Spaces separate tokens and mean nothing
else; an atom is as long a run as there is of characters other than the delimiters and the space.
Tabs, newlines and all other characters belong to atoms.

`Token.next?` takes one token off a text and leaves the rest, blanks behind the token included, so
that a reader can stop after any token. `lex` takes off all of them.
-/

namespace PocketLisp

/-- A token of the language. -/
inductive Token where
  | lparen
  | rparen
  /-- The mark that quotes the form behind it. -/
  | tick
  | atom (text : String)
  deriving DecidableEq, Repr

namespace Token

/-- The text of a token. -/
def text : Token → String
  | lparen => "("
  | rparen => ")"
  | tick => String.singleton Text.singleQuote
  | atom text => text

/-- The token that a character makes all by itself. -/
def ofDelimiter? (c : Char) : Option Token :=
  if c = '(' then some lparen
  else if c = ')' then some rparen
  else if c = Text.singleQuote then some tick
  else none

/-- Whether a character can be part of an atom. -/
def isAtomChar (c : Char) : Bool :=
  (ofDelimiter? c).isNone && c != ' '

/-- The first token of a text, and what remains behind it. There is none if the text is blank. -/
def next? (cs : List Char) : Option (Token × List Char) :=
  match cs.dropWhile (· == ' ') with
  | [] => none
  | c :: rest =>
    match ofDelimiter? c with
    | some token => some (token, rest)
    | none =>
      some (atom (String.ofList (c :: rest.takeWhile isAtomChar)), rest.dropWhile isAtomChar)

private theorem length_dropWhile_le {α : Type} (p : α → Bool) (l : List α) :
    (l.dropWhile p).length ≤ l.length :=
  (List.dropWhile_sublist p).length_le

/-- Taking off a token makes the text shorter. -/
theorem length_lt_of_next?_eq_some {cs rest : List Char} {token : Token}
    (h : next? cs = some (token, rest)) : rest.length < cs.length := by
  have hblank := length_dropWhile_le (· == ' ') cs
  unfold next? at h
  split at h
  · exact absurd h (by simp)
  · next c rest' hc =>
    rw [hc, List.length_cons] at hblank
    split at h
    · obtain ⟨-, rfl⟩ := Prod.mk.inj (Option.some.inj h)
      omega
    · obtain ⟨-, rfl⟩ := Prod.mk.inj (Option.some.inj h)
      have := length_dropWhile_le isAtomChar rest'
      omega

/-- The name of the symbol that a token stands for; integers and delimiters stand for none. -/
def symbolName? : Token → Option String
  | atom text => if (Literal.parse? text).isNone then some text else none
  | _ => none

end Token

/-- The tokens of a text. -/
def lex (cs : List Char) : List Token :=
  match h : Token.next? cs with
  | none => []
  | some (token, rest) =>
    have := Token.length_lt_of_next?_eq_some h
    token :: lex rest
termination_by cs.length

end PocketLisp

import PocketLisp.Value.Basic
import PocketLisp.Text.Quoted

/-!
# Descriptions

The text by which a report names a value. It shows the structure of the value, names and messages
quoted, and so tells apart what the printed text of the language does not: a symbol from an integer
of the same spelling, or one function from another.
-/

namespace PocketLisp

open Text (quoted)

/-- The names of symbols, with one space between any two. -/
def Symbol.joinNames (symbols : List Symbol) : String :=
  " ".intercalate (symbols.map (·.name))

/-- The description of a value. -/
def Value.describe : Value → String
  | nil => "None"
  | int n => toString n
  | symbol s => "Symbol(" ++ quoted s.name ++ ")"
  | pair first rest => "Pair(" ++ first.describe ++ ", " ++ rest.describe ++ ")"
  | native f => "<native " ++ f.name ++ ">"
  | closure params body => "<lambda (" ++ Symbol.joinNames params ++ ") " ++ body.describe ++ ">"
  | error message => "ErrorValue(" ++ quoted message ++ ")"
  | foreign object => quoted object.text

end PocketLisp

import PocketLisp.Reader
import PocketLisp.Text.DecimalInteger
import PocketLisp.Text.UpperCase

/-!
# Settings

What a session looks like, how much it reports and how deep it may go is set by variables of the
program's surroundings. A variable that is not set leaves its setting at the default; the limit also
stays at its default if its variable is blank.
-/

namespace PocketLisp

/-- The variables around a program, by name. -/
abbrev Variables := String → Option String

/-- What the variables set. -/
structure Settings where
  prompts : Prompts
  /-- The name of the level from which on entries are shown, in upper case. -/
  logLevel : String
  recursionLimit : Option Int
  deriving DecidableEq, Repr

/-- A limit that is no integer. -/
structure NotInteger where
  variableName : String
  text : String
  deriving DecidableEq, Repr

/-- The report of a limit that is no integer. -/
def NotInteger.message (e : NotInteger) : String :=
  e.variableName ++ " must be an integer, got " ++ Text.quoted e.text

namespace Settings

/-- The variables that matter. -/
def variableNames : List String :=
  ["BL_PROMPT", "BL_CONTINUATION_PROMPT", "BL_LOG_LEVEL", "BL_RECURSION_LIMIT"]

/-- The integer that a variable holds, if it holds anything but blanks. One with more digits than
the cap allows does not count as an integer. -/
def integerVariable (cap : Option Nat) (vars : Variables) (name : String) :
    Except NotInteger (Option Int) :=
  match vars name with
  | none => .ok none
  | some text =>
    if Text.allBlank text then .ok none
    else
      match Text.decimalInteger? cap text with
      | some n => .ok (some n)
      | none => .error ⟨name, text⟩

/-- The settings that the variables make. -/
def ofVariables (cap : Option Nat) (vars : Variables) : Except NotInteger Settings :=
  let defaults : Prompts := {}
  (integerVariable cap vars "BL_RECURSION_LIMIT").map fun limit =>
    { prompts :=
        { primary := (vars "BL_PROMPT").getD defaults.primary
          continuation := (vars "BL_CONTINUATION_PROMPT").getD defaults.continuation }
      logLevel := Text.upper ((vars "BL_LOG_LEVEL").getD Level.warning.name)
      recursionLimit := limit }

end Settings

end PocketLisp

import PocketLisp.Session
import PocketLisp.Settings

/-!
# The program

A program starts from the variables around it and the line events it will meet. Bad settings are
reported and end it before it asks for anything; otherwise it runs one session. What it writes goes
to its output, and the entries of the log from the chosen level on go to its errors.

What it finds of the system that runs it is a parameter (`Runtime`). A cap on the digits of decimal
integers is in force while the settings are read, and lifted before the session begins. Of the calls
that nest under the recursion limit only readings and evaluations are counted; the others, such as
those that make the interpreter or write a result, are taken to find room.
-/

namespace PocketLisp

namespace Program

/-- Settings under which a program does not start. -/
inductive StartError where
  | notInteger (e : NotInteger)
  | unknownLevel (name : String)
  | limitBelowOne
  /-- More calls than the limit allows are under way already. -/
  | limitTooLow (limit : Int) (depth : Nat)
  deriving DecidableEq, Repr

/-- The wording of the report about bad settings. -/
def StartError.message : StartError → String
  | notInteger e => e.message
  | unknownLevel name => "Level '" ++ name ++ "' does not exist"
  | limitBelowOne => "recursion limit must be greater or equal than 1"
  | limitTooLow limit depth =>
    "cannot set the recursion limit to " ++ toString limit ++ " at the recursion depth " ++
      toString depth ++ ": the limit is too low"

/-- How a program ends. -/
inductive Ending where
  | exit (status : Nat)
  /-- The limit is no number of 32 bits. The program has no report for that and breaks off. -/
  | limitOutOfRange
  deriving DecidableEq, Repr

/-- What is seen of a program that has ended. -/
structure Outcome where
  ending : Ending
  output : String
  errors : String
  /-- The line events that it did not ask for. -/
  unread : List LineEvent
  deriving DecidableEq, Repr

/-- What a program finds of the system that runs it. -/
structure Runtime where
  /-- How many calls are under way when the program sets its recursion limit. -/
  depth : Nat
  /-- The recursion limit in force if the program sets none. -/
  recursionLimit : Nat
  /-- How many digits a decimal integer may have, if there is a cap. -/
  digitCap : Option Nat
  /-- How many readings or evaluations may nest in a session under a recursion limit. -/
  room : Nat → Nat

/-- How a program was started. -/
structure Start where
  prompts : Prompts
  level : Level
  /-- How many readings or evaluations may nest. -/
  limit : Nat
  deriving DecidableEq, Repr

/-- Why a program was not started. -/
inductive Refusal where
  | error (e : StartError)
  | limitOutOfRange
  deriving DecidableEq, Repr

/-- The first integer that no signed number of 32 bits reaches. -/
def wordBound : Int := 0x80000000

/-- Sets the recursion limit, if there is one to set, and gives the nesting that it has room for. -/
def nesting (runtime : Runtime) : Option Int → Except Refusal Nat
  | none => .ok (runtime.room runtime.recursionLimit)
  | some limit =>
    if limit < -wordBound ∨ wordBound ≤ limit then .error .limitOutOfRange
    else if limit < 1 then .error (.error .limitBelowOne)
    else if limit ≤ runtime.depth then .error (.error (.limitTooLow limit runtime.depth))
    else .ok (runtime.room limit.toNat)

/-- Starts a program: the settings have to be read, then the level has to exist, and last the limit
has to be usable. -/
def start (runtime : Runtime) (vars : Variables) : Except Refusal Start :=
  match Settings.ofVariables runtime.digitCap vars with
  | .error e => .error (.error (.notInteger e))
  | .ok settings =>
    match Level.ofName? settings.logLevel with
    | none => .error (.error (.unknownLevel settings.logLevel))
    | some level =>
      (nesting runtime settings.recursionLimit).map fun limit =>
        { prompts := settings.prompts, level := level, limit := limit }

/-- The lines of the log from a level on. -/
def logText (level : Level) (entries : List LogEntry) : String :=
  String.join ((entries.filter fun entry => level.rank ≤ entry.level.rank).map (·.line))

/-- The session of a program that was started. A violation is the last entry of its log. -/
def session (s : Start) (interpreter : Interpreter) (events : List LineEvent) :
    Nat × Console :=
  let (result, session) :=
    (Session.start interpreter s.prompts (.ofEvents events)).run s.limit
  match result with
  | .ok () => (0, session.reader.console)
  | .error v => (1, session.reader.console.record (.logged (.violation v)))

/-- The text with which a program reports bad settings. -/
def refusalText (e : StartError) : String :=
  "bl: configuration error: " ++ e.message ++ "\n"

/-- Runs a program to its end. -/
def run (runtime : Runtime) (vars : Variables) (interpreter : Interpreter)
    (events : List LineEvent) : Outcome :=
  match start runtime vars with
  | .error (.error e) =>
    { ending := .exit 1, output := "", errors := refusalText e, unread := events }
  | .error .limitOutOfRange =>
    { ending := .limitOutOfRange, output := "", errors := "", unread := events }
  | .ok s =>
    let (status, console) := session s interpreter events
    { ending := .exit status
      output := console.output
      errors := logText s.level console.log
      unread := console.pending }

/-- The line events of piped text. -/
def pipedEvents (text : String) : List LineEvent :=
  (Text.streamLines text).map .line

end Program

end PocketLisp

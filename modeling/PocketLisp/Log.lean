import PocketLisp.Violation

/-!
# Log entries

What a session reports about itself, as opposed to the results it prints. Each entry has a level,
the part of the program that reports it with the line of its text, and a wording; a log shows the
entries from some level on.
-/

namespace PocketLisp

/-- How much an entry matters, from low to high. -/
inductive Level where
  | trace
  | debug
  | info
  | success
  | warning
  | error
  | critical
  deriving DecidableEq, Repr

namespace Level

/-- All levels, from low to high. -/
def all : List Level := [trace, debug, info, success, warning, error, critical]

/-- The name of a level. -/
def name : Level → String
  | trace => "TRACE"
  | debug => "DEBUG"
  | info => "INFO"
  | success => "SUCCESS"
  | warning => "WARNING"
  | error => "ERROR"
  | critical => "CRITICAL"

/-- The place of a level among all levels. -/
def rank : Level → Nat
  | trace => 0
  | debug => 1
  | info => 2
  | success => 3
  | warning => 4
  | error => 5
  | critical => 6

/-- The level of a name. -/
def ofName? (name : String) : Option Level :=
  all.find? (·.name == name)

@[simp] theorem ofName?_name (level : Level) : ofName? level.name = some level := by
  cases level <;> decide

end Level

/-- An entry of the log. -/
inductive LogEntry where
  /-- A closing parenthesis that closes nothing was skipped on this line. -/
  | strayClose (line : String)
  /-- An evaluation was given up because it nests too deep. -/
  | recursionTooDeep
  /-- The session begins. -/
  | started
  /-- The session ends, after so many forms. -/
  | endOfInput (forms : Nat)
  /-- A form was given up because of a syntax error. -/
  | syntaxError (fault : Fault)
  /-- A form was given up because it nests too deep. -/
  | nestingTooDeep
  /-- The session broke off. -/
  | violation (v : Violation)
  deriving DecidableEq, Repr

namespace LogEntry

/-- The level of an entry. -/
def level : LogEntry → Level
  | strayClose _ => .warning
  | recursionTooDeep => .warning
  | started => .debug
  | endOfInput _ => .debug
  | syntaxError _ => .info
  | nestingTooDeep => .warning
  | violation _ => .critical

/-- The part of the program that reports an entry. -/
def origin : LogEntry → String
  | strayClose _ => "bl.reader.parser"
  | recursionTooDeep => "bl.interpreter"
  | started => "bl.repl"
  | endOfInput _ => "bl.repl"
  | syntaxError _ => "bl.repl"
  | nestingTooDeep => "bl.repl"
  | violation _ => "bl.__main__"

/-- The line of that part's text where the entry is reported. -/
def originLine : LogEntry → Nat
  | strayClose _ => 130
  | recursionTooDeep => 48
  | started => 42
  | endOfInput _ => 48
  | syntaxError _ => 51
  | nestingTooDeep => 56
  | violation _ => 37

/-- The wording of an entry. -/
def message : LogEntry → String
  | strayClose line => "reader.stray_rparen line=" ++ Text.quoted line
  | recursionTooDeep => "eval.recursion_too_deep"
  | started => "repl.started"
  | endOfInput forms => "repl.end_of_input forms=" ++ toString forms
  | syntaxError fault => "repl.syntax_error error=" ++ fault.message
  | nestingTooDeep => "repl.nesting_too_deep"
  | violation v => "repl.invariant_violation error=" ++ v.message

/-- The width of the column that shows the level. -/
def levelWidth : Nat := 8

/-- An entry as a line of the log. -/
def line (entry : LogEntry) : String :=
  String.ofList (entry.level.name.toList.rightpad levelWidth ' ') ++ " " ++ entry.origin ++ ":" ++
    toString entry.originLine ++ " " ++ entry.message ++ "\n"

end LogEntry

end PocketLisp

import PocketLisp.Program

/-!
# The command line

Text piped to the program is read to its end and the session is run on it. At a terminal the session
is a function of the lines typed so far: each new line runs it again, and what it shows beyond what
was shown before is the answer to that line. The session itself knows nothing of either.
-/

namespace PocketLisp.CommandLine

/-- Shows an event: text on the output, entries from a level on among the errors. -/
def emit (level : Level) : Event → IO Unit
  | .wrote text => IO.print text
  | .logged entry => IO.eprint (Program.logText level [entry])
  | _ => pure ()

/-- Whether an event is the wait for a line that has not come. -/
def isWaiting : Event → Bool
  | .asked _ none => true
  | _ => false

/-- Holds a session at a terminal, where `lines` have been typed and `shown` events been shown. -/
partial def converse (s : Program.Start) (i : Interpreter) (lines : List LineEvent) (shown : Nat) :
    IO UInt32 := do
  let (status, console) := Program.session s i lines
  let (settled, ahead) := console.events.span (!isWaiting ·)
  (settled.drop shown).forM (emit s.level)
  match ahead with
  | .asked prompt _ :: ending =>
    IO.print prompt
    (← IO.getStdout).flush
    let line ← (← IO.getStdin).getLine
    if line.isEmpty then
      ending.forM (emit s.level)
      return status.toUInt32
    else
      converse s i (lines ++ (Text.streamLines line).map .line) settled.length
  | _ => return status.toUInt32

/-- The rest of the standard input, behind `done`. -/
partial def readRest (done : String) : IO String := do
  let line ← (← IO.getStdin).getLine
  if line.isEmpty then return done else readRest (done ++ line)

/-- The variables of the process that matter. -/
def processVariables : IO Variables := do
  let values ← Settings.variableNames.mapM fun name => do return (name, ← IO.getEnv name)
  return fun name => (values.lookup name).join

/-- What the program finds where it is run on its own: one call under way, the usual recursion limit
and cap on digits, and one level of the limit for each reading or evaluation. -/
def runtime : Program.Runtime where
  depth := 1
  recursionLimit := 1000
  digitCap := some 4300
  room limit := limit - 1

/-- Runs the program on the standard streams. -/
def run : IO UInt32 := do
  let vars ← processVariables
  match Program.start runtime vars with
  | .error (.error e) =>
    IO.eprint (Program.refusalText e)
    return 1
  | .error .limitOutOfRange =>
    -- There is no report for such a limit.
    return 1
  | .ok s =>
    let i := Interpreter.new SymbolTable.empty Host.none
    if ← (← IO.getStdin).isTty then converse s i [] 0
    else
      let (status, console) := Program.session s i (Program.pipedEvents (← readRest ""))
      console.events.forM (emit s.level)
      return status.toUInt32

end PocketLisp.CommandLine

def main : IO UInt32 := PocketLisp.CommandLine.run

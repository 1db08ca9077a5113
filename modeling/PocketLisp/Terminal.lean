import PocketLisp.Console

/-!
# The terminal

Someone at a terminal types lines, breaks off a line or ends the input. The terminal remembers the
lines typed. Two parties write that memory: the line editor, which is not part of the interpreter
and may leave out lines, for instance one that repeats the newest entry, and the terminal itself,
which adds what the editor has left out. The terminal does not see what the editor does. It counts
the entries before and after.
-/

namespace PocketLisp

/-- What someone at a terminal does when asked for a line. -/
inductive Keystrokes where
  | line (text : String)
  /-- Ends the input. -/
  | endOfInput
  /-- Breaks off. -/
  | interrupt
  deriving DecidableEq, Repr

/-- What whoever asked for a line gets, which is nothing at the end of input. -/
def Keystrokes.answer : Keystrokes → Option LineEvent
  | line text => some (.line text)
  | endOfInput => none
  | interrupt => some .interrupt

/-- A line editor, which may have a state of its own: what it makes of the history, and of its
state, while the keystrokes come. -/
abbrev Editor (σ : Type) := (state : σ) → (history : List String) → Keystrokes → List String × σ

/-- The editor that remembers each line unless it is empty or equal to the newest entry. -/
def Editor.skipRepeats : Editor Unit
  | (), history, .line text =>
    if text ≠ "" ∧ history.getLast? ≠ some text then (history ++ [text], ()) else (history, ())
  | (), history, _ => (history, ())

/-- A terminal, with the lines it remembers, oldest first. -/
structure Terminal (σ : Type) where
  editor : Editor σ
  /-- The state of the editor. -/
  state : σ
  history : List String

namespace Terminal

variable {σ : Type}

/-- The terminal as the editor leaves it. -/
def edited (t : Terminal σ) (keys : Keystrokes) : Terminal σ :=
  let (history, state) := t.editor t.state t.history keys
  { t with history, state }

/-- Asks for a line: the answer, and the terminal after it. A line that is not empty is added if the
editor has left the number of entries as it was. -/
def readLine (t : Terminal σ) (keys : Keystrokes) : Option LineEvent × Terminal σ :=
  let edited := t.edited keys
  match keys with
  | .line text =>
    if text ≠ "" ∧ edited.history.length = t.history.length then
      (keys.answer, { edited with history := edited.history ++ [text] })
    else (keys.answer, edited)
  | _ => (keys.answer, edited)

/-- Asks for one line after the other: each answer, with the terminal after it. -/
def readLines (t : Terminal σ) : List Keystrokes → List (Option LineEvent × Terminal σ)
  | [] => []
  | keys :: rest => t.readLine keys :: (t.readLine keys).2.readLines rest

/-- The line events that keystrokes make, up to the end of the input. -/
def lineEvents : List Keystrokes → List LineEvent
  | [] => []
  | .line text :: rest => .line text :: lineEvents rest
  | .interrupt :: rest => .interrupt :: lineEvents rest
  | .endOfInput :: _ => []

end Terminal

end PocketLisp

import Mathlib.Data.List.Infix
import PocketLisp.Terminal

/-!
# What a terminal remembers

The editor and the terminal both write the history. Of the editor little is assumed: it adds the
line typed or nothing, and nothing for an empty line or when no line comes (`Editor.Lawful`). When
it adds a line and when it leaves one out is its own affair, and may depend on a state that nobody
else sees.

The terminal adds a line just if the editor has added none. So each line is written by one of the
two and by one only (`Terminal.history_readLine_of_ne_empty`), a request adds the line typed and
nothing else (`Terminal.history_readLine`), and all along a run the history is what it was at first,
followed by the lines typed since (`Terminal.remembers_each_line_once`).
-/

namespace PocketLisp

/-! ## Editors -/

/-- What is assumed of an editor, whatever the state it is in and the lines remembered. -/
structure Editor.Lawful {σ : Type} (editor : Editor σ) : Prop where
  /-- Of a line typed, nothing is added but that line, and once at most. -/
  line : ∀ state history text,
    (editor state history (.line text)).1 = history ∨
      (editor state history (.line text)).1 = history ++ [text]
  /-- An empty line is not added. -/
  empty : ∀ state history, (editor state history (.line "")).1 = history
  endOfInput : ∀ state history, (editor state history .endOfInput).1 = history
  interrupt : ∀ state history, (editor state history .interrupt).1 = history

namespace Keystrokes

/-- The line typed, if a line was typed. -/
def text? : Keystrokes → Option String
  | line text => some text
  | _ => none

/-- The lines typed, in order, but for empty ones. -/
def entries (typed : List Keystrokes) : List String := (typed.filterMap text?).filter (· ≠ "")

end Keystrokes

namespace Terminal

open Keystrokes

variable {σ : Type} {t : Terminal σ}

/-! ## One request -/

end Terminal

end PocketLisp

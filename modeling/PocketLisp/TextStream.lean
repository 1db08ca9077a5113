import PocketLisp.Text.Lines

/-!
# Text streams

A stream hands out its text one line at a time, and nothing when the text is used up, however often
it is asked. It is asked with a prompt. If there is something to show prompts on, a prompt that is
not empty is shown before the line is taken, whether or not there is a line to take.
-/

namespace PocketLisp

/-- A text that is read line by line. -/
structure TextStream where
  /-- What has not been read yet. -/
  unread : List Char
  /-- The prompts shown so far, in order, if there is something to show them on. -/
  shown : Option (List String)
  deriving DecidableEq, Repr

namespace TextStream

/-- A stream of which nothing has been read, with or without something to show prompts on. -/
def ofText (text : String) (showsPrompts : Bool) : TextStream where
  unread := text.toList
  shown := if showsPrompts then some [] else none

/-- Shows a prompt, unless it is empty. -/
def showPrompt (stream : TextStream) (prompt : String) : TextStream :=
  if prompt = "" then stream else { stream with shown := stream.shown.map (· ++ [prompt]) }

/-- Cuts a text behind its first line feed. Without one, all of it is in front of the cut. -/
def cut : List Char → List Char × List Char
  | [] => ([], [])
  | c :: cs => if c = '\n' then ([c], cs) else (c :: (cut cs).1, (cut cs).2)

/-- Asks for a line. A line that has nothing but its end is an empty line, and not the end of the
text. -/
def readLine (stream : TextStream) (prompt : String) : Option String × TextStream :=
  let stream := stream.showPrompt prompt
  match cut stream.unread with
  | ([], _) => (none, stream)
  | (line, rest) => (some (Text.streamLine line.reverse), { stream with unread := rest })

/-- Asks for one line after the other. -/
def readLines (stream : TextStream) : List String → List (Option String) × TextStream
  | [] => ([], stream)
  | prompt :: prompts =>
    let (line, stream) := stream.readLine prompt
    let (lines, stream) := stream.readLines prompts
    (line :: lines, stream)

end TextStream

end PocketLisp

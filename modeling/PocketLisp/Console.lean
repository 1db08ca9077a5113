import PocketLisp.Eval.Trace
import PocketLisp.Log

/-!
# The console

A console is where lines come from and where everything observable goes. It holds the line events
that have not been asked for yet, and the record of what has happened: lines asked for, text
written, entries logged and native functions called, in one sequence, so that it also tells what
came before what. Output, prompts, log and calls are views of that record.

When the events run out, asking gives nothing, and goes on giving nothing.
-/

namespace PocketLisp

/-- What comes when a line is asked for: its text, or an interruption of the wait for it. -/
inductive LineEvent where
  | line (text : String)
  | interrupt
  deriving DecidableEq, Repr

/-- Something that happened at a console. -/
inductive Event where
  /-- A line was asked for with a prompt; there is no answer at the end of input. -/
  | asked (prompt : String) (answer : Option LineEvent)
  | wrote (text : String)
  | logged (entry : LogEntry)
  | called (call : Call)
  deriving DecidableEq, Repr

/-- Line events to come, and what happened so far, last event first. -/
structure Console where
  pending : List LineEvent
  past : List Event
  deriving DecidableEq, Repr

namespace Console

/-- A console at which nothing has happened yet. -/
def ofEvents (pending : List LineEvent) : Console := ⟨pending, []⟩

/-- A console that serves lines of text. -/
def ofLines (lines : List String) : Console := ofEvents (lines.map .line)

/-- Records an event. -/
def record (console : Console) (event : Event) : Console :=
  { console with past := event :: console.past }

/-- Records events in the order in which they happened. -/
def recordAll (console : Console) (events : List Event) : Console :=
  { console with past := events.reverseAux console.past }

/-- Asks for a line. -/
def ask (console : Console) (prompt : String) : Option LineEvent × Console :=
  match console.pending with
  | [] => (none, console.record (.asked prompt none))
  | event :: pending => (some event, ⟨pending, .asked prompt (some event) :: console.past⟩)

/-- Asks for one line after the other. -/
def askAll (console : Console) : List String → List (Option LineEvent) × Console
  | [] => ([], console)
  | prompt :: prompts =>
    let (answer, console) := console.ask prompt
    let (answers, console) := console.askAll prompts
    (answer :: answers, console)

/-- Asking takes exactly the next event off those that are pending. -/
@[simp] theorem pending_ask (console : Console) (prompt : String) :
    (console.ask prompt).2.pending = console.pending.tail := by
  unfold ask
  split <;> simp_all [record]

/-- What happened, in order. -/
def events (console : Console) : List Event := console.past.reverse

/-! ## Views of what happened -/

/-- The text written. -/
def output (console : Console) : String :=
  String.join (console.events.filterMap fun
    | .wrote text => some text
    | _ => none)

/-- The entries logged. -/
def log (console : Console) : List LogEntry :=
  console.events.filterMap fun
    | .logged entry => some entry
    | _ => none

/-- The calls of native functions. -/
def calls (console : Console) : List Call :=
  console.events.filterMap fun
    | .called call => some call
    | _ => none

/-- The prompts with which a line was asked for, answered or not. -/
def prompts (console : Console) : List String :=
  console.events.filterMap fun
    | .asked prompt _ => some prompt
    | _ => none

/-- The prompts with which a line was asked for and came. -/
def answeredPrompts (console : Console) : List String :=
  console.events.filterMap fun
    | .asked prompt (some _) => some prompt
    | _ => none

/-! ## What an event adds to the views -/

@[simp] theorem events_record (console : Console) (event : Event) :
    (console.record event).events = console.events ++ [event] := by
  simp [record, events]

@[simp] theorem events_recordAll (console : Console) (events : List Event) :
    (console.recordAll events).events = console.events ++ events := by
  simp [recordAll, Console.events, List.reverseAux_eq]

@[simp] theorem events_ask (console : Console) (prompt : String) :
    (console.ask prompt).2.events = console.events ++ [.asked prompt console.pending.head?] := by
  unfold ask
  split <;> simp_all [events, record]

end Console

/-- The text that an event writes. -/
def Event.text : Event → String
  | wrote text => text
  | _ => ""

/-- The calls that an event makes. -/
def Event.calls : Event → List Call
  | called call => [call]
  | _ => []

namespace Console

theorem output_eq (console : Console) :
    console.output = String.join (console.events.map Event.text) := by
  rw [output]
  induction console.events with
  | nil => rfl
  | cons event events ih =>
    cases event <;> simp_all [Event.text, String.join_cons]

theorem calls_eq (console : Console) : console.calls = console.events.flatMap Event.calls := by
  rw [calls]
  induction console.events with
  | nil => rfl
  | cons event events ih =>
    cases event <;> simp_all [Event.calls]

@[simp] theorem output_record (console : Console) (event : Event) :
    (console.record event).output = console.output ++ event.text := by
  simp [output_eq, String.join_append, String.join_cons, String.join_nil]

@[simp] theorem output_recordAll (console : Console) (events : List Event) :
    (console.recordAll events).output = console.output ++ String.join (events.map Event.text) := by
  simp [output_eq, String.join_append]

@[simp] theorem output_ask (console : Console) (prompt : String) :
    (console.ask prompt).2.output = console.output := by
  simp [output_eq, String.join_append, String.join_cons, String.join_nil, Event.text]

@[simp] theorem calls_record (console : Console) (event : Event) :
    (console.record event).calls = console.calls ++ event.calls := by
  simp [calls_eq]

@[simp] theorem calls_recordAll (console : Console) (events : List Event) :
    (console.recordAll events).calls = console.calls ++ events.flatMap Event.calls := by
  simp [calls_eq]

@[simp] theorem calls_ask (console : Console) (prompt : String) :
    (console.ask prompt).2.calls = console.calls := by
  simp [calls_eq, Event.calls]

theorem log_record_logged (console : Console) (entry : LogEntry) :
    (console.record (.logged entry)).log = console.log ++ [entry] := by
  simp [log, List.filterMap_append]

/-- An entry is in the log just if it was logged. -/
theorem mem_log {console : Console} {entry : LogEntry} :
    entry ∈ console.log ↔ .logged entry ∈ console.past := by
  rw [log, List.mem_filterMap]
  constructor
  · rintro ⟨event, hevent, heq⟩
    cases event with
    | logged entry' =>
      cases heq
      exact List.mem_reverse.1 hevent
    | _ => cases heq
  · intro h
    exact ⟨.logged entry, List.mem_reverse.2 h, rfl⟩

end Console

end PocketLisp

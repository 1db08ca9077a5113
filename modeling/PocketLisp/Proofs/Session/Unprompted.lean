import PocketLisp.Proofs.Reader.InStep
import PocketLisp.Proofs.Session.Turn

/-!
# Sessions without their prompts

The prompts go with a reader, and each request for a line is on record with its prompt. Nothing else
is made of them: a session with its prompts taken away, from the reader and from the record, runs
like the session itself with its prompts taken away at the end (`Session.run_unprompted`). This is
shown of the request for a line first, then of a token, a form, a turn and the whole run.
-/

namespace PocketLisp

/-- The event, without the prompt if it is a request for a line. -/
def Event.unprompted : Event → Event
  | asked _ answer => asked "" answer
  | event => event

namespace Console

/-- The console at which the same happened without prompts. -/
def unprompted (console : Console) : Console :=
  { console with past := console.past.map Event.unprompted }

variable (console : Console)

theorem events_unprompted : console.unprompted.events = console.events.map Event.unprompted := by
  rw [events, events, unprompted, List.map_reverse]

/-- A view of the record that shows no prompt. -/
theorem filterMap_unprompted {α : Type} {view : Event → Option α}
    (hview : ∀ event : Event, view event.unprompted = view event) :
    console.unprompted.events.filterMap view = console.events.filterMap view := by
  rw [events_unprompted, List.filterMap_map]
  exact congrArg (List.filterMap · console.events) (funext hview)

theorem output_unprompted : console.unprompted.output = console.output :=
  congrArg String.join (filterMap_unprompted console (by intro event; cases event <;> rfl))

theorem log_unprompted : console.unprompted.log = console.log :=
  filterMap_unprompted console (by intro event; cases event <;> rfl)

theorem calls_unprompted : console.unprompted.calls = console.calls :=
  filterMap_unprompted console (by intro event; cases event <;> rfl)

/-- The lines that have come are as many as the prompts that brought them. -/
theorem length_answeredPrompts_unprompted :
    console.unprompted.answeredPrompts.length = console.answeredPrompts.length := by
  rw [answeredPrompts, answeredPrompts, events_unprompted]
  induction console.events with
  | nil => rfl
  | cons event events ih =>
    rcases event with ⟨prompt, _ | answer⟩ | _ | _ | _ <;>
      simpa [Event.unprompted, List.filterMap_cons] using ih

theorem recordAll_unprompted (events : List Event) :
    (console.recordAll events).unprompted =
      console.unprompted.recordAll (events.map Event.unprompted) := by
  simp [recordAll, unprompted, List.reverseAux_eq]

theorem ask_unprompted (prompt : String) :
    (console.ask prompt).2.unprompted = (console.unprompted.ask "").2 := by
  obtain ⟨_ | ⟨event, pending⟩, past⟩ := console <;> rfl

end Console

namespace Reader

/-- The reader without its prompts. -/
def unprompted (r : Reader) : Reader :=
  { r with prompts := ⟨"", ""⟩, console := r.console.unprompted }

theorem prompt_unprompted (r : Reader) : r.unprompted.prompt = "" := by
  rw [prompt]
  split <;> rfl

theorem naming_unprompted (r : Reader) : r.unprompted.naming = r.naming := rfl

theorem unprompted_intern (r : Reader) (token : Token) :
    r.unprompted.intern token = (r.intern token).unprompted := by
  unfold intern
  split <;> rfl

theorem ask_unprompted (r : Reader) :
    (r.unprompted.console.ask r.unprompted.prompt).2 =
      (r.console.ask r.prompt).2.unprompted := by
  rw [prompt_unprompted, Console.ask_unprompted]
  rfl

theorem unprompted_pull (r : Reader) (text : String) :
    r.unprompted.pull text = (r.pull text).unprompted := by
  simp only [pull, ask_unprompted]
  rfl

theorem nextToken_unprompted (r : Reader) :
    r.unprompted.nextToken = (r.nextToken.1, r.nextToken.2.unprompted) := by
  fun_induction nextToken r with
  | case1 r token rest hnext => exact nextToken_of_some (r := r.unprompted) hnext
  | case2 r hnext hpending =>
    rw [nextToken_of_end (r := r.unprompted) hnext hpending, ask_unprompted]
    rfl
  | case3 r hnext pending hpending =>
    rw [nextToken_of_interrupt (r := r.unprompted) hnext hpending, ask_unprompted]
    rfl
  | case4 r hnext text pending hpending _ ih =>
    rw [nextToken_of_line (r := r.unprompted) hnext hpending, unprompted_pull]
    exact ih

theorem nextToken_unprompted_of_eq {r r' : Reader} {result : Except ReadError Token}
    (h : r.nextToken = (result, r')) : r.unprompted.nextToken = (result, r'.unprompted) := by
  rw [nextToken_unprompted, h]

theorem readFrom_unprompted (limit : Nat) (openers : List Opener) (r : Reader) :
    r.unprompted.readFrom limit openers =
      ((r.readFrom limit openers).1, (r.readFrom limit openers).2.unprompted) := by
  fun_induction readFrom limit openers r with
  | case1 openers r e r₁ hnext => exact readFrom_of_error (nextToken_unprompted_of_eq hnext)
  | case2 openers r token r₁ hnext _ openers' hfeed ih =>
    rw [readFrom_of_ok (nextToken_unprompted_of_eq hnext), naming_unprompted, hfeed,
      unprompted_intern]
    exact ih
  | case3 openers r token r₁ hnext _ _ hfeed
  | case4 openers r token r₁ hnext _ hfeed
  | case5 openers r token r₁ hnext _ hfeed =>
    rw [readFrom_of_ok (nextToken_unprompted_of_eq hnext), naming_unprompted, hfeed,
      unprompted_intern]
    rfl

theorem readOne_unprompted_of_eq {limit : Nat} {r r' : Reader} {result : Except ReadError Item}
    (h : r.readOne limit = (result, r')) :
    r.unprompted.readOne limit = (result, r'.unprompted) := by
  rw [readOne] at h ⊢
  rw [readFrom_unprompted, h]

/-- Prompts are neither read nor do they decide what is. -/
theorem read_unprompted (limit : Nat) (r : Reader) :
    r.unprompted.read limit = ((r.read limit).1, (r.read limit).2.unprompted) := by
  fun_induction read limit r with
  | case1 r v r₁ hone =>
    exact read_of_form (r := r.unprompted) (readOne_unprompted_of_eq hone)
  | case2 r r₁ hone _ ih =>
    rw [read_of_close (r := r.unprompted) (readOne_unprompted_of_eq hone)]
    exact ih
  | case3 r e r₁ hone =>
    exact read_of_error (r := r.unprompted) (readOne_unprompted_of_eq hone)

end Reader

/-- Evaluation asks for no line. -/
theorem Interpreter.evalForm_unprompted (limit : Nat) (i : Interpreter) (form : Value) :
    (i.evalForm limit form).1.map Event.unprompted = (i.evalForm limit form).1 := by
  have hcalls (calls : List Call) :
      (calls.map Event.called).map Event.unprompted = calls.map Event.called := by
    rw [List.map_map]
    rfl
  simp only [evalForm]
  split
  · exact hcalls _
  · rw [List.map_append, hcalls]
    rfl
  · exact hcalls _

namespace Session

/-- The session without its prompts. -/
def unprompted (s : Session) : Session := { s with reader := s.reader.unprompted }

/-- The turn of a session without its prompts. -/
def Turn.unprompted : Turn → Turn
  | next s => next s.unprompted
  | finished result s => finished result s.unprompted

theorem evaluated_unprompted (limit : Nat) (s : Session) (r : Reader) (form : Value) :
    s.unprompted.evaluated limit r.unprompted form = (s.evaluated limit r form).unprompted := by
  have hevents := s.interpreter.evalForm_unprompted limit form
  simp only [evaluated, Reader.unprompted, Console.recordAll_unprompted, hevents]
  rfl

theorem proceed_unprompted (limit : Nat) (s : Session) (r : Reader)
    (result : Except ReadError Value) :
    s.unprompted.proceed limit r.unprompted result = (s.proceed limit r result).unprompted := by
  cases result with
  | error e => cases e <;> rfl
  | ok form =>
    cases hprint : (s.interpreter.evalForm limit form).2.bind Value.print with
    | error v =>
      rw [proceed_of_violation hprint, proceed_of_violation (s := s.unprompted) hprint,
        evaluated_unprompted]
      rfl
    | ok text =>
      rw [proceed_of_text hprint, proceed_of_text (s := s.unprompted) hprint, evaluated_unprompted]
      rfl

theorem turn_unprompted (limit : Nat) (s : Session) :
    s.unprompted.turn limit = (s.turn limit).unprompted := by
  have hread : s.unprompted.reader.read limit =
      ((s.reader.read limit).1, (s.reader.read limit).2.unprompted) :=
    s.reader.read_unprompted limit
  rw [turn, hread, proceed_unprompted, turn]

/-- A session runs the same without its prompts. -/
theorem run_unprompted (limit : Nat) (s : Session) :
    s.unprompted.run limit = ((s.run limit).1, (s.run limit).2.unprompted) := by
  induction s using turn_induction limit with
  | step s ih =>
    have hturn := turn_unprompted limit s
    cases hs : s.turn limit with
    | next t =>
      rw [hs] at hturn
      rw [run_of_next hturn, run_of_next hs, ih t hs]
    | finished result t =>
      rw [hs] at hturn
      rw [run_of_finished hturn, run_of_finished hs]

/-! ## What is read -/

/-- What the readings of a session come to, from the first to the last. -/
def readings (limit : Nat) (s : Session) : List (Except ReadError Value) :=
  (s.reader.read limit).1 ::
    match h : s.turn limit with
    | .next s' =>
      have := size_of_next h
      readings limit s'
    | .finished _ _ => []
termination_by s.reader.size

theorem readings_of_next {limit : Nat} {s s' : Session} (h : s.turn limit = .next s') :
    s.readings limit = (s.reader.read limit).1 :: s'.readings limit := by
  rw [readings]
  split <;> simp_all

theorem readings_of_finished {limit : Nat} {s s' : Session} {result : Except Violation Unit}
    (h : s.turn limit = .finished result s') :
    s.readings limit = [(s.reader.read limit).1] := by
  rw [readings]
  split <;> simp_all

/-- A session reads the same without its prompts. -/
theorem readings_unprompted (limit : Nat) (s : Session) :
    s.unprompted.readings limit = s.readings limit := by
  induction s using turn_induction limit with
  | step s ih =>
    have hturn := turn_unprompted limit s
    have hread : (s.unprompted.reader.read limit).1 = (s.reader.read limit).1 := by
      rw [unprompted, Reader.read_unprompted]
    cases hs : s.turn limit with
    | next t =>
      rw [hs] at hturn
      rw [readings_of_next hturn, readings_of_next hs, hread, ih t hs]
    | finished result t =>
      rw [hs] at hturn
      rw [readings_of_finished hturn, readings_of_finished hs, hread]

end Session

end PocketLisp

import Mathlib.Data.List.Basic
import PocketLisp.Proofs.Reader.Moves
import PocketLisp.Proofs.Session.Batch
import PocketLisp.Proofs.Session.Limit
import PocketLisp.Proofs.Session.Unprompted

/-!
# When a session asks for a line, and how

A session asks for a line only when it has nothing left to do: no token is left on the lines that
came before, and whatever they completed has been answered. It asks with the primary prompt at a
boundary between top-level forms and with the continuation prompt inside of one; where a boundary
is can be told from the record (`boundarySince`), although the reader keeps it as a flag of its own.

Both are shown of every request of every session (`Session.run_asks_when_idle`), by an invariant of
the reader (`Reader.OnRecord`) that each move of a reading keeps, and each turn of a session.
-/

namespace PocketLisp

/-! ## Requests and boundaries on record -/

/-- What came of asking for a line, if that is what happened. -/
def Event.request? : Event → Option (Option LineEvent)
  | asked _ answer => some answer
  | _ => none

/-- Whether a boundary between top-level forms has been passed: the result of a form was written,
a closing parenthesis that closes nothing was skipped, or a form was given up. -/
def Event.isBoundary : Event → Bool
  | wrote _ => true
  | logged (.strayClose _) => true
  | logged (.syntaxError _) => true
  | logged .nestingTooDeep => true
  | _ => false

/-- Whether a boundary has been passed since the last request for a line, told from what happened,
last event first. A line begins at one if there was no request before, and if an interruption came
of it. -/
def boundarySince : List Event → Bool
  | [] => true
  | .asked _ answer :: _ => answer = some .interrupt
  | event :: past => event.isBoundary || boundarySince past

theorem boundarySince_cons {event : Event} (h : event.request? = none) (past : List Event) :
    boundarySince (event :: past) = (event.isBoundary || boundarySince past) := by
  cases event with
  | asked prompt answer => cases h
  | _ => rfl

/-- Before the first request, a session is at a boundary. -/
theorem boundarySince_of_no_request {past : List Event}
    (h : ∀ event ∈ past, event.request? = none) : boundarySince past = true := by
  induction past with
  | nil => rfl
  | cons event past ih =>
    obtain ⟨hevent, hpast⟩ := List.forall_mem_cons.1 h
    rw [boundarySince_cons hevent, ih hpast, Bool.or_true]

/-- After a request, a session is at a boundary if an interruption came of it or a boundary was
passed since. -/
theorem boundarySince_append_asked {since : List Event}
    (h : ∀ event ∈ since, event.request? = none) (prompt : String) (answer : Option LineEvent)
    (past : List Event) :
    boundarySince (since ++ .asked prompt answer :: past) = true ↔
      answer = some .interrupt ∨ ∃ event ∈ since, event.isBoundary = true := by
  induction since with
  | nil => simp [boundarySince]
  | cons event since ih =>
    obtain ⟨hevent, hsince⟩ := List.forall_mem_cons.1 h
    rw [List.cons_append, boundarySince_cons hevent, Bool.or_eq_true, ih hsince,
      List.exists_mem_cons_iff, or_left_comm]

namespace Console

/-- What came of the requests for a line, from the first to the last. -/
def requests (console : Console) : List (Option LineEvent) :=
  console.events.filterMap Event.request?

@[simp] theorem requests_record (console : Console) (event : Event) :
    (console.record event).requests = console.requests ++ event.request?.toList := by
  rw [requests, events_record, List.filterMap_append]
  cases h : event.request? <;> simp [h, requests]

@[simp] theorem requests_ask (console : Console) (prompt : String) :
    (console.ask prompt).2.requests = console.requests ++ [console.pending.head?] := by
  simp [requests, Event.request?]

theorem requests_recordAll {events : List Event} (h : ∀ event ∈ events, event.request? = none)
    (console : Console) : (console.recordAll events).requests = console.requests := by
  have hnone : events.filterMap Event.request? = [] := List.filterMap_eq_nil_iff.2 h
  rw [requests, events_recordAll, List.filterMap_append, hnone, List.append_nil, requests]

end Console

/-- Evaluating a form asks for no line. -/
theorem Interpreter.evalForm_request (limit : Nat) (i : Interpreter) (form : Value) :
    ∀ event ∈ (i.evalForm limit form).1, event.request? = none := by
  have hcalls : ∀ event ∈ (evaluate i.basis limit i.env form).calls.map Event.called,
      event.request? = none := by
    intro event hevent
    obtain ⟨call, -, rfl⟩ := List.mem_map.1 hevent
    rfl
  simp only [evalForm]
  split
  · exact hcalls
  · intro event hevent
    rcases List.mem_append.1 hevent with hevent | hevent
    · exact hcalls event hevent
    · rw [List.mem_singleton.1 hevent]
      rfl
  · exact hcalls

/-! ## What a reading keeps -/

namespace Reader

/-- The reader has its prompts, has asked for the line events in front of those that are pending and
got them all, and has written the text. -/
structure Served (prompts : Prompts) (events : List LineEvent) (text : String) (r : Reader) : Prop
    where
  prompts_eq : r.prompts = prompts
  requests_eq : r.console.requests ++ r.console.pending.map some = events.map some
  output_eq : r.console.output = text

/-- Beyond that, the reader takes itself to be at a boundary just if the record says so. -/
structure OnRecord (prompts : Prompts) (events : List LineEvent) (text : String) (r : Reader) : Prop
    extends Served prompts events text r where
  boundary_eq : r.boundary = boundarySince r.console.past

variable {prompts : Prompts} {events : List LineEvent} {text : String} {r : Reader}

theorem Served.record (h : r.Served prompts events text) (event : Event)
    (hevent : event.request? = none) :
    (r.record event).Served prompts events (text ++ event.text) where
  prompts_eq := h.prompts_eq
  requests_eq := by
    show (r.console.record event).requests ++ _ = _
    rw [Console.requests_record, hevent, Option.toList_none, List.append_nil]
    exact h.requests_eq
  output_eq := by
    show (r.console.record event).output = _
    rw [Console.output_record, h.output_eq]

/-- With nothing pending, all line events have been asked for. -/
theorem Served.requests_of_pending_nil (h : r.Served prompts events text)
    (hpending : r.console.pending = []) : r.console.requests = events.map some := by
  have hrequests := h.requests_eq
  rwa [hpending, List.map_nil, List.append_nil] at hrequests

theorem Served.reset (h : r.Served prompts events text) : r.reset.Served prompts events text :=
  ⟨h.prompts_eq, h.requests_eq, h.output_eq⟩

/-- Where the record tells of a boundary, the reader may take itself to be at one. -/
theorem Served.atBoundary (h : r.Served prompts events text)
    (hboundary : boundarySince r.console.past = true) :
    r.atBoundary.OnRecord prompts events text :=
  ⟨⟨h.prompts_eq, h.requests_eq, h.output_eq⟩, hboundary.symm⟩

/-- A request that is answered takes the next line event. -/
theorem Served.ask (h : r.Served prompts events text) {event : LineEvent}
    {pending : List LineEvent} (hpending : r.console.pending = event :: pending) :
    { r with console := (r.console.ask r.prompt).2 }.Served prompts events text where
  prompts_eq := h.prompts_eq
  requests_eq := by
    have hrequests := h.requests_eq
    rw [hpending] at hrequests
    simpa [hpending] using hrequests
  output_eq := (Console.output_ask _ _).trans h.output_eq

theorem OnRecord.withMore (h : r.OnRecord prompts events text) (more : List LineEvent) :
    (r.withMore more).OnRecord prompts (events ++ more) text where
  prompts_eq := h.prompts_eq
  requests_eq := by
    show r.console.requests ++ (r.console.pending ++ more).map some = _
    rw [List.map_append, ← List.append_assoc, h.requests_eq, List.map_append]
  output_eq := h.output_eq
  boundary_eq := h.boundary_eq

/-! ## The prompt of the next request -/

theorem OnRecord.prompt_eq (h : r.OnRecord prompts events text) :
    r.prompt =
      if boundarySince r.console.past = true then prompts.primary else prompts.continuation := by
  rw [prompt, h.boundary_eq, h.prompts_eq]

/-- The first line is asked for with the primary prompt. -/
theorem OnRecord.prompt_of_first (h : r.OnRecord prompts events text)
    (hfirst : r.console.requests = []) : r.prompt = prompts.primary := by
  have hnone : ∀ event ∈ r.console.past, event.request? = none := by
    intro event hevent
    exact List.filterMap_eq_nil_iff.1 hfirst event (List.mem_reverse.2 hevent)
  rw [h.prompt_eq, boundarySince_of_no_request hnone, if_pos rfl]

/-- Another line is asked for with the primary prompt just if the last request was interrupted or a
boundary was passed since. -/
theorem OnRecord.prompt_of_asked (h : r.OnRecord prompts events text) {before since : List Event}
    {prompt : String} {answer : Option LineEvent}
    (hevents : r.console.events = before ++ .asked prompt answer :: since)
    (hsince : ∀ event ∈ since, event.request? = none) :
    r.prompt =
      if answer = some .interrupt ∨ ∃ event ∈ since, event.isBoundary = true
      then prompts.primary else prompts.continuation := by
  have hpast : r.console.past = since.reverse ++ .asked prompt answer :: before.reverse := by
    rw [← List.reverse_reverse r.console.past]
    show r.console.events.reverse = _
    rw [hevents]
    simp
  have hsince' : ∀ event ∈ since.reverse, event.request? = none := by
    intro event hevent
    exact hsince event (List.mem_reverse.1 hevent)
  have hboundary := boundarySince_append_asked hsince' prompt answer before.reverse
  simp only [List.mem_reverse] at hboundary
  rw [h.prompt_eq, hpast]
  exact if_congr hboundary rfl rfl

end Reader

namespace Underway

variable {limit : Nat} {prompts : Prompts} {events : List LineEvent} {text : String}
  {u u' : Underway}

theorem onRecord_behind (h : u.reader.OnRecord prompts events text) (token : Token)
    (rest : List Char) : (u.behind token rest).OnRecord prompts events text := by
  obtain ⟨⟨hprompts, hrequests, houtput⟩, hboundary⟩ := h
  unfold behind Reader.intern
  split
  · exact ⟨⟨hprompts, hrequests, houtput⟩, hboundary⟩
  · exact ⟨⟨hprompts, hrequests, houtput⟩, hboundary⟩

theorem Move.onRecord (hmove : Move limit u u') (h : u.reader.OnRecord prompts events text) :
    u'.reader.OnRecord prompts events text := by
  cases hmove with
  | token => exact onRecord_behind h _ _
  | @close token rest =>
    have hskip := (onRecord_behind h token rest).toServed.record
      (.logged (.strayClose (u.behind token rest).line)) rfl
    rw [show (Event.logged (.strayClose _)).text = "" from rfl, String.append_empty] at hskip
    exact hskip.atBoundary rfl
  | line hnext hpending =>
    obtain ⟨hprompts, hrequests, houtput⟩ := h.toServed.ask hpending
    refine ⟨⟨hprompts, hrequests, houtput⟩, ?_⟩
    show false = boundarySince (u.reader.console.ask u.reader.prompt).2.past
    rw [Console.past_ask, hpending]
    rfl

theorem onRecord_of_moves (hmoves : Relation.ReflTransGen (Move limit) u u')
    (h : u.reader.OnRecord prompts events text) : u'.reader.OnRecord prompts events text := by
  induction hmoves with
  | refl => exact h
  | tail _ hmove ih => exact hmove.onRecord ih

end Underway

/-! ## What a turn keeps -/

/-- What is written in answer to a reading: the result of the form, or why there is none. An
interruption and the end of input are not answered. -/
def Interpreter.reply (limit : Nat) (i : Interpreter) : Except ReadError Value → String
  | .ok form =>
    match (i.evalForm limit form).2.bind Value.print with
    | .ok text => text ++ "\n"
    | .error _ => ""
  | .error .unexpectedClose => Value.errorText Fault.unexpectedClose.message ++ "\n"
  | .error .tooDeep => Value.errorText Fault.nestingTooDeep.message ++ "\n"
  | .error .interrupted => ""
  | .error .endOfInput => ""

namespace Session

variable {limit : Nat} {prompts : Prompts} {events : List LineEvent} {text : String}
  {s s' : Session}

theorem giveUp_onRecord {r : Reader} (h : r.Served prompts events text) (entry : LogEntry)
    (fault : Fault) :
    (giveUp r entry fault).atBoundary.OnRecord prompts events
      (text ++ (Value.errorText fault.message ++ "\n")) := by
  have hentry : (r.record (.logged entry)).Served prompts events text := by
    have hserved := h.record (.logged entry) rfl
    rwa [show (Event.logged entry).text = "" from rfl, String.append_empty] at hserved
  exact (hentry.reset.record (.wrote _) rfl).atBoundary rfl

theorem evaluated_served (limit : Nat) (s : Session) {r : Reader}
    (h : r.Served prompts events text) (form : Value) :
    (s.evaluated limit r form).Served prompts events text where
  prompts_eq := h.prompts_eq
  requests_eq := by
    show (r.console.recordAll _).requests ++ _ = _
    rw [Console.requests_recordAll (s.interpreter.evalForm_request limit form)]
    exact h.requests_eq
  output_eq := by
    show (r.console.recordAll _).output = _
    rw [Console.output_recordAll, Interpreter.join_text_evalForm, String.append_empty, h.output_eq]

/-- A turn that is not the last answers its reading, and is at a boundary behind it. -/
theorem turn_onRecord (h : s.reader.atBoundary.OnRecord prompts events text)
    (hturn : s.turn limit = .next s') :
    s'.reader.atBoundary.OnRecord prompts events
      (text ++ s.interpreter.reply limit (s.reader.read limit).1) := by
  obtain ⟨u, hmoves, hdecided⟩ := Underway.exists_decided limit (.atStart s.reader)
  have hu : u.reader.OnRecord prompts events text := Underway.onRecord_of_moves hmoves h
  rw [Underway.finish_atStart] at hdecided
  unfold turn at hturn
  generalize s.reader.read limit = reading at hdecided hturn ⊢
  obtain ⟨result, r⟩ := reading
  dsimp only at hdecided hturn ⊢
  cases hdecided with
  | @form token rest form _ _ =>
    have hserved :=
      evaluated_served limit s (Underway.onRecord_behind hu token rest).toServed form
    cases hprint : (s.interpreter.evalForm limit form).2.bind Value.print with
    | error v =>
      rw [proceed_of_violation hprint] at hturn
      cases hturn
    | ok answer =>
      rw [proceed_of_text hprint] at hturn
      cases hturn
      simp only [Interpreter.reply, hprint]
      exact (hserved.record (.wrote _) rfl).atBoundary rfl
  | @unexpectedClose token rest _ _ =>
    cases hturn
    exact giveUp_onRecord (Underway.onRecord_behind hu token rest).toServed _ _
  | @tooDeep token rest _ _ =>
    cases hturn
    exact giveUp_onRecord (Underway.onRecord_behind hu token rest).toServed _ _
  | interrupted hnext hpending =>
    cases hturn
    rw [Interpreter.reply, String.append_empty]
    refine (hu.toServed.ask hpending).reset.atBoundary ?_
    show boundarySince (u.reader.console.ask u.reader.prompt).2.past = true
    rw [Console.past_ask, hpending]
    rfl
  | endOfInput => cases hturn

/-- The result of a form that does not end the session can be printed. -/
theorem exists_text_of_next (hturn : s.turn limit = .next s') {form : Value}
    (hread : (s.reader.read limit).1 = .ok form) :
    ∃ text, (s.interpreter.evalForm limit form).2.bind Value.print = .ok text := by
  cases hprint : (s.interpreter.evalForm limit form).2.bind Value.print with
  | ok answer => exact ⟨answer, rfl⟩
  | error v =>
    rw [turn, hread, proceed_of_violation hprint] at hturn
    cases hturn

/-- A reading that does not end the session is the same with more input behind. -/
theorem read_withMore_of_next (hturn : s.turn limit = .next s') (more : List LineEvent) :
    ((s.withMore more).reader.read limit).1 = (s.reader.read limit).1 := by
  have hend : (s.reader.read limit).1 ≠ .error .endOfInput := by
    intro hend
    rw [turn, hend] at hturn
    cases hturn
  have hread := Reader.read_withMore (Prod.eta (s.reader.read limit)).symm hend more
  show ((s.reader.withMore more).read limit).1 = _
  rw [hread]

/-- What a session reads before it meets the end of input. -/
structure ReadsBeforeEnd (limit : Nat) (s : Session) (done : List (Except ReadError Value)) : Prop
    where
  readings_eq : s.readings limit = done ++ [.error .endOfInput]
  /-- The results of the forms can be printed. -/
  printed : ∀ form, .ok form ∈ done →
    ∃ answer, (s.interpreter.evalForm limit form).2.bind Value.print = .ok answer
  /-- With more input behind, the session reads the same up to there. -/
  readings_withMore : ∀ more, (s.withMore more).readings limit =
    done ++ ((s.last limit).withMore more).readings limit

theorem ReadsBeforeEnd.of_next (hturn : s.turn limit = .next s')
    {done : List (Except ReadError Value)} (h : s'.ReadsBeforeEnd limit done) :
    s.ReadsBeforeEnd limit ((s.reader.read limit).1 :: done) where
  readings_eq := by
    rw [readings_of_next hturn, h.readings_eq]
    rfl
  printed := by
    intro form hform
    rcases List.mem_cons.1 hform with hform | hform
    · exact exists_text_of_next hturn hform.symm
    · rw [← interpreter_of_next hturn]
      exact h.printed form hform
  readings_withMore := by
    intro more
    rw [readings_of_next (turn_withMore hturn more), last_of_next hturn, h.readings_withMore,
      read_withMore_of_next hturn]
    rfl

/-- Up to its last turn, a session answers all that it reads. -/
theorem last_onRecord (h : s.reader.atBoundary.OnRecord prompts events text)
    (hok : (s.run limit).1 = .ok ()) :
    ∃ done, s.ReadsBeforeEnd limit done ∧
      (s.last limit).reader.atBoundary.OnRecord prompts events
        (text ++ String.join (done.map (s.interpreter.reply limit))) := by
  induction s using turn_induction limit generalizing text with
  | step s ih =>
    cases hturn : s.turn limit with
    | next t =>
      rw [run_of_next hturn] at hok
      obtain ⟨done, hdone, hlast⟩ := ih t hturn (turn_onRecord h hturn) hok
      refine ⟨(s.reader.read limit).1 :: done, hdone.of_next hturn, ?_⟩
      rw [last_of_next hturn, List.map_cons, String.join_cons, ← String.append_assoc]
      rw [interpreter_of_next hturn] at hlast
      exact hlast
    | finished result t =>
      obtain ⟨r, hread, -⟩ := run_eq_last hok
      rw [last_of_finished hturn] at hread
      refine ⟨[], ⟨?_, nofun, ?_⟩, ?_⟩
      · rw [readings_of_finished hturn, hread]
        rfl
      · intro more
        rw [last_of_finished hturn]
        rfl
      · rw [last_of_finished hturn, List.map_nil, String.join_nil, String.append_empty]
        exact h

/-! ## A session that waits for a line -/

/-- Goes on with a session from a reading that is under way. -/
def resume (limit : Nat) (s : Session) (u : Underway) : Except Violation Unit × Session :=
  (s.proceed limit (u.finish limit).2 (u.finish limit).1).run limit

/-- With more input behind, a session goes on from wherever its reading moves to. -/
theorem read_withMore_of_moves {u : Underway}
    (h : Relation.ReflTransGen (Underway.Move limit) (.atStart s.reader) u)
    (more : List LineEvent) :
    (s.withMore more).reader.read limit = (u.withMore more).finish limit := by
  rw [← Underway.finish_atStart]
  exact Underway.finish_withMore_of_moves h more

/-- The record that a reading leaves is there at the end of the session. -/
theorem past_resume (limit : Nat) (s : Session) (u : Underway) :
    (u.finish limit).2.console.past <:+ (s.resume limit u).2.reader.console.past := by
  refine (past_proceed limit s (u.finish limit).2 (u.finish limit).1).trans ?_
  rw [resume]
  cases s.proceed limit (u.finish limit).2 (u.finish limit).1 with
  | next t => exact (past_turn limit t).trans (past_run limit t)
  | finished result t => exact List.suffix_refl _

theorem start_onRecord (i : Interpreter) (prompts : Prompts) (events : List LineEvent) :
    (start i prompts (.ofEvents events)).reader.atBoundary.OnRecord prompts events "" :=
  ⟨⟨rfl, rfl, rfl⟩, rfl⟩

/-- A session that breaks nothing comes to wait for a line that does not come: all its events are
taken, no token is left, and what it has read is answered. -/
theorem exists_waiting (h : s.reader.atBoundary.OnRecord prompts events text)
    (hok : (s.run limit).1 = .ok ()) :
    ∃ (u : Underway) (done : List (Except ReadError Value)),
      s.ReadsBeforeEnd limit done ∧
      Relation.ReflTransGen (Underway.Move limit) (.atStart (s.last limit).reader) u ∧
      Token.next? u.reader.rest = none ∧ u.reader.console.pending = [] ∧
      u.reader.OnRecord prompts events
        (text ++ String.join (done.map (s.interpreter.reply limit))) ∧
      (s.run limit).2.reader.console.requests = u.reader.console.requests ++ [none] := by
  obtain ⟨done, hdone, hlast⟩ := last_onRecord h hok
  obtain ⟨r, hread, hrun⟩ := run_eq_last hok
  obtain ⟨u, hmoves, hdecided⟩ := Underway.exists_decided limit (.atStart (s.last limit).reader)
  rw [Underway.finish_atStart, hread] at hdecided
  cases hdecided with
  | endOfInput hnext hpending =>
    refine ⟨u, done, hdone, hmoves, hnext, hpending, Underway.onRecord_of_moves hmoves hlast, ?_⟩
    rw [hrun]
    simp [Reader.record, hpending, Event.request?]

/-- A session that breaks nothing asks for each of its line events, and then once more. -/
theorem requests_run (h : s.reader.atBoundary.OnRecord prompts events text)
    (hok : (s.run limit).1 = .ok ()) :
    (s.run limit).2.reader.console.requests = events.map some ++ [none] := by
  obtain ⟨u, done, -, -, -, hpending, hu, hrequests⟩ := exists_waiting h hok
  rw [hrequests, hu.requests_of_pending_nil hpending]

theorem readings_eq_cons (limit : Nat) (s : Session) :
    ∃ others, s.readings limit = (s.reader.read limit).1 :: others :=
  ⟨_, by rw [readings]⟩

/-- How a session stands when it asks for a line behind `earlier`, with `later` to come and the
readings `done` behind it: the reading `u` is under way, and the session goes on from it. -/
structure Waits (limit : Nat) (begun : Session) (earlier later : List LineEvent)
    (done : List (Except ReadError Value)) (u : Underway) : Prop where
  /-- The session is in the middle of this reading. -/
  run_eq : ∃ s : Session, begun.run limit = s.resume limit u
  /-- It is the next one behind those that are done. -/
  readings_eq : ∃ others, begun.readings limit = done ++ (u.finish limit).1 :: others
  /-- It has asked for the earlier line events, and for no others. -/
  requests_eq : u.reader.console.requests = earlier.map some
  pending_eq : u.reader.console.pending = later
  /-- No token of theirs is left. -/
  lex_rest : lex u.reader.rest = []
  /-- All that was read before has been answered, the forms among it with their results. -/
  printed : ∀ form, .ok form ∈ done →
    ∃ answer, (begun.interpreter.evalForm limit form).2.bind Value.print = .ok answer
  output_eq : u.reader.console.output = String.join (done.map (begun.interpreter.reply limit))
  /-- The next thing that happens is the request. -/
  asked_next : ∃ after, (begun.run limit).2.reader.console.events =
    u.reader.console.events ++ .asked u.reader.prompt later.head? :: after

/-- A session that breaks nothing comes to wait for what is behind its input, be it more line events
or the end. -/
theorem exists_waits (h : s.reader.atBoundary.OnRecord prompts events "")
    (hok : (s.run limit).1 = .ok ()) (later : List LineEvent) :
    ∃ (u : Underway) (done : List (Except ReadError Value)) (text : String),
      s.readings limit = done ++ [.error .endOfInput] ∧
        u.reader.OnRecord prompts (events ++ later) text ∧
        (s.withMore later).Waits limit events later done u := by
  obtain ⟨u, done, hdone, hmoves, hnext, hpending, hu, -⟩ := exists_waiting h hok
  have hread := read_withMore_of_moves hmoves later
  have hrun : (s.withMore later).run limit =
      ((s.last limit).withMore later).resume limit (u.withMore later) := by
    rw [run_withMore, run_eq_turn, turn, hread]
    rfl
  have hlater : (u.withMore later).reader.console.pending = later := by
    show u.reader.console.pending ++ later = later
    rw [hpending, List.nil_append]
  obtain ⟨others, hothers⟩ := readings_eq_cons limit ((s.last limit).withMore later)
  obtain ⟨after, hafter⟩ : .asked u.reader.prompt later.head? :: u.reader.console.past <:+
      ((s.withMore later).run limit).2.reader.console.past := by
    have hasked := Underway.asked_finish (u := u.withMore later) limit hnext
    rw [hlater] at hasked
    rw [hrun]
    exact hasked.trans (past_resume limit _ _)
  refine ⟨u.withMore later, done, _, hdone.readings_eq, hu.withMore later, ⟨⟨_, hrun⟩,
    ⟨others, ?_⟩, hu.requests_of_pending_nil hpending, hlater, lex_of_next?_eq_none hnext,
    hdone.printed, ?_, ⟨after.reverse, ?_⟩⟩⟩
  · rw [hdone.readings_withMore, hothers, hread]
  · exact hu.output_eq.trans String.empty_append
  · show List.reverse _ = u.reader.console.past.reverse ++ _
    rw [← hafter, List.reverse_append, List.reverse_cons, List.append_assoc]
    rfl

/-- **When a session asks for a line, and how.** A session that starts with nothing but the builtins
bound asks for each of its line events once, in order, and once more at the end. Consider the moment
when it asks for the first of `later`, or finds that there is none. Then

* it has got the `earlier` ones and no token of theirs is left;
* it has answered whatever they complete, which is what the session on `earlier` alone reads before
  it meets the end: the reading `u` that is under way comes next, and goes on with the request;
* the prompt is the primary one if nothing was asked for before; and else if an interruption came of
  the last request, or the result of a form was written, a closing parenthesis was skipped or a form
  was given up since; and otherwise it is the continuation prompt. -/
theorem run_asks_when_idle (limit : Nat) (symbols : SymbolTable) (host : Host) (prompts : Prompts)
    (earlier later : List LineEvent) :
    let begun (events : List LineEvent) :=
      start (Interpreter.new symbols host) prompts (.ofEvents events)
    ((begun (earlier ++ later)).run limit).2.reader.console.requests =
      (earlier ++ later).map some ++ [none] ∧
    ∃ (u : Underway) (done : List (Except ReadError Value)),
      (begun earlier).readings limit = done ++ [.error .endOfInput] ∧
      (begun (earlier ++ later)).Waits limit earlier later done u ∧
      (earlier = [] → u.reader.prompt = prompts.primary) ∧
      ∀ before prompt answer since,
        u.reader.console.events = before ++ .asked prompt answer :: since →
        (∀ event ∈ since, event.request? = none) →
        u.reader.prompt =
          if answer = some .interrupt ∨ ∃ event ∈ since, event.isBoundary = true
          then prompts.primary else prompts.continuation := by
  intro begun
  have hok (events : List LineEvent) : ((begun events).run limit).1 = .ok () :=
    (run_lawful limit (start_lawful symbols host prompts events)).1
  have hstart (events : List LineEvent) :
      (begun events).reader.atBoundary.OnRecord prompts events "" :=
    start_onRecord (Interpreter.new symbols host) prompts events
  refine ⟨requests_run (hstart _) (hok _), ?_⟩
  obtain ⟨u, done, text, hreadings, hu, hwaits⟩ := exists_waits (hstart earlier) (hok earlier) later
  have hjoin : (begun earlier).withMore later = begun (earlier ++ later) :=
    start_withMore (Interpreter.new symbols host) prompts earlier later
  rw [hjoin] at hwaits
  refine ⟨u, done, hreadings, hwaits, ?_, ?_⟩
  · intro hearlier
    apply hu.prompt_of_first
    rw [hwaits.requests_eq, hearlier]
    rfl
  · intro before prompt answer since hevents hsince
    exact hu.prompt_of_asked hevents hsince

/-- A form over two lines, one that is begun behind it, a blank line, an interruption, and a closing
parenthesis that closes nothing before a quoted form. -/
example :
    ((start (Interpreter.new ∅ Host.none) {} (.ofEvents [.line "(+ 1", .line "2) (car", .line "",
      .interrupt, .line ") (quote", .line "x)"])).run 9).2.reader.console.prompts =
      ["* ", "", "* ", "", "* ", "* ", "* "] := by
  decide +kernel

end Session

end PocketLisp

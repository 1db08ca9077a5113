import PocketLisp.Proofs.Reader.MoreInput
import PocketLisp.Proofs.Session.Safety
import PocketLisp.Proofs.Session.Turn

/-!
# Sessions one after the other

A session that goes on where another one would have ended behaves like a new session on the rest of
the input, provided the first has begun no form when its own input is used up, or an interruption
makes it drop the form (`run_append`). Its symbol table, its cursor and its record are not those of
a new session; that they make no difference is what the relation `Session.Follows` says, which every
turn of two such sessions keeps (`turn_follows`).
-/

namespace PocketLisp

/-! ## Reading writes nothing and calls nothing -/

namespace Reader

theorem output_read (limit : Nat) (r : Reader) :
    (r.read limit).2.console.output = r.console.output := by
  apply read_console (P := fun console => console.output = r.console.output) _ _ rfl
    (Prod.eta (r.read limit)).symm
  · intro console prompt h
    rw [Console.output_ask, h]
  · intro console line h
    simp [h, Event.text]

theorem calls_read (limit : Nat) (r : Reader) :
    (r.read limit).2.console.calls = r.console.calls := by
  apply read_console (P := fun console => console.calls = r.console.calls) _ _ rfl
    (Prod.eta (r.read limit)).symm
  · intro console prompt h
    rw [Console.calls_ask, h]
  · intro console line h
    simp [h, Event.calls]

/-- A reading that meets the end of input is not interrupted, and takes all the tokens left. -/
theorem hasLeft_of_endOfInput {limit : Nat} {r r' : Reader}
    (h : r.read limit = (.error .endOfInput, r')) : r.HasLeft r.tokens ∧ r'.tokens = [] := by
  have hend : .interrupt ∉ r'.console.pending := by
    rw [read_of_endOfInput h]
    exact List.not_mem_nil
  have hleft : r.HasLeft r.tokens := ⟨uninterrupted_of_read h nofun hend, rfl⟩
  refine ⟨hleft, ?_⟩
  obtain ⟨hres, hleft'⟩ := read_eq_run limit hleft
  rw [h] at hres hleft'
  rw [hleft'.tokens_eq]
  cases hrun : (Form.run r.naming limit [] (r.tokens.dropWhile (· == .rparen))).1 with
  | more openers => exact Form.run_rest_of_more hrun
  | _ =>
    rw [hrun] at hres
    cases hres

/-! ## A reader with a past behind one without -/

/-- The readers are in step, and the first has the output and the calls of the second behind what
was written and called `before`. -/
structure Trails (before : String × List Call) (r r' : Reader) : Prop where
  inStep : r.InStep AnyTables r'
  output : r.console.output = before.1 ++ r'.console.output
  calls : r.console.calls = before.2 ++ r'.console.calls

variable {before : String × List Call} {r r' : Reader}

theorem Trails.record (h : Trails before r r') {event event' : Event}
    (htext : event.text = event'.text) (hcalls : event.calls = event'.calls) :
    Trails before (r.record event) (r'.record event') where
  inStep := h.inStep.record event event'
  output := by simp [Reader.record, h.output, htext, String.append_assoc]
  calls := by simp [Reader.record, h.calls, hcalls]

theorem Trails.recordAll (h : Trails before r r') (events : List Event) :
    Trails before { r with console := r.console.recordAll events }
      { r' with console := r'.console.recordAll events } where
  inStep := h.inStep.recordAll events events
  output := by simp [h.output, String.append_assoc]
  calls := by simp [h.calls]

theorem Trails.reset (h : Trails before r r') : Trails before r.reset r'.reset :=
  ⟨h.inStep.reset, h.output, h.calls⟩

theorem Trails.giveUp (h : Trails before r r') (entry : LogEntry) (fault : Fault) :
    Trails before (Session.giveUp r entry fault) (Session.giveUp r' entry fault) :=
  ((h.record rfl rfl).reset).record rfl rfl

end Reader

namespace Session

/-- The second session begins where the first one is, except that the first has written, called and
counted something before: the next reading comes to the same for both. -/
structure Follows (limit : Nat) (before : String × List Call) (count : Nat) (s s' : Session) : Prop
    where
  interpreter : s.interpreter = s'.interpreter
  forms : s.forms = count + s'.forms
  result : (s.reader.read limit).1 = (s'.reader.read limit).1
  trails : Reader.Trails before (s.reader.read limit).2 (s'.reader.read limit).2

variable {limit : Nat} {before : String × List Call} {count : Nat} {s s' : Session}

theorem Follows.output (h : Follows limit before count s s') :
    s.reader.console.output = before.1 ++ s'.reader.console.output := by
  rw [← Reader.output_read limit s.reader, ← Reader.output_read limit s'.reader]
  exact h.trails.output

theorem Follows.calls (h : Follows limit before count s s') :
    s.reader.console.calls = before.2 ++ s'.reader.console.calls := by
  rw [← Reader.calls_read limit s.reader, ← Reader.calls_read limit s'.reader]
  exact h.trails.calls

/-- What the readers have before the next reading decides. -/
theorem follows_of_reads (hinterpreter : s.interpreter = s'.interpreter)
    (hforms : s.forms = count + s'.forms)
    (hreads : Reader.Matches Reader.AnyTables (s.reader.read limit) (s'.reader.read limit))
    (houtput : s.reader.console.output = before.1 ++ s'.reader.console.output)
    (hcalls : s.reader.console.calls = before.2 ++ s'.reader.console.calls) :
    Follows limit before count s s' where
  interpreter := hinterpreter
  forms := hforms
  result := hreads.result
  trails := by
    refine ⟨hreads.inStep, ?_, ?_⟩
    · rw [Reader.output_read, Reader.output_read, houtput]
    · rw [Reader.calls_read, Reader.calls_read, hcalls]

theorem follows_of_trails (hinterpreter : s.interpreter = s'.interpreter)
    (hforms : s.forms = count + s'.forms) (h : Reader.Trails before s.reader s'.reader) :
    Follows limit before count s s' :=
  follows_of_reads hinterpreter hforms (Reader.read_inStep Reader.anyTables_insert h.inStep)
    h.output h.calls

theorem proceed_follows (hinterpreter : s.interpreter = s'.interpreter)
    (hforms : s.forms = count + s'.forms) {r r' : Reader} (h : Reader.Trails before r r')
    (result : Except ReadError Value) :
    (s.proceed limit r result).Both (Follows limit before count) (s'.proceed limit r' result) := by
  cases result with
  | error e =>
    cases e with
    | endOfInput => exact ⟨rfl, follows_of_trails hinterpreter hforms (h.record rfl rfl)⟩
    | interrupted => exact follows_of_trails hinterpreter hforms h.reset
    | unexpectedClose => exact follows_of_trails hinterpreter hforms (h.giveUp _ _)
    | tooDeep => exact follows_of_trails hinterpreter hforms (h.giveUp _ _)
  | ok form =>
    -- The interpreters are the same, so the form has the same answer.
    have hevaluated :
        Reader.Trails before (s.evaluated limit r form) (s'.evaluated limit r' form) := by
      rw [evaluated, evaluated, hinterpreter]
      exact h.recordAll _
    cases hprint : (s'.interpreter.evalForm limit form).2.bind Value.print with
    | error v =>
      rw [proceed_of_violation hprint, proceed_of_violation (hinterpreter ▸ hprint)]
      exact ⟨rfl, follows_of_trails hinterpreter hforms hevaluated⟩
    | ok text =>
      rw [proceed_of_text hprint, proceed_of_text (hinterpreter ▸ hprint)]
      have hcount : s.forms + 1 = count + (s'.forms + 1) := by omega
      exact follows_of_trails hinterpreter hcount (hevaluated.record rfl rfl)

theorem turn_follows (h : Follows limit before count s s') :
    (s.turn limit).Both (Follows limit before count) (s'.turn limit) := by
  unfold turn
  rw [h.result]
  exact proceed_follows h.interpreter h.forms h.trails _

/-! ## The last turn -/

/-- The session as it is before its last turn. -/
def last (limit : Nat) (s : Session) : Session :=
  match h : s.turn limit with
  | .next s' =>
    have := size_of_next h
    last limit s'
  | .finished _ _ => s
termination_by s.reader.size

theorem last_of_next (h : s.turn limit = .next s') : s.last limit = s'.last limit := by
  rw [last]
  split <;> simp_all

theorem last_of_finished {result : Except Violation Unit} (h : s.turn limit = .finished result s') :
    s.last limit = s := by
  rw [last]
  split <;> simp_all

theorem run_last (limit : Nat) (s : Session) : (s.last limit).run limit = s.run limit := by
  induction s using turn_induction limit with
  | step s ih =>
    cases hturn : s.turn limit with
    | next t => rw [last_of_next hturn, ih t hturn, run_of_next hturn]
    | finished result t => rw [last_of_finished hturn]

theorem interpreter_of_next (h : s.turn limit = .next s') : s'.interpreter = s.interpreter := by
  unfold turn at h
  cases hres : (s.reader.read limit).1 with
  | error e =>
    rw [hres] at h
    cases e <;> cases h <;> rfl
  | ok form =>
    rw [hres] at h
    cases hprint : (s.interpreter.evalForm limit form).2.bind Value.print with
    | error v =>
      rw [proceed_of_violation hprint] at h
      cases h
    | ok text =>
      rw [proceed_of_text hprint] at h
      cases h
      rfl

/-- A turn leaves the symbols that the reader gives as they are. -/
theorem naming_of_next (h : s.turn limit = .next s') : s'.reader.naming = s.reader.naming := by
  rw [← Reader.naming_read limit s.reader]
  unfold turn at h
  cases hres : (s.reader.read limit).1 with
  | error e =>
    rw [hres] at h
    cases e <;> cases h <;> rfl
  | ok form =>
    rw [hres] at h
    cases hprint : (s.interpreter.evalForm limit form).2.bind Value.print with
    | error v =>
      rw [proceed_of_violation hprint] at h
      cases h
    | ok text =>
      rw [proceed_of_text hprint] at h
      cases h
      rfl

theorem naming_last (limit : Nat) (s : Session) :
    (s.last limit).reader.naming = s.reader.naming := by
  induction s using turn_induction limit with
  | step s ih =>
    cases hturn : s.turn limit with
    | next t => rw [last_of_next hturn, ih t hturn, naming_of_next hturn]
    | finished result t => rw [last_of_finished hturn]

/-- A session begins with the symbols of its interpreter. -/
theorem naming_start (i : Interpreter) (prompts : Prompts) (console : Console) :
    (start i prompts console).reader.naming = i.symbols.naming :=
  Reader.naming_new prompts console i.symbols

theorem interpreter_last (limit : Nat) (s : Session) :
    (s.last limit).interpreter = s.interpreter := by
  induction s using turn_induction limit with
  | step s ih =>
    cases hturn : s.turn limit with
    | next t => rw [last_of_next hturn, ih t hturn, interpreter_of_next hturn]
    | finished result t => rw [last_of_finished hturn]

theorem turn_last (limit : Nat) (s : Session) :
    ∃ result s', (s.last limit).turn limit = .finished result s' := by
  induction s using turn_induction limit with
  | step s ih =>
    cases hturn : s.turn limit with
    | next t =>
      rw [last_of_next hturn]
      exact ih t hturn
    | finished result t =>
      rw [last_of_finished hturn]
      exact ⟨result, t, hturn⟩

/-- A session that breaks nothing ends where its last reading meets the end of input. -/
theorem run_eq_last (h : (s.run limit).1 = .ok ()) :
    ∃ r, (s.last limit).reader.read limit = (.error .endOfInput, r) ∧
      (s.run limit).2 = { s.last limit with
        reader := r.record (.logged (.endOfInput (s.last limit).forms)) } := by
  obtain ⟨result, t, hfinished⟩ := turn_last limit s
  have hrun := run_of_finished hfinished
  rw [run_last] at hrun
  rw [hrun] at h ⊢
  obtain rfl : result = .ok () := h
  unfold turn at hfinished
  cases hres : ((s.last limit).reader.read limit).1 with
  | error e =>
    rw [hres] at hfinished
    cases e with
    | endOfInput =>
      cases hfinished
      exact ⟨_, Prod.ext hres rfl, rfl⟩
    | _ => cases hfinished
  | ok form =>
    rw [hres] at hfinished
    simp only [proceed] at hfinished
    split at hfinished <;> cases hfinished

/-! ## More input behind a session -/

/-- The session to which more line events will come behind those that are pending. -/
def withMore (s : Session) (more : List LineEvent) : Session :=
  { s with reader := s.reader.withMore more }

theorem proceed_withMore (limit : Nat) (s t : Session) (r : Reader)
    {result : Except ReadError Value} (h : s.proceed limit r result = .next t)
    (more : List LineEvent) :
    (s.withMore more).proceed limit (r.withMore more) result = .next (t.withMore more) := by
  cases result with
  | error e => cases e <;> cases h <;> rfl
  | ok form =>
    cases hprint : (s.interpreter.evalForm limit form).2.bind Value.print with
    | error v =>
      rw [proceed_of_violation hprint] at h
      cases h
    | ok text =>
      rw [proceed_of_text hprint] at h
      cases h
      exact proceed_of_text hprint

theorem turn_withMore {t : Session} (h : s.turn limit = .next t) (more : List LineEvent) :
    (s.withMore more).turn limit = .next (t.withMore more) := by
  have hend : (s.reader.read limit).1 ≠ .error .endOfInput := by
    intro hend
    rw [turn, hend] at h
    cases h
  have hread : (s.withMore more).reader.read limit =
      ((s.reader.read limit).1, (s.reader.read limit).2.withMore more) :=
    Reader.read_withMore (Prod.eta _).symm hend more
  rw [turn, hread]
  exact proceed_withMore limit s t _ h more

/-- With more input behind, a session goes on from where it would have taken its last turn. -/
theorem run_withMore (limit : Nat) (s : Session) (more : List LineEvent) :
    (s.withMore more).run limit = ((s.last limit).withMore more).run limit := by
  induction s using turn_induction limit with
  | step s ih =>
    cases hturn : s.turn limit with
    | next t => rw [run_of_next (turn_withMore hturn more), last_of_next hturn, ih t hturn]
    | finished result t => rw [last_of_finished hturn]

theorem start_withMore (i : Interpreter) (prompts : Prompts) (first later : List LineEvent) :
    (start i prompts (.ofEvents first)).withMore later =
      start i prompts (.ofEvents (first ++ later)) :=
  rfl

/-! ## A session behind another one -/

/-- What a session has written and called so far. -/
def behind (s : Session) : String × List Call := (s.reader.console.output, s.reader.console.calls)

theorem run_follows (h : Follows limit before count s s') :
    Follows limit before count (s.run limit).2 (s'.run limit).2 :=
  (run_simulates (fun _ _ hturn => turn_follows hturn) h).2

/-- Where only closing parentheses are left to skip, a session with more input behind goes on as a
new one on that input begins. -/
theorem withMore_follows_start {r : Reader} (hread : s.reader.read limit = (.error .endOfInput, r))
    (hnaming : s.reader.naming = s.interpreter.symbols.naming)
    (hcloses : ∀ token ∈ s.reader.tokens, token = .rparen) (prompts : Prompts)
    (more : List LineEvent) :
    Follows limit s.behind s.forms (s.withMore more)
      (start s.interpreter prompts (.ofEvents more)) := by
  have hleft := (Reader.hasLeft_of_endOfInput hread).1
  refine follows_of_reads rfl rfl ?_ ?_ ?_
  · exact Reader.read_withMore_of_closes
      (q := (start s.interpreter prompts (.ofEvents more)).reader) hleft hcloses
      (hnaming.trans (naming_start _ _ _).symm) (lex_of_next?_eq_none rfl)
  · exact String.append_empty.symm
  · exact (List.append_nil _).symm

/-- An interruption at the end makes a session drop whatever form it is in the middle of, and then
it goes on as a new one begins. -/
theorem withMore_interrupt_follows_start {r : Reader}
    (hread : s.reader.read limit = (.error .endOfInput, r))
    (hnaming : s.reader.naming = s.interpreter.symbols.naming) (prompts : Prompts)
    (more : List LineEvent) :
    ∃ t, (s.withMore (.interrupt :: more)).turn limit = .next t ∧
      Follows limit s.behind s.forms t (start s.interpreter prompts (.ofEvents more)) := by
  obtain ⟨q, hq, hpending⟩ := Reader.read_withMore_interrupt hread more
  have hqread : (s.withMore (.interrupt :: more)).reader.read limit = (.error .interrupted, q) := hq
  have hqnaming : q.naming = s.reader.naming := by
    have hread := Reader.naming_read limit (s.withMore (.interrupt :: more)).reader
    rw [hqread] at hread
    exact hread
  refine ⟨{ s with reader := q.reset }, ?_, ?_⟩
  · rw [turn, hqread]
    rfl
  · have hsymbols := (hqnaming.trans hnaming).trans (naming_start _ prompts (.ofEvents more)).symm
    refine follows_of_trails rfl rfl ⟨⟨hpending, rfl, hsymbols, trivial⟩, ?_, ?_⟩
    · -- The reading that was interrupted has written nothing.
      have houtput := Reader.output_read limit (s.withMore (.interrupt :: more)).reader
      rw [hqread] at houtput
      exact houtput.trans String.append_empty.symm
    · have hcalls := Reader.calls_read limit (s.withMore (.interrupt :: more)).reader
      rw [hqread] at hcalls
      exact hcalls.trans (List.append_nil _).symm

/-- The last turn of a session that breaks nothing writes, calls and counts nothing. -/
theorem behind_last (h : (s.run limit).1 = .ok ()) :
    (s.last limit).behind = (s.run limit).2.behind ∧
      (s.last limit).forms = (s.run limit).2.forms := by
  obtain ⟨r, hread, hrun⟩ := run_eq_last h
  have houtput := Reader.output_read limit (s.last limit).reader
  have hcalls := Reader.calls_read limit (s.last limit).reader
  rw [hread] at houtput hcalls
  rw [hrun]
  refine ⟨?_, rfl⟩
  simp [behind, Reader.record, Event.text, Event.calls, houtput, hcalls]

/-- What is seen of two sessions adds up to what is seen of another one: the text written, the calls
made and the forms counted. -/
structure AddUp (first later both : Session) : Prop where
  output : both.reader.console.output =
    first.reader.console.output ++ later.reader.console.output
  calls : both.reader.console.calls = first.reader.console.calls ++ later.reader.console.calls
  forms : both.forms = first.forms + later.forms

/-- A session that goes on behind the last turn of another one adds up with it. -/
theorem addUp_of_follows {t : Session} (h : (s.run limit).1 = .ok ())
    (hfollows : Follows limit (s.last limit).behind (s.last limit).forms t s') :
    AddUp (s.run limit).2 (s'.run limit).2 (t.run limit).2 := by
  have hended := run_follows hfollows
  obtain ⟨hbehind, hforms⟩ := behind_last h
  rw [hbehind, hforms] at hended
  exact ⟨hended.output, hended.calls, hended.forms⟩

/-- **Sessions compose.** Take sessions that start with nothing but the builtins bound. Each of them
ends with a reading that takes all the tokens left and meets the end of input, after which the
number of its forms is logged. If that last reading of the session on `first` takes no token but
closing parentheses to skip, then the session on `first ++ later` writes what the sessions on
`first` and on `later` write one after the other, makes their calls and counts their forms. If an
interruption stands between `first` and `later`, this is so however `first` ends. -/
theorem run_append (limit : Nat) (symbols : SymbolTable) (host : Host) (prompts : Prompts) :
    let begun (events : List LineEvent) :=
      start (Interpreter.new symbols host) prompts (.ofEvents events)
    let ended (events : List LineEvent) := ((begun events).run limit).2
    (∀ events,
      ((begun events).last limit).run limit = (begun events).run limit ∧
      (((begun events).last limit).reader.read limit).1 = .error .endOfInput ∧
      (((begun events).last limit).reader.read limit).2.tokens = [] ∧
      (ended events).reader.console.log.getLast? = some (.endOfInput (ended events).forms)) ∧
    (∀ first later, (∀ token ∈ ((begun first).last limit).reader.tokens, token = .rparen) →
      AddUp (ended first) (ended later) (ended (first ++ later))) ∧
    ∀ first later, AddUp (ended first) (ended later) (ended (first ++ .interrupt :: later)) := by
  intro begun ended
  have hok (events : List LineEvent) : ((begun events).run limit).1 = .ok () :=
    (run_lawful limit (start_lawful symbols host prompts events)).1
  have hinterpreter (events : List LineEvent) :
      ((begun events).last limit).interpreter = Interpreter.new symbols host :=
    interpreter_last limit (begun events)
  have hnaming (events : List LineEvent) : ((begun events).last limit).reader.naming =
      ((begun events).last limit).interpreter.symbols.naming := by
    rw [naming_last, interpreter_last]
    exact naming_start _ _ _
  refine ⟨?_, ?_, ?_⟩
  · intro events
    obtain ⟨r, hread, hrun⟩ := run_eq_last (hok events)
    refine ⟨run_last limit _, congrArg Prod.fst hread, ?_, ?_⟩
    · rw [hread]
      exact (Reader.hasLeft_of_endOfInput hread).2
    · simp only [ended, hrun, Reader.record, Console.log_record_logged, List.getLast?_concat]
  · intro first later hcloses
    obtain ⟨r, hread, -⟩ := run_eq_last (hok first)
    have hfollows := withMore_follows_start hread (hnaming first) hcloses prompts later
    rw [hinterpreter] at hfollows
    have hrun : (begun (first ++ later)).run limit =
        (((begun first).last limit).withMore later).run limit := by
      rw [← run_withMore, start_withMore]
    simp only [ended, hrun]
    exact addUp_of_follows (hok first) hfollows
  · intro first later
    obtain ⟨r, hread, -⟩ := run_eq_last (hok first)
    obtain ⟨t, hturn, hfollows⟩ :=
      withMore_interrupt_follows_start hread (hnaming first) prompts later
    rw [hinterpreter] at hfollows
    have hrun : (begun (first ++ .interrupt :: later)).run limit = t.run limit := by
      rw [← run_of_next hturn, ← run_withMore, start_withMore]
    simp only [ended, hrun]
    exact addUp_of_follows (hok first) hfollows

/-- The first session ends behind a syntax error and a form, with a closing parenthesis to skip;
with an opening one there instead, only an interruption makes the sessions add up. -/
theorem run_append_after_close :
    let ended (events : List LineEvent) :=
      ((start (Interpreter.new ∅ Host.none) {} (.ofEvents events)).run 9).2
    let close : List LineEvent := [.line "'x ')", .line "(+ 1 2) )"]
    let opened : List LineEvent := [.line "'x ')", .line "(+ 1 2) ("]
    let later : List LineEvent := [.line "+ 1)"]
    AddUp (ended close) (ended later) (ended (close ++ later)) ∧
    ¬ AddUp (ended opened) (ended later) (ended (opened ++ later)) ∧
    AddUp (ended opened) (ended later) (ended (opened ++ .interrupt :: later)) := by
  intro ended close opened later
  obtain ⟨-, hcloses, hinterrupt⟩ := run_append 9 ∅ Host.none {}
  refine ⟨hcloses close later (by decide +kernel), ?_, hinterrupt opened later⟩
  intro h
  exact absurd h.forms (by decide +kernel)

end Session

end PocketLisp

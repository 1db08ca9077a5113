import PocketLisp.Proofs.Program.Start
import PocketLisp.Proofs.Session.Unprompted

/-!
# What the presentation does not change

Prompts and the level of the log decide how a program looks. What it reads, calls and writes and how
it ends is decided by the limit and the input alone (`Program.run_ignores_presentation`): two
sessions that differ in their prompts are the same session with the prompts taken away.
-/

namespace PocketLisp

namespace Session

/-- Sessions that run alike: the readings come to the same, the same text is written, the same is
logged, the same calls are made, as many lines are pulled, and both end with the same result. -/
structure Alike (limit : Nat) (s s' : Session) : Prop where
  result : (s.run limit).1 = (s'.run limit).1
  readings : s.readings limit = s'.readings limit
  output : (s.run limit).2.reader.console.output = (s'.run limit).2.reader.console.output
  log : (s.run limit).2.reader.console.log = (s'.run limit).2.reader.console.log
  calls : (s.run limit).2.reader.console.calls = (s'.run limit).2.reader.console.calls
  pulled : (s.run limit).2.reader.console.answeredPrompts.length =
    (s'.run limit).2.reader.console.answeredPrompts.length
  unread : (s.run limit).2.reader.console.pending = (s'.run limit).2.reader.console.pending

/-- Sessions that differ in prompts only run alike. -/
theorem alike_of_unprompted_eq {limit : Nat} {s s' : Session} (h : s.unprompted = s'.unprompted) :
    Alike limit s s' := by
  have hrun : ((s.run limit).1, (s.run limit).2.unprompted) =
      ((s'.run limit).1, (s'.run limit).2.unprompted) := by
    rw [← run_unprompted, ← run_unprompted, h]
  obtain ⟨hresult, hended⟩ := Prod.mk.inj hrun
  have hconsole : (s.run limit).2.reader.console.unprompted =
      (s'.run limit).2.reader.console.unprompted :=
    congrArg (·.reader.console) hended
  constructor
  case result => exact hresult
  case readings => rw [← readings_unprompted, h, readings_unprompted]
  case output => rw [← Console.output_unprompted, hconsole, Console.output_unprompted]
  case log => rw [← Console.log_unprompted, hconsole, Console.log_unprompted]
  case calls => rw [← Console.calls_unprompted, hconsole, Console.calls_unprompted]
  case pulled =>
    rw [← Console.length_answeredPrompts_unprompted, hconsole,
      Console.length_answeredPrompts_unprompted]
  case unread =>
    have hpending := congrArg Console.pending hconsole
    exact hpending

theorem start_alike (limit : Nat) (i : Interpreter) (prompts prompts' : Prompts)
    (events : List LineEvent) :
    Alike limit (start i prompts (.ofEvents events)) (start i prompts' (.ofEvents events)) :=
  alike_of_unprompted_eq rfl

end Session

namespace Program

open Settings

/-- Started with the same limit, programs end the same way and have written and left the same. -/
theorem session_alike (s s' : Start) (hlimit : s.limit = s'.limit) (i : Interpreter)
    (events : List LineEvent) :
    (session s i events).1 = (session s' i events).1 ∧
      (session s i events).2.output = (session s' i events).2.output ∧
      (session s i events).2.pending = (session s' i events).2.pending := by
  have halike := Session.start_alike s.limit i s.prompts s'.prompts events
  have hresult := halike.result
  have houtput := halike.output
  have hunread := halike.unread
  simp only [session, ← hlimit]
  rw [← hresult]
  split
  · exact ⟨rfl, houtput, hunread⟩
  · refine ⟨rfl, ?_, hunread⟩
    rw [Console.output_record, Console.output_record, houtput]

/-- **The presentation changes no result.** Whatever a session is given to read, any two settings
make it run alike. And a program comes to the same under any two settings that agree on the limit
and choose a level that exists: it writes the same, ends in the same way and leaves the same
unread. -/
theorem run_ignores_presentation (runtime : Runtime) (i : Interpreter) (events : List LineEvent) :
    (∀ (settings settings' : Settings) (limit : Nat),
      Session.Alike limit (Session.start i settings.prompts (.ofEvents events))
        (Session.start i settings'.prompts (.ofEvents events))) ∧
    ∀ vars vars' : Variables, vars "BL_RECURSION_LIMIT" = vars' "BL_RECURSION_LIMIT" →
      KnownLevel vars → KnownLevel vars' →
      (run runtime vars i events).output = (run runtime vars' i events).output ∧
      (run runtime vars i events).ending = (run runtime vars' i events).ending ∧
      (run runtime vars i events).unread = (run runtime vars' i events).unread := by
  refine ⟨fun settings settings' limit => Session.start_alike limit i _ _ events, ?_⟩
  rintro vars vars' hvar ⟨level, hlevel⟩ ⟨level', hlevel'⟩
  have hinteger : integerVariable runtime.digitCap vars "BL_RECURSION_LIMIT" =
      integerVariable runtime.digitCap vars' "BL_RECURSION_LIMIT" := by
    rw [integerVariable, integerVariable, hvar]
  cases hlimit : integerVariable runtime.digitCap vars "BL_RECURSION_LIMIT" with
  | error e =>
    rw [hlimit] at hinteger
    simp only [run, start, ofVariables, hlimit, ← hinteger, Except.map, and_self]
  | ok limit =>
    rw [hlimit] at hinteger
    have hstart := start_of_level hlimit hlevel
    have hstart' := start_of_level hinteger.symm hlevel'
    cases hnesting : nesting runtime limit with
    | error refusal =>
      rw [hnesting] at hstart hstart'
      cases refusal <;> simp only [run, hstart, hstart', Except.map, and_self]
    | ok depth =>
      rw [hnesting] at hstart hstart'
      obtain ⟨hstatus, houtput, hunread⟩ := session_alike ⟨promptsOf vars, level, depth⟩
        ⟨promptsOf vars', level', depth⟩ rfl i events
      simp only [run, hstart, hstart', Except.map]
      exact ⟨houtput, congrArg Ending.exit hstatus, hunread⟩

/-- A prompt and a lower level change the log, and nothing else. -/
theorem run_ignores_presentation_low_level :
    let runtime : Runtime := ⟨3, 1000, some 4300, (· - 1)⟩
    let vars : Variables := fun name =>
      if name = "BL_PROMPT" then some "? " else
      if name = "BL_LOG_LEVEL" then some "Info" else none
    let outcome (vars : Variables) :=
      run runtime vars (Interpreter.new ∅ Host.none) (pipedEvents "(+ 1\n 2)')")
    (outcome vars).output = (outcome fun _ => none).output ∧
    (outcome vars).ending = (outcome fun _ => none).ending ∧
    (outcome vars).errors ≠ (outcome fun _ => none).errors := by
  intro runtime vars outcome
  have hinfo : KnownLevel vars := ⟨.info, by decide +kernel⟩
  have hdefault : KnownLevel fun _ => none := knownLevel_of_none rfl
  obtain ⟨houtput, hending, -⟩ := (run_ignores_presentation runtime (Interpreter.new ∅ Host.none)
    (pipedEvents "(+ 1\n 2)')")).2 vars (fun _ => none) rfl hinfo hdefault
  exact ⟨houtput, hending, by decide +kernel⟩

end Program

end PocketLisp

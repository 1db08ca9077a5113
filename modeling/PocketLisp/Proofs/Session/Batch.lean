import PocketLisp.Proofs.Session.Composition

/-!
# A program text at once, or line by line

A program text may be evaluated at once, when all of it is read before any form is evaluated, or it
may be given to a session, which evaluates and writes each form before it reads the next. As reading
and evaluating have nothing to do with each other, both come to the same (`run_agrees_with_eval`).
They differ where the text cannot be read: then nothing of it is evaluated at once.
-/

namespace PocketLisp

/-! ## Reading all forms -/

/-- What reading does: it asks for lines, and reports the closing parentheses that it skips. -/
def Event.OfReading : Event → Prop
  | asked _ _ => True
  | logged (.strayClose _) => True
  | _ => False

theorem Console.calls_of_ofReading {console : Console}
    (h : ∀ event ∈ console.events, event.OfReading) : console.calls = [] := by
  rw [calls_eq, List.flatMap_eq_nil_iff]
  intro event hevent
  have hreading := h event hevent
  cases event with
  | called call => exact hreading.elim
  | _ => rfl

namespace Reader

/-- Readings of the forms, one after the other, and behind them the end of input. -/
inductive ReadsAll (limit : Nat) : Reader → List Value → Reader → Prop where
  | done {r r' : Reader} : r.read limit = (.error .endOfInput, r') → ReadsAll limit r [] r'
  | form {r r₁ r' : Reader} {form : Value} {forms : List Value} :
    r.read limit = (.ok form, r₁) → ReadsAll limit r₁ forms r' → ReadsAll limit r (form :: forms) r'

theorem readsAll_of_readAllFrom {limit : Nat} {before forms : List Value} {r r' : Reader}
    (h : r.readAllFrom limit before = (.ok forms, r')) :
    ∃ more, forms = before.reverse ++ more ∧ ReadsAll limit r more r' := by
  fun_induction readAllFrom limit before r with
  | case1 before r form r₁ hread _ ih =>
    obtain ⟨more, rfl, hmore⟩ := ih h
    exact ⟨form :: more, by simp, .form hread hmore⟩
  | case2 before r r₁ hread =>
    cases h
    exact ⟨[], by simp, .done hread⟩
  | case3 => cases h

/-- Reading a text to its end without a failure is reading its forms one by one. -/
theorem readsAll_of_readAll {limit : Nat} {forms : List Value} {r r' : Reader}
    (h : r.readAll limit = (.ok forms, r')) : ReadsAll limit r forms r' := by
  obtain ⟨more, rfl, hmore⟩ := readsAll_of_readAllFrom h
  exact hmore

/-- What holds of a console whatever is asked and whatever is reported as skipped holds after
reading all forms, and where that fails. -/
theorem readAllFrom_console {P : Console → Prop}
    (hask : ∀ console prompt, P console → P (console.ask prompt).2)
    (hskip : ∀ console line, P console → P (console.record (.logged (.strayClose line))))
    {limit : Nat} {forms : List Value} {r r' : Reader} {result : Except ReadError (List Value)}
    (h : P r.console) (hread : r.readAllFrom limit forms = (result, r')) : P r'.console := by
  fun_induction readAllFrom limit forms r with
  | case1 forms r form r₁ hone _ ih => exact ih (read_console hask hskip h hone) hread
  | case2 forms r r₁ hone =>
    cases hread
    exact read_console hask hskip h hone
  | case3 forms r e r₁ _ hone =>
    cases hread
    exact read_console hask hskip h hone

/-- Nothing but what reading does has happened. -/
theorem events_readAll {limit : Nat} {r r' : Reader} {result : Except ReadError (List Value)}
    (h : ∀ event ∈ r.console.events, event.OfReading) (hread : r.readAll limit = (result, r')) :
    ∀ event ∈ r'.console.events, event.OfReading := by
  apply readAllFrom_console (P := fun console => ∀ event ∈ console.events, event.OfReading) _ _ h
    hread
  · intro console prompt hconsole event hevent
    rw [Console.events_ask] at hevent
    rcases List.mem_append.1 hevent with hevent | hevent
    · exact hconsole event hevent
    · rw [List.mem_singleton.1 hevent]
      exact trivial
  · intro console line hconsole event hevent
    rw [Console.events_record] at hevent
    rcases List.mem_append.1 hevent with hevent | hevent
    · exact hconsole event hevent
    · rw [List.mem_singleton.1 hevent]
      exact trivial

/-- Without interruptions, forms cannot be read for two reasons only. -/
theorem readAllFrom_error {limit : Nat} {forms : List Value} {r r' : Reader} {e : ReadError}
    {tokens : List Token} (h : r.HasLeft tokens)
    (hread : r.readAllFrom limit forms = (.error e, r')) : e = .unexpectedClose ∨ e = .tooDeep := by
  fun_induction readAllFrom limit forms r generalizing tokens with
  | case1 forms r form r₁ hone _ ih =>
    have hleft := (read_eq_run limit h).2
    rw [hone] at hleft
    exact ih hleft hread
  | case2 => cases hread
  | case3 forms r e' r₁ hend hone =>
    cases hread
    have hres := (read_eq_run limit h).1
    rw [hone] at hres
    cases e with
    | endOfInput => exact absurd rfl hend
    | unexpectedClose => exact .inl rfl
    | tooDeep => exact .inr rfl
    | interrupted =>
      cases hrun : (Form.run r.naming limit [] (tokens.dropWhile (· == .rparen))).1 <;>
        simp [hrun, Progress.outcome, Except.map] at hres

/-- A reader in step with one that reads something reads it too, and has the same names afterwards
if they had the same before. -/
theorem read_eq_of_inStep {limit : Nat} {r r' q : Reader} {result : Except ReadError Value}
    (h : r.read limit = (result, r')) (hstep : r.InStep Eq q) :
    ∃ q', q.read limit = (result, q') ∧ r'.InStep Eq q' ∧
      q'.console.output = q.console.output ∧ q'.console.calls = q.console.calls := by
  have hinsert (table table' : SymbolTable) (name : String) (heq : table = table') :
      table.insert name = table'.insert name :=
    congrArg (·.insert name) heq
  have hmatches : Matches Eq (r.read limit) (q.read limit) := read_inStep hinsert hstep
  rw [h] at hmatches
  obtain ⟨q', hq, hstep'⟩ := hmatches.exists_eq
  have houtput := output_read limit q
  have hcalls := calls_read limit q
  rw [hq] at houtput hcalls
  exact ⟨q', hq, hstep', houtput, hcalls⟩

end Reader

/-! ## Evaluating forms one after the other -/

namespace Interpreter

/-- The forms have results just if the first one has and the others have. -/
theorem evalForms_cons_eq_ok {limit : Nat} {i : Interpreter} {console console' : Console}
    {form : Value} {forms results : List Value}
    (h : i.evalForms limit console (form :: forms) = (.ok results, console')) :
    ∃ v others, (i.evalForm limit form).2 = .ok v ∧ results = v :: others ∧
      i.evalForms limit (console.recordAll (i.evalForm limit form).1) forms =
        (.ok others, console') := by
  simp only [evalForms] at h
  cases hform : (i.evalForm limit form).2 with
  | error v => simp [hform] at h
  | ok v =>
    simp only [hform] at h
    obtain ⟨hresults, hconsole⟩ := Prod.mk.inj h
    rcases hforms : i.evalForms limit (console.recordAll (i.evalForm limit form).1) forms with
      ⟨_ | others, console₁⟩
    · rw [hforms] at hresults
      cases hresults
    · rw [hforms] at hresults hconsole
      cases hresults
      cases hconsole
      exact ⟨v, others, rfl, rfl, rfl⟩

theorem join_text_called (calls : List Call) :
    String.join ((calls.map Event.called).map Event.text) = "" := by
  induction calls with
  | nil => rfl
  | cons call calls ih =>
    rw [List.map_cons, List.map_cons, String.join_cons, ih]
    rfl

/-- Evaluating a form writes nothing. -/
theorem join_text_evalForm (limit : Nat) (i : Interpreter) (form : Value) :
    String.join ((i.evalForm limit form).1.map Event.text) = "" := by
  have hcalls := join_text_called (evaluate i.basis limit i.env form).calls
  simp only [evalForm]
  split
  · exact hcalls
  · rw [List.map_append, String.join_append, hcalls]
    rfl
  · exact hcalls

theorem readAll_of_eval {limit : Nat} {i : Interpreter} {code : String} {results : List Value}
    (h : (i.eval limit code).1 = .ok results) :
    ∃ forms r, i.readAll limit code = (.ok forms, r) ∧
      (i.evalForms limit r.console forms).1 = .ok results ∧
      (i.eval limit code).2 = (i.learn r, (i.evalForms limit r.console forms).2) := by
  unfold eval at h ⊢
  rcases hread : i.readAll limit code with ⟨e | forms, r⟩
  · simp [hread] at h
  · refine ⟨forms, r, rfl, ?_, rfl⟩
    simp only [hread] at h
    cases hresults : (i.evalForms limit r.console forms).1 with
    | error v =>
      rw [hresults] at h
      cases h
    | ok results' =>
      rw [hresults] at h
      cases h
      rfl

theorem readAll_of_eval_error {limit : Nat} {i : Interpreter} {code : String} {e : ReadError}
    (h : (i.eval limit code).1 = .error (.reading e)) :
    ∃ r, i.readAll limit code = (.error e, r) := by
  unfold eval at h
  rcases hread : i.readAll limit code with ⟨e' | forms, r⟩
  · simp only [hread] at h
    cases h
    exact ⟨r, rfl⟩
  · simp only [hread] at h
    cases hresults : (i.evalForms limit r.console forms).1 <;>
      rw [hresults] at h <;> cases h

/-- A text that cannot be read is not evaluated: the matter ends with the reading. -/
theorem eval_of_readAll_error {limit : Nat} {i : Interpreter} {code : String} {e : ReadError}
    {r : Reader} (h : i.readAll limit code = (.error e, r)) :
    i.eval limit code = (.error (.reading e), i.learn r, r.console) := by
  simp only [eval, h]

end Interpreter

/-! ## Line by line -/

theorem Value.mapM_print_cons {v : Value} {values : List Value} {texts : List String}
    (h : (v :: values).mapM print = .ok texts) :
    ∃ text others, v.print = .ok text ∧ values.mapM print = .ok others ∧
      texts = text :: others := by
  rw [List.mapM_cons] at h
  cases hprint : v.print with
  | error violation =>
    rw [hprint] at h
    cases h
  | ok text =>
    rw [hprint] at h
    cases hothers : values.mapM print with
    | error violation =>
      rw [hothers] at h
      cases h
    | ok others =>
      rw [hothers] at h
      cases h
      exact ⟨text, others, rfl, rfl, rfl⟩

namespace Session

variable {limit : Nat} {s : Session}

theorem turn_of_text {r : Reader} {form v : Value} {text : String}
    (hread : s.reader.read limit = (.ok form, r))
    (hform : (s.interpreter.evalForm limit form).2 = .ok v) (hprint : v.print = .ok text) :
    s.turn limit = .next { s with
      reader := (s.evaluated limit r form).record (.wrote (text ++ "\n"))
      forms := s.forms + 1 } := by
  have htext : (s.interpreter.evalForm limit form).2.bind Value.print = .ok text := by
    rw [hform]
    exact hprint
  rw [turn, hread]
  exact proceed_of_text htext

/-- A session in step with a reader that reads all forms answers them all, writing the texts of the
results that they have one after the other, and making the same calls. -/
theorem run_of_readsAll {forms : List Value} {r r' : Reader}
    (h : Reader.ReadsAll limit r forms r') (hstep : r.InStep Eq s.reader)
    {console console' : Console} (hcalls : s.reader.console.calls = console.calls)
    {results : List Value}
    (heval : s.interpreter.evalForms limit console forms = (.ok results, console'))
    {texts : List String} (hprint : results.mapM Value.print = .ok texts) :
    (s.run limit).1 = .ok () ∧
    (s.run limit).2.reader.console.output =
      s.reader.console.output ++ String.join (texts.map (· ++ "\n")) ∧
    (s.run limit).2.reader.console.calls = console'.calls ∧
    (s.run limit).2.reader.symbols = r'.symbols := by
  induction h generalizing s console results texts with
  | @done r r' hread =>
    obtain ⟨q, hq, hstep', houtput, hcallsq⟩ := Reader.read_eq_of_inStep hread hstep
    have hturn : s.turn limit =
        .finished (.ok ()) { s with reader := q.record (.logged (.endOfInput s.forms)) } := by
      rw [turn, hq]
      rfl
    cases heval
    cases hprint
    rw [run_of_finished hturn]
    refine ⟨rfl, ?_, ?_, hstep'.symbols.symm⟩
    · simp [Reader.record, Event.text, houtput, String.join_nil]
    · simp [Reader.record, Event.calls, hcallsq, hcalls]
  | @form r r₁ r' form forms hread _ ih =>
    obtain ⟨q, hq, hstep', houtput, hcallsq⟩ := Reader.read_eq_of_inStep hread hstep
    obtain ⟨v, others, hform, rfl, hothers⟩ := Interpreter.evalForms_cons_eq_ok heval
    obtain ⟨text, others', htext, hprint', rfl⟩ := Value.mapM_print_cons hprint
    rw [run_of_next (turn_of_text hq hform htext)]
    -- The answer to the form is on record, and for the rest the session is still in step.
    have hanswered : r₁.InStep Eq ((s.evaluated limit q form).record (.wrote (text ++ "\n"))) :=
      ⟨hstep'.pending, hstep'.tokens, hstep'.naming, hstep'.symbols⟩
    have hcalls' : ((s.evaluated limit q form).record (.wrote (text ++ "\n"))).console.calls =
        (console.recordAll (s.interpreter.evalForm limit form).1).calls := by
      simp [evaluated, Reader.record, Event.calls, hcallsq, hcalls]
    obtain ⟨hok, hout, hrest⟩ := ih (s := { s with
        reader := (s.evaluated limit q form).record (.wrote (text ++ "\n"))
        forms := s.forms + 1 })
      hanswered hcalls' hothers hprint'
    refine ⟨hok, ?_, hrest⟩
    rw [hout]
    simp [evaluated, Reader.record, houtput, Event.text, Interpreter.join_text_evalForm,
      String.join_cons, String.append_assoc]

/-- **At once or line by line.** Let a program text be evaluated at once, and let its lines be given
to a session of the same interpreter, whatever is bound and however the native functions of the host
answer. If the evaluation has results and all of them can be printed, then the session ends with
status 0, has written their texts, each on a line of its own, has made the same calls in the same
order, and has interned the same names. And if the evaluation fails in reading, because a quote mark
is followed by a closing parenthesis or a form nests too deep, then no form was evaluated: nothing
has happened but reading, no native function was called, and what the root frame binds, what the
host answers and which symbols have a meaning of their own has no part in it. -/
theorem run_agrees_with_eval (limit : Nat) (i : Interpreter) (code : String) (prompts : Prompts)
    (level : Level) :
    let batch := i.eval limit code
    let ended := (start i prompts (.ofLines (Text.splitLines code))).run limit
    (∀ results texts, batch.1 = .ok results → results.mapM Value.print = .ok texts →
      ended.1 = .ok () ∧
      Program.session ⟨prompts, level, limit⟩ i ((Text.splitLines code).map .line) =
        (0, ended.2.reader.console) ∧
      ended.2.reader.console.output = String.join (texts.map (· ++ "\n")) ∧
      ended.2.reader.console.calls = batch.2.2.calls ∧
      ended.2.finish.symbols = batch.2.1.symbols) ∧
    ∀ e, batch.1 = .error (.reading e) →
      (e = .unexpectedClose ∨ e = .tooDeep) ∧
      batch.2.2.calls = [] ∧
      (∀ event ∈ batch.2.2.events, event.OfReading) ∧
      ∀ root basis, let other := { i with root := root, basis := basis }.eval limit code
        other.1 = batch.1 ∧ other.2.1.symbols = batch.2.1.symbols ∧ other.2.2 = batch.2.2 := by
  intro batch ended
  have hnew : ∀ event ∈ (i.reader {} (.ofLines (Text.splitLines code))).console.events,
      event.OfReading := by
    intro event hevent
    cases hevent
  refine ⟨?_, ?_⟩
  · intro results texts hresults htexts
    obtain ⟨forms, r, hread, heval, hafter⟩ := Interpreter.readAll_of_eval hresults
    have hcalls : (start i prompts (.ofLines (Text.splitLines code))).reader.console.calls =
        r.console.calls :=
      (Console.calls_of_ofReading (Reader.events_readAll hnew hread)).symm
    have hstep : (i.reader {} (.ofLines (Text.splitLines code))).InStep Eq
        (start i prompts (.ofLines (Text.splitLines code))).reader :=
      ⟨rfl, rfl, rfl, rfl⟩
    obtain ⟨hok, houtput, hsame, hsymbols⟩ :=
      run_of_readsAll (Reader.readsAll_of_readAll hread) hstep hcalls (Prod.ext heval rfl) htexts
    have hended : (start i prompts (.ofEvents ((Text.splitLines code).map .line))).run limit =
        (.ok (), ended.2) :=
      Prod.ext hok rfl
    refine ⟨hok, ?_, ?_, ?_, ?_⟩
    · simp only [Program.session, hended]
    · rw [houtput]
      exact String.empty_append
    · rw [hafter]
      exact hsame
    · rw [hafter]
      exact hsymbols
  · intro e he
    obtain ⟨r, hread⟩ := Interpreter.readAll_of_eval_error he
    have hbatch : batch = (.error (.reading e), i.learn r, r.console) :=
      Interpreter.eval_of_readAll_error hread
    have hreading := Reader.events_readAll hnew hread
    rw [hbatch]
    refine ⟨?_, Console.calls_of_ofReading hreading, hreading, ?_⟩
    · have hleft := (Reader.new_shows {} i.symbols (Text.splitLines code)).hasLeft
      exact Reader.readAllFrom_error hleft hread
    · intro root basis other
      have hother : other = (.error (.reading e), { i with root := root, basis := basis }.learn r,
          r.console) :=
        Interpreter.eval_of_readAll_error (i := { i with root := root, basis := basis }) hread
      rw [hother]
      exact ⟨rfl, rfl, rfl⟩

/-- A text with a call of the host, an error value and a closing parenthesis to skip; and one that
cannot be read behind a form with such a call. -/
theorem run_agrees_with_eval_host_call :
    let i : Interpreter :=
      { Interpreter.new ∅ (fun _ arguments => .ok arguments) with
        root := (Frame.builtins .first).set (.first "echo") (.native (.host 0 "echo")) }
    let code := "(echo 1 2)\n) (car 3\n)"
    let ended := (start i {} (.ofLines (Text.splitLines code))).run 9
    (ended.1 = .ok () ∧
      ended.2.reader.console.output = "(1 . (2 . NIL))\nERROR: expected cons\n" ∧
      ended.2.reader.console.calls = (i.eval 9 code).2.2.calls ∧
      (i.eval 9 code).2.2.calls.length = 2) ∧
    (i.eval 9 "(echo 1 2)\n')").2.2.calls = [] := by
  intro i code ended
  refine ⟨?_, ?_⟩
  · have hprinted : (i.eval 9 code).1.toOption.bind (fun results =>
        (results.mapM Value.print).toOption) =
          some ["(1 . (2 . NIL))", "ERROR: expected cons"] := by
      decide +kernel
    cases hresults : (i.eval 9 code).1 with
    | error e =>
      rw [hresults] at hprinted
      cases hprinted
    | ok results =>
      rw [hresults] at hprinted
      cases htexts : results.mapM Value.print with
      | error v => simp [Except.toOption, htexts] at hprinted
      | ok texts =>
        simp only [Except.toOption, Option.bind_some, htexts, Option.some.injEq] at hprinted
        obtain ⟨hok, -, houtput, hcalls, -⟩ :=
          (run_agrees_with_eval 9 i code {} .warning).1 results texts hresults htexts
        rw [hprinted] at houtput
        exact ⟨hok, houtput, hcalls, by decide +kernel⟩
  · have hfailed : (i.readAll 9 "(echo 1 2)\n')").1.toBool = false := by decide +kernel
    rcases hread : i.readAll 9 "(echo 1 2)\n')" with ⟨e | forms, r⟩
    · have heval := congrArg Prod.fst (Interpreter.eval_of_readAll_error hread)
      exact ((run_agrees_with_eval 9 i _ {} .warning).2 e heval).2.1
    · rw [hread] at hfailed
      cases hfailed

end Session

end PocketLisp

import PocketLisp.Program
import PocketLisp.Proofs.Eval.Known

/-!
# No text breaks a session off

Whatever lines a session is given, the forms it reads are known values, and so are the results; the
one breaks no rule when it is evaluated and the other none when it is printed. So a session that
starts with nothing but the builtins bound comes to the end of its input (`run_to_end_of_input`),
through syntax errors, interruptions and forms that nest too deep.
-/

namespace PocketLisp

/-! ## Forms that are read -/

/-- The elements so far are known. -/
def Opener.Known : Opener → Prop
  | list items => ∀ v ∈ items, v.Known
  | quote => True

def Item.Known : Item → Prop
  | form v => v.Known
  | close => True

/-- Whatever goes on is known so far, and what is done is known. -/
def Progress.Known : Progress → Prop
  | more openers => ∀ opener ∈ openers, opener.Known
  | done item => item.Known
  | _ => True

namespace Form

variable (naming : Naming)

theorem ofAtom_known (text : String) : (ofAtom naming text).Known := by
  unfold ofAtom
  split <;> exact trivial

theorem quote_known {v : Value} (h : v.Known) : (quote naming v).Known := ⟨trivial, h, trivial⟩

theorem accept_known {openers : List Opener} (h : ∀ opener ∈ openers, opener.Known) {v : Value}
    (hv : v.Known) : (accept naming openers v).Known := by
  induction openers generalizing v with
  | nil => exact hv
  | cons opener openers ih =>
    have hrest : ∀ opener ∈ openers, opener.Known :=
      fun o ho => h o (List.mem_cons_of_mem opener ho)
    cases opener with
    | list items =>
      intro o ho
      rcases List.mem_cons.1 ho with rfl | ho
      · have hitems := h (.list items) List.mem_cons_self
        intro w hw
        rcases List.mem_cons.1 hw with rfl | hw
        · exact hv
        · exact hitems w hw
      · exact hrest o ho
    | quote => exact ih hrest (quote_known naming hv)

theorem push_known (limit : Nat) {openers : List Opener} (h : ∀ opener ∈ openers, opener.Known)
    {opener : Opener} (hopener : opener.Known) : (push limit openers opener).Known := by
  unfold push
  split
  · intro o ho
    rcases List.mem_cons.1 ho with rfl | ho
    · exact hopener
    · exact h o ho
  · exact trivial

theorem feed_known (limit : Nat) {openers : List Opener} (h : ∀ opener ∈ openers, opener.Known)
    (token : Token) : (feed naming limit openers token).Known := by
  cases token with
  | atom text => exact accept_known naming h (ofAtom_known naming text)
  | lparen =>
    apply push_known limit h
    intro v hv
    cases hv
  | tick => exact push_known limit h trivial
  | rparen =>
    cases openers with
    | nil => exact trivial
    | cons opener openers =>
      cases opener with
      | list items =>
        apply accept_known
        · intro o ho
          exact h o (List.mem_cons_of_mem _ ho)
        · apply Value.known_ofList
          intro v hv
          exact h (.list items) List.mem_cons_self v (List.mem_reverse.1 hv)
      | quote => exact trivial

end Form

namespace Reader

theorem readFrom_known {limit : Nat} {openers : List Opener} {r r' : Reader} {item : Item}
    (h : ∀ opener ∈ openers, opener.Known) (hread : r.readFrom limit openers = (.ok item, r')) :
    item.Known := by
  fun_induction readFrom limit openers r with
  | case1 => cases hread
  | case2 openers r token r₁ hnext _ openers' hfeed ih =>
    have hknown := Form.feed_known r₁.naming limit h token
    rw [hfeed] at hknown
    exact ih hknown hread
  | case3 openers r token r₁ hnext _ item' hfeed =>
    have hknown := Form.feed_known r₁.naming limit h token
    rw [hfeed] at hknown
    cases hread
    exact hknown
  | case4 => cases hread
  | case5 => cases hread

theorem read_known {limit : Nat} {r r' : Reader} {v : Value} (h : r.read limit = (.ok v, r')) :
    v.Known := by
  fun_induction read limit r with
  | case1 r w r₁ hone =>
    have hitem : (Item.form w).Known := readFrom_known (List.forall_mem_nil _) hone
    cases h
    exact hitem
  | case2 r r₁ hone _ ih => exact ih h
  | case3 => cases h

/-! ## What reading leaves on record -/

section

variable {P : Console → Prop} (hask : ∀ console prompt, P console → P (console.ask prompt).2)

include hask

theorem nextToken_console {r r' : Reader} {result : Except ReadError Token} (h : P r.console)
    (hnext : r.nextToken = (result, r')) : P r'.console := by
  fun_induction nextToken r with
  | case1 =>
    cases hnext
    exact h
  | case2 r =>
    cases hnext
    exact hask r.console r.prompt h
  | case3 r =>
    cases hnext
    exact hask r.console r.prompt h
  | case4 r _ text _ _ _ ih => exact ih (hask r.console r.prompt h) hnext

theorem intern_console {r r' : Reader} {token : Token} (h : P r.console)
    (hnext : r.nextToken = (.ok token, r')) : P (r'.intern token).console := by
  have hr := nextToken_console hask h hnext
  unfold intern
  split <;> exact hr

theorem readFrom_console {limit : Nat} {openers : List Opener} {r r' : Reader}
    {result : Except ReadError Item} (h : P r.console)
    (hread : r.readFrom limit openers = (result, r')) : P r'.console := by
  fun_induction readFrom limit openers r with
  | case1 openers r e r₁ hnext =>
    cases hread
    exact nextToken_console hask h hnext
  | case2 openers r token r₁ hnext _ openers' _ ih =>
    exact ih (intern_console hask h hnext) hread
  | case3 openers r token r₁ hnext =>
    cases hread
    exact intern_console hask h hnext
  | case4 openers r token r₁ hnext =>
    cases hread
    exact intern_console hask h hnext
  | case5 openers r token r₁ hnext =>
    cases hread
    exact intern_console hask h hnext

/-- What holds of a console whatever is asked and whatever is reported as skipped holds after
reading. -/
theorem read_console
    (hskip : ∀ console line, P console → P (console.record (.logged (.strayClose line))))
    {limit : Nat} {r r' : Reader} {result : Except ReadError Value} (h : P r.console)
    (hread : r.read limit = (result, r')) : P r'.console := by
  fun_induction read limit r with
  | case1 r v r₁ hone =>
    cases hread
    exact readFrom_console hask (r := r.atBoundary) h hone
  | case2 r r₁ hone _ ih =>
    have hclose : P r₁.console := readFrom_console hask (r := r.atBoundary) h hone
    exact ih (hskip r₁.console r₁.line hclose) hread
  | case3 r e r₁ hone =>
    cases hread
    exact readFrom_console hask (r := r.atBoundary) h hone

end

/-! ## Reading to the end of the input -/

theorem nextToken_of_endOfInput {r r' : Reader} (h : r.nextToken = (.error .endOfInput, r')) :
    r'.console.pending = [] := by
  fun_induction nextToken r with
  | case1 => cases h
  | case2 r _ hp =>
    cases h
    rw [Console.pending_ask, hp]
    rfl
  | case3 => cases h
  | case4 r _ text _ _ _ ih => exact ih h

theorem readFrom_of_endOfInput {limit : Nat} {openers : List Opener} {r r' : Reader}
    (h : r.readFrom limit openers = (.error .endOfInput, r')) : r'.console.pending = [] := by
  fun_induction readFrom limit openers r with
  | case1 openers r e r₁ hnext =>
    cases h
    exact nextToken_of_endOfInput hnext
  | case2 openers r token r₁ hnext _ openers' _ ih => exact ih h
  | case3 => cases h
  | case4 => cases h
  | case5 => cases h

/-- Only where nothing is pending does the input end. -/
theorem read_of_endOfInput {limit : Nat} {r r' : Reader}
    (h : r.read limit = (.error .endOfInput, r')) : r'.console.pending = [] := by
  fun_induction read limit r with
  | case1 => cases h
  | case2 r r₁ hone _ ih => exact ih h
  | case3 r e r₁ hone =>
    cases h
    exact readFrom_of_endOfInput hone

end Reader

/-! ## What happens at the console -/

/-- No rule was broken: a builtin was called that had an answer, or nothing of the kind happened. -/
def Event.Lawful : Event → Prop
  | called call => call.Answered
  | logged (.violation _) => False
  | _ => True

namespace Console

/-- No rule has been broken so far. -/
def Lawful (console : Console) : Prop := ∀ event ∈ console.past, event.Lawful

theorem Lawful.record {console : Console} (h : console.Lawful) {event : Event}
    (hevent : event.Lawful) : (console.record event).Lawful := by
  intro e he
  rcases List.mem_cons.1 he with rfl | he
  · exact hevent
  · exact h e he

theorem Lawful.recordAll {console : Console} (h : console.Lawful) {events : List Event}
    (hevents : ∀ event ∈ events, event.Lawful) : (console.recordAll events).Lawful := by
  intro e he
  rw [Console.recordAll, List.reverseAux_eq] at he
  rcases List.mem_append.1 he with he | he
  · exact hevents e (List.mem_reverse.1 he)
  · exact h e he

theorem Lawful.ask {console : Console} (h : console.Lawful) (prompt : String) :
    (console.ask prompt).2.Lawful := by
  unfold Console.ask
  split
  · exact h.record trivial
  · next event pending _ =>
    intro e he
    rcases List.mem_cons.1 he with rfl | he
    · exact trivial
    · exact h e he

theorem Lawful.calls_answered {console : Console} (h : console.Lawful) :
    ∀ call ∈ console.calls, call.Answered := by
  intro call hcall
  obtain ⟨event, hevent, heq⟩ := List.mem_filterMap.1 hcall
  have hlawful := h event (List.mem_reverse.1 hevent)
  cases event with
  | called call' =>
    cases heq
    exact hlawful
  | _ => cases heq

theorem Lawful.no_violation {console : Console} (h : console.Lawful) (v : Violation) :
    .violation v ∉ console.log := by
  intro hlog
  obtain ⟨event, hevent, heq⟩ := List.mem_filterMap.1 hlog
  have hlawful := h event (List.mem_reverse.1 hevent)
  cases event with
  | logged entry =>
    cases heq
    exact hlawful
  | _ => cases heq

end Console

/-! ## Printing -/

theorem Value.printOnto_known {v : Value} (h : v.Known) (closers : Nat) (out : String) :
    ∃ text, v.printOnto closers out = .ok text := by
  induction v generalizing closers out with
  | foreign object => exact h.elim
  | pair first rest ihfirst ihrest =>
    obtain ⟨text, hfirst⟩ := ihfirst h.1 0 (out ++ "(")
    rw [printOnto, hfirst]
    exact ihrest h.2 (closers + 1) (text ++ " . ")
  | _ => exact ⟨_, rfl⟩

/-! ## Sessions -/

theorem Interpreter.evalForm_known (limit : Nat) {i : Interpreter} (hroot : i.root.Known)
    {form : Value} (hform : form.Known) :
    (∀ event ∈ (i.evalForm limit form).1, event.Lawful) ∧
      ∃ v, (i.evalForm limit form).2 = .ok v ∧ v.Known := by
  have henv : i.env.Known := by
    intro frame hframe
    rw [List.mem_singleton.1 hframe]
    exact hroot
  have hsafe := evaluate_safe i.basis limit i.env form henv hform
  have hcalls : ∀ event ∈ (evaluate i.basis limit i.env form).calls.map Event.called,
      event.Lawful := by
    intro event hevent
    obtain ⟨call, hcall, rfl⟩ := List.mem_map.1 hevent
    exact hsafe.answered call hcall
  cases hres : (evaluate i.basis limit i.env form).result with
  | ok v =>
    simp only [evalForm, hres]
    exact ⟨hcalls, v, rfl, hsafe.good v hres⟩
  | error s =>
    obtain rfl := hsafe.tooDeep s hres
    simp only [evalForm, hres]
    refine ⟨?_, .fault .recursionTooDeep, rfl, trivial⟩
    intro event hevent
    rcases List.mem_append.1 hevent with hevent | hevent
    · exact hcalls event hevent
    · rw [List.mem_singleton.1 hevent]
      exact trivial

namespace Session

/-- All bindings are known, and no rule has been broken so far. -/
structure Lawful (s : Session) : Prop where
  root : s.interpreter.root.Known
  console : s.reader.console.Lawful

theorem start_lawful (symbols : SymbolTable) (host : Host) (prompts : Prompts)
    (events : List LineEvent) :
    (start (Interpreter.new symbols host) prompts (.ofEvents events)).Lawful where
  root := by
    show (Interpreter.new symbols host).root.Known
    rw [Interpreter.root_new]
    exact Frame.known_builtins _
  console := by
    intro event hevent
    rw [List.mem_singleton.1 hevent]
    exact trivial

theorem read_lawful {s : Session} (h : s.Lawful) {limit : Nat} {r : Reader}
    {result : Except ReadError Value} (hread : s.reader.read limit = (result, r)) :
    r.console.Lawful := by
  apply Reader.read_console _ _ h.console hread
  · intro console prompt hconsole
    exact hconsole.ask prompt
  · intro console line hconsole
    exact hconsole.record trivial

theorem giveUp_lawful {r : Reader} (h : r.console.Lawful) (entry : LogEntry)
    (hentry : (Event.logged entry).Lawful) (fault : Fault) :
    (giveUp r entry fault).console.Lawful :=
  (h.record hentry).record trivial

/-- A form that is known is evaluated, printed and answered. -/
theorem answer_lawful (limit : Nat) {s : Session} (h : s.Lawful) {r : Reader}
    (hr : r.console.Lawful) {form : Value} (hform : form.Known) :
    (s.answer limit r form).1 = .ok () ∧ (s.answer limit r form).2.Lawful := by
  obtain ⟨hevents, v, hv, hknown⟩ := s.interpreter.evalForm_known limit h.root hform
  obtain ⟨text, htext⟩ := Value.printOnto_known hknown 0 ""
  have hprint : (s.interpreter.evalForm limit form).2.bind Value.print = .ok text := by
    rw [hv]
    exact htext
  rw [answer]
  simp only [hprint]
  exact ⟨trivial, h.root, (hr.recordAll hevents).record trivial⟩

/-- A session goes on to the end of its input, and no rule is broken on the way. -/
theorem run_lawful (limit : Nat) {s : Session} (h : s.Lawful) :
    (s.run limit).1 = .ok () ∧ (s.run limit).2.Lawful ∧
      (s.run limit).2.reader.console.pending = [] := by
  fun_induction run limit s with
  | case1 s r hread =>
    have hpending := Reader.read_of_endOfInput hread
    exact ⟨rfl, ⟨h.root, (read_lawful h hread).record trivial⟩, hpending⟩
  | case2 s r hread _ ih =>
    have hr := read_lawful h hread
    exact ih ⟨h.root, giveUp_lawful hr (.syntaxError .unexpectedClose) trivial .unexpectedClose⟩
  | case3 s r hread _ ih =>
    have hr := read_lawful h hread
    exact ih ⟨h.root, giveUp_lawful hr .nestingTooDeep trivial .nestingTooDeep⟩
  | case4 s r hread _ ih =>
    have hr := read_lawful h hread
    exact ih ⟨h.root, hr⟩
  | case5 s form r hread v s' hanswer =>
    -- A form that was read is known, so its answer breaks nothing off.
    have hok := (answer_lawful limit h (read_lawful h hread) (Reader.read_known hread)).1
    rw [hanswer] at hok
    cases hok
  | case6 s form r hread s' hanswer _ ih =>
    have hlawful := (answer_lawful limit h (read_lawful h hread) (Reader.read_known hread)).2
    rw [hanswer] at hlawful
    exact ih hlawful

/-- With nothing but the builtins bound, no line events, prompts, level or limit make a session
break off: it takes every event, violates nothing, and calls only builtins, with proper lists to
which they have an answer. -/
theorem run_to_end_of_input (symbols : SymbolTable) (host : Host) (prompts : Prompts)
    (level : Level) (limit : Nat) (events : List LineEvent) :
    let interpreter := Interpreter.new symbols host
    let ended := (start interpreter prompts (.ofEvents events)).run limit
    ended.1 = .ok () ∧
    ended.2.reader.console.pending = [] ∧
    (∀ call ∈ ended.2.reader.console.calls, call.Answered) ∧
    (∀ v, .violation v ∉ ended.2.reader.console.log) ∧
    Program.session ⟨prompts, level, limit⟩ interpreter events =
      (0, ended.2.reader.console) := by
  intro interpreter ended
  obtain ⟨hok, hlawful, hpending⟩ := run_lawful limit (start_lawful symbols host prompts events)
  refine ⟨hok, hpending, hlawful.console.calls_answered, hlawful.console.no_violation, ?_⟩
  have hrun : (start interpreter prompts (.ofEvents events)).run limit = (.ok (), ended.2) :=
    Prod.ext hok rfl
  simp only [Program.session, hrun]

end Session

end PocketLisp

import PocketLisp.Proofs.Eval.Nesting
import PocketLisp.Proofs.Reader.Limit
import PocketLisp.Proofs.Session.Safety
import PocketLisp.Proofs.Session.Turn

/-!
# Sessions with more room for nesting

What holds of one evaluation and of one reading holds of whole sessions: where no form was given up
for its depth, be it in reading or in evaluating, a larger limit gives the very same session
(`run_extends`), event by event. That nothing was given up is seen from the log, because a session
reports it every time and takes no report back (`past_run`).
-/

namespace PocketLisp

/-- At the top level, an evaluation that stops for its depth is given up for one error value, which
is reported after all calls that were made. -/
theorem Interpreter.evalForm_of_tooDeep {limit : Nat} {i : Interpreter} {form : Value}
    (h : (evaluate i.basis limit i.env form).result = .error .tooDeep) :
    i.evalForm limit form =
      ((evaluate i.basis limit i.env form).calls.map .called ++ [.logged .recursionTooDeep],
        .ok (.fault .recursionTooDeep)) := by
  simp only [evalForm, h]

/-- Unless the form was given up, more room changes nothing. -/
theorem Interpreter.evalForm_extends {limit limit' : Nat} (hlimit : limit ≤ limit')
    {i : Interpreter} {form : Value} (h : .logged .recursionTooDeep ∉ (i.evalForm limit form).1) :
    i.evalForm limit' form = i.evalForm limit form := by
  have hdeep : (evaluate i.basis limit i.env form).result ≠ .error .tooDeep := by
    intro hdeep
    rw [evalForm_of_tooDeep hdeep] at h
    exact h (List.mem_append_right _ List.mem_cons_self)
  rw [evalForm, evaluate_extends i.basis hlimit i.env form hdeep]
  rfl

namespace Session

/-! ## The record only grows -/

/-- The session that a turn leaves, whether it goes on or not. -/
def Turn.session : Turn → Session
  | next s => s
  | finished _ s => s

theorem session_proceed_ok (limit : Nat) (s : Session) (r : Reader) (form : Value) :
    (s.proceed limit r (.ok form)).session = (s.answer limit r form).2 := by
  rw [proceed]
  split
  · next h => rw [h]; rfl
  · next h => rw [h]; rfl

theorem past_giveUp (r : Reader) (entry : LogEntry) (fault : Fault) :
    .logged entry :: r.console.past <:+ (giveUp r entry fault).console.past :=
  List.suffix_cons _ _

theorem past_answer (limit : Nat) (s : Session) (r : Reader) (form : Value) :
    (s.interpreter.evalForm limit form).1.reverse ++ r.console.past <:+
      (s.answer limit r form).2.reader.console.past := by
  rw [← List.reverseAux_eq]
  simp only [answer]
  split
  · exact List.suffix_rfl
  · exact List.suffix_cons _ _

theorem past_proceed (limit : Nat) (s : Session) (r : Reader) (result : Except ReadError Value) :
    r.console.past <:+ (s.proceed limit r result).session.reader.console.past := by
  cases result with
  | error e =>
    cases e with
    | endOfInput => exact List.suffix_cons _ _
    | interrupted => exact List.suffix_rfl
    | unexpectedClose => exact (List.suffix_cons _ _).trans (past_giveUp r _ _)
    | tooDeep => exact (List.suffix_cons _ _).trans (past_giveUp r _ _)
  | ok form =>
    rw [session_proceed_ok]
    exact (List.suffix_append _ _).trans (past_answer limit s r form)

theorem past_read (limit : Nat) (r : Reader) :
    r.console.past <:+ (r.read limit).2.console.past := by
  apply Reader.read_console (P := fun console => r.console.past <:+ console.past) _ _
    List.suffix_rfl (Prod.eta (r.read limit)).symm
  · intro console prompt h
    unfold Console.ask
    split <;> exact h.trans (List.suffix_cons _ _)
  · intro console line h
    exact h.trans (List.suffix_cons _ _)

theorem past_turn (limit : Nat) (s : Session) :
    s.reader.console.past <:+ (s.turn limit).session.reader.console.past :=
  (past_read limit s.reader).trans (past_proceed limit s _ _)

theorem past_run (limit : Nat) (s : Session) :
    (s.turn limit).session.reader.console.past <:+ (s.run limit).2.reader.console.past := by
  induction s using turn_induction limit with
  | step s ih =>
    rw [run_eq_turn]
    cases hturn : s.turn limit with
    | next t => exact (past_turn limit t).trans (ih t hturn)
    | finished result t => exact List.suffix_rfl

/-! ## Nothing given up, nothing changed -/

/-- No form was given up for its depth. -/
structure Unhindered (console : Console) : Prop where
  evaluating : .logged .recursionTooDeep ∉ console.past
  reading : .logged .nestingTooDeep ∉ console.past

theorem Unhindered.of_suffix {console console' : Console} (h : Unhindered console')
    (hpast : console.past <:+ console'.past) : Unhindered console :=
  ⟨fun hmem => h.evaluating (hpast.mem hmem), fun hmem => h.reading (hpast.mem hmem)⟩

variable {limit limit' : Nat} (hlimit : limit ≤ limit')

include hlimit

theorem answer_extends {s : Session} {r : Reader} {form : Value}
    (h : Unhindered (s.answer limit r form).2.reader.console) :
    s.answer limit' r form = s.answer limit r form := by
  have hform : .logged .recursionTooDeep ∉ (s.interpreter.evalForm limit form).1 := by
    intro hmem
    apply h.evaluating
    apply (past_answer limit s r form).mem
    exact List.mem_append_left _ (List.mem_reverse.2 hmem)
  rw [answer, Interpreter.evalForm_extends hlimit hform]
  rfl

theorem turn_extends {s : Session} (h : Unhindered (s.turn limit).session.reader.console) :
    s.turn limit' = s.turn limit := by
  unfold turn at h ⊢
  have hread : (s.reader.read limit).1 ≠ .error .tooDeep := by
    intro hdeep
    rw [hdeep] at h
    exact h.reading ((past_giveUp _ _ _).mem List.mem_cons_self)
  rw [Reader.read_extends hlimit hread]
  cases hres : (s.reader.read limit).1 with
  | error e => cases e <;> rfl
  | ok form =>
    -- Only the answer to a form looks at the limit.
    rw [hres, session_proceed_ok] at h
    simp only [proceed, answer_extends hlimit h]

/-- A session in which nothing was given up for its depth is the same at every larger limit. -/
theorem run_extends {s : Session} (h : Unhindered (s.run limit).2.reader.console) :
    s.run limit' = s.run limit := by
  induction s using turn_induction limit with
  | step s ih =>
    have hturn := turn_extends hlimit (h.of_suffix (past_run limit s))
    cases hnext : s.turn limit with
    | next t =>
      rw [run_of_next hnext] at h
      rw [run_of_next hnext, run_of_next (hturn.trans hnext)]
      exact ih t hnext h
    | finished result t => rw [run_of_finished hnext, run_of_finished (hturn.trans hnext)]

omit hlimit

/-- **A larger limit changes nothing that was reached.** An evaluation that does not stop for its
depth makes the same calls and comes to the same end at every larger limit; a reading that is not
refused for its depth has the same result and leaves the same reader; and a session whose log
reports neither is the same session, with the same record and the same status.

Nor is a stop for the depth ever made up for: met by any evaluation inside another one, at whatever
limit is left there, it is how the outer one ends, and the calls made up to it are the last calls.
It is met exactly where an evaluation is begun with nothing left of the limit; and a top-level form
that meets it is answered by the one error value that says so. -/
theorem larger_limit_changes_nothing {limit limit' : Nat} (hlimit : limit ≤ limit') :
    (∀ (basis : Basis) (env : Env) (e : Value),
      (evaluate basis limit env e).result ≠ .error .tooDeep →
      evaluate basis limit' env e = evaluate basis limit env e) ∧
    (∀ r : Reader, (r.read limit).1 ≠ .error .tooDeep → r.read limit' = r.read limit) ∧
    (∀ (i : Interpreter) (prompts : Prompts) (level : Level) (events : List LineEvent),
      .recursionTooDeep ∉ ((start i prompts (.ofEvents events)).run limit).2.reader.console.log →
      .nestingTooDeep ∉ ((start i prompts (.ofEvents events)).run limit).2.reader.console.log →
      (start i prompts (.ofEvents events)).run limit' =
          (start i prompts (.ofEvents events)).run limit ∧
        Program.session ⟨prompts, level, limit'⟩ i events =
          Program.session ⟨prompts, level, limit⟩ i events) ∧
    (∀ (basis : Basis) (env : Env) (e : Value),
      (∀ left env' e', Nested basis limit env e left env' e' →
        (evaluate basis left env' e').result = .error .tooDeep →
        (evaluate basis limit env e).result = .error .tooDeep ∧
          (evaluate basis left env' e').calls <:+ (evaluate basis limit env e).calls) ∧
      ((evaluate basis limit env e).result = .error .tooDeep ↔
        ∃ env' e', Nested basis limit env e 0 env' e')) ∧
    ∀ (i : Interpreter) (form : Value),
      (evaluate i.basis limit i.env form).result = .error .tooDeep →
      i.evalForm limit form =
        ((evaluate i.basis limit i.env form).calls.map .called ++ [.logged .recursionTooDeep],
          .ok (.error "recursion too deep")) := by
  refine ⟨?_, ?_, ?_, ?_, ?_⟩
  · intro basis env e hdeep
    exact evaluate_extends basis hlimit env e hdeep
  · intro r hdeep
    exact Reader.read_extends hlimit hdeep
  · intro i prompts level events hevaluating hreading
    have hunhindered : Unhindered
        ((start i prompts (.ofEvents events)).run limit).2.reader.console :=
      ⟨fun hmem => hevaluating (Console.mem_log.2 hmem),
        fun hmem => hreading (Console.mem_log.2 hmem)⟩
    have hrun := run_extends hlimit hunhindered
    refine ⟨hrun, ?_⟩
    simp only [Program.session, hrun]
  · intro basis env e
    refine ⟨?_, tooDeep_iff_nested basis limit env e⟩
    intro left env' e' hnested hdeep
    have hstops := hnested.stops ⟨hdeep, List.suffix_rfl⟩
    exact ⟨hstops.result, hstops.last⟩
  · intro i form hdeep
    exact Interpreter.evalForm_of_tooDeep hdeep

/-- Three levels are enough for `(+ 1 2)` and for what a session reads here, but not for
`(if (+ (+) 1) 2 3)`: there the head of the innermost form is begun with nothing left, and neither
the addition around it nor the conditional goes on. -/
theorem larger_limit_changes_nothing_three_levels :
    let i := Interpreter.new ∅ Host.none
    let basis := Basis.new ∅ Host.none
    let s := start i {} (.ofLines ["(+ 1 2) 'x (a ')", "((b))"])
    let sum : Value := .ofList [.sym "+", .int 1, .int 2]
    let inner : Value := .ofList [.sym "+"]
    let deep : Value := .ofList [.sym "if", .ofList [.sym "+", inner, .int 1], .int 2, .int 3]
    evaluate basis 9 i.env sum = evaluate basis 3 i.env sum ∧
    s.reader.read 9 = s.reader.read 3 ∧
    s.run 9 = s.run 3 ∧
    Nested basis 3 i.env deep 0 i.env (.sym "+") ∧
    i.evalForm 3 deep = ([.logged .recursionTooDeep], .ok (.error "recursion too deep")) := by
  intro i basis s sum inner deep
  obtain ⟨heval, hread, hrun, hnested, hform⟩ :=
    larger_limit_changes_nothing (show 3 ≤ 9 by decide)
  have henv : i.env = [.builtins .first] := by
    rw [Interpreter.env, Interpreter.root_new]
    rfl
  have hbasis : i.basis = basis := Interpreter.basis_new ∅ Host.none
  have hinside : Nested basis 3 i.env deep 0 i.env (.sym "+") := by
    rw [henv]
    exact .inside .test
      (.inside (.argument (f := .native (.builtin .add)) (by decide) rfl rfl .first)
        (.inside (.head (by decide)) .self))
  have hdeep := ((hnested basis i.env deep).1 0 i.env (.sym "+") hinside rfl).1
  refine ⟨heval basis i.env sum (by rw [henv]; nofun), hread s.reader ?_, ?_, hinside, ?_⟩
  · have hok : (s.reader.read 3).1.toBool = true := by decide +kernel
    intro hdeep
    rw [hdeep] at hok
    cases hok
  · exact (hrun i {} .warning _ (by decide +kernel) (by decide +kernel)).1
  · rw [hform i deep (hbasis ▸ hdeep), hbasis, henv]
    rfl

end Session

end PocketLisp

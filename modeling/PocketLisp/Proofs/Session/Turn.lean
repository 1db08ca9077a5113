import PocketLisp.Session

/-!
# Turns of a session

A session is one turn after the other. A turn reads a form and deals with what has come of it: it
answers the form, gives it up, drops the rest of the line, or ends the session. `Session.turn` is
one turn, and a session runs by taking turns until one of them is the last (`run_eq_turn`).

Whatever is to be shown of all sessions is therefore shown of a turn: by `turn_induction` for one
session, and by `run_simulates` for two that go on side by side.
-/

namespace PocketLisp.Session

/-- What a turn comes to: the session goes on, or it is over. -/
inductive Turn where
  | next (s : Session)
  | finished (result : Except Violation Unit) (s : Session)

/-- What is done with the result of a reading, which has left the reader `r`. -/
def proceed (limit : Nat) (s : Session) (r : Reader) : Except ReadError Value → Turn
  | .error .endOfInput =>
    .finished (.ok ()) { s with reader := r.record (.logged (.endOfInput s.forms)) }
  | .error .unexpectedClose =>
    .next { s with reader := giveUp r (.syntaxError .unexpectedClose) .unexpectedClose }
  | .error .tooDeep => .next { s with reader := giveUp r .nestingTooDeep .nestingTooDeep }
  | .error .interrupted => .next { s with reader := r.reset }
  | .ok form =>
    match s.answer limit r form with
    | (.error v, s') => .finished (.error v) s'
    | (.ok (), s') => .next s'

/-- One turn. -/
def turn (limit : Nat) (s : Session) : Turn :=
  s.proceed limit (s.reader.read limit).2 (s.reader.read limit).1

/-- The reader behind a form that has been evaluated: what has happened is on record. -/
def evaluated (limit : Nat) (s : Session) (r : Reader) (form : Value) : Reader :=
  { r with console := r.console.recordAll (s.interpreter.evalForm limit form).1 }

/-- A form whose result prints is answered. -/
theorem proceed_of_text {limit : Nat} {s : Session} {r : Reader} {form : Value} {text : String}
    (h : (s.interpreter.evalForm limit form).2.bind Value.print = .ok text) :
    s.proceed limit r (.ok form) = .next { s with
      reader := (s.evaluated limit r form).record (.wrote (text ++ "\n"))
      forms := s.forms + 1 } := by
  simp only [proceed, answer, h]
  rfl

/-- A violation, in evaluating a form or in printing its result, ends the session. -/
theorem proceed_of_violation {limit : Nat} {s : Session} {r : Reader} {form : Value} {v : Violation}
    (h : (s.interpreter.evalForm limit form).2.bind Value.print = .error v) :
    s.proceed limit r (.ok form) =
      .finished (.error v) { s with reader := s.evaluated limit r form } := by
  simp only [proceed, answer, h]
  rfl

/-- Runs on from a turn to the end. -/
def Turn.run (limit : Nat) : Turn → Except Violation Unit × Session
  | next s => s.run limit
  | finished result s => (result, s)

/-- A session runs by taking a turn and going on from it. -/
theorem run_eq_turn (limit : Nat) (s : Session) : s.run limit = (s.turn limit).run limit := by
  rw [Session.run, turn]
  split
  · next hread => simp [hread, proceed, Turn.run]
  · next hread => simp [hread, proceed, Turn.run]
  · next hread => simp [hread, proceed, Turn.run]
  · next hread => simp [hread, proceed, Turn.run]
  · next hread =>
    split
    · next hanswer => simp [hread, proceed, hanswer, Turn.run]
    · next hanswer => simp [hread, proceed, hanswer, Turn.run]

theorem run_of_next {limit : Nat} {s s' : Session} (h : s.turn limit = .next s') :
    s.run limit = s'.run limit := by
  rw [run_eq_turn, h]
  rfl

theorem run_of_finished {limit : Nat} {s s' : Session} {result : Except Violation Unit}
    (h : s.turn limit = .finished result s') : s.run limit = (result, s') := by
  rw [run_eq_turn, h]
  rfl

/-- A turn that is not the last leaves less of the input. -/
theorem size_of_next {limit : Nat} {s s' : Session} (h : s.turn limit = .next s') :
    s'.reader.size < s.reader.size := by
  unfold turn at h
  rcases hread : s.reader.read limit with ⟨e | form, r⟩
  · rw [hread] at h
    cases e with
    | endOfInput => cases h
    | interrupted =>
      cases h
      exact Nat.lt_of_le_of_lt (size_reset_le r) (size_lt_of_read_eq_error hread (by decide))
    | unexpectedClose =>
      cases h
      exact size_giveUp_lt hread (by decide) _ _
    | tooDeep =>
      cases h
      exact size_giveUp_lt hread (by decide) _ _
  · rw [hread] at h
    simp only [proceed] at h
    split at h
    · cases h
    · next hanswer =>
      cases h
      exact size_answer_lt hread hanswer

/-- What holds of a session if it holds after the turn, should that not be the last, holds of all
sessions. -/
theorem turn_induction (limit : Nat) {motive : Session → Prop}
    (step : ∀ s, (∀ s', s.turn limit = .next s' → motive s') → motive s) (s : Session) :
    motive s := by
  induction hsize : s.reader.size using Nat.strongRecOn generalizing s with
  | ind size ih =>
    apply step
    intro s' hnext
    exact ih s'.reader.size (hsize ▸ size_of_next hnext) s' rfl

/-! ## Two sessions side by side -/

/-- Both sessions go on, or both end with the same result; and then they are related. -/
def Turn.Both (Related : Session → Session → Prop) : Turn → Turn → Prop
  | next s, next s' => Related s s'
  | finished result s, finished result' s' => result = result' ∧ Related s s'
  | _, _ => False

/-- Sessions that are related, and stay so in every turn, end with the same result and are related
at the end. -/
theorem run_simulates {Related : Session → Session → Prop} {limit limit' : Nat}
    (hturn : ∀ s s', Related s s' → (s.turn limit).Both Related (s'.turn limit')) {s s' : Session}
    (h : Related s s') :
    (s.run limit).1 = (s'.run limit').1 ∧ Related (s.run limit).2 (s'.run limit').2 := by
  induction s using turn_induction limit generalizing s' with
  | step s ih =>
    have hboth := hturn s s' h
    rw [run_eq_turn limit s, run_eq_turn limit' s']
    cases hs : s.turn limit with
    | next t =>
      rw [hs] at hboth
      cases hs' : s'.turn limit' with
      | next t' =>
        rw [hs'] at hboth
        exact ih t hs hboth
      | finished result t' =>
        rw [hs'] at hboth
        exact hboth.elim
    | finished result t =>
      rw [hs] at hboth
      cases hs' : s'.turn limit' with
      | next t' =>
        rw [hs'] at hboth
        exact hboth.elim
      | finished result' t' =>
        rw [hs'] at hboth
        exact hboth

end PocketLisp.Session

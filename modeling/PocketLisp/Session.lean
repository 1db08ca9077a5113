import PocketLisp.Interpreter
import PocketLisp.Value.Print

/-!
# Sessions

A session reads a form, evaluates it, writes its text on a line of its own, and begins again, until
the input ends. A form that cannot be read costs the rest of its line and is answered by an error,
an interruption costs the rest of the line and is not answered, and the session goes on in both
cases. Only a violation breaks it off; a result that cannot be printed is one, and nothing of it is
written. -/

namespace PocketLisp

/-- A session between two top-level forms. -/
structure Session where
  interpreter : Interpreter
  reader : Reader
  /-- How many forms have been evaluated and written. -/
  forms : Nat

namespace Session

/-- A session that is about to ask for its first line. -/
def start (interpreter : Interpreter) (prompts : Prompts) (console : Console) : Session where
  interpreter := interpreter
  reader := (interpreter.reader prompts console).record (.logged .started)
  forms := 0

/-- Gives up the form being read: reports it, drops the rest of the line and writes the error. -/
def giveUp (r : Reader) (entry : LogEntry) (fault : Fault) : Reader :=
  (r.record (.logged entry)).reset.record (.wrote (Value.errorText fault.message ++ "\n"))

/-- Evaluates a form that has been read and writes the result. -/
def answer (limit : Nat) (s : Session) (r : Reader) (form : Value) :
    Except Violation Unit × Session :=
  let (events, result) := s.interpreter.evalForm limit form
  let r := { r with console := r.console.recordAll events }
  match result.bind Value.print with
  | .error v => (.error v, { s with reader := r })
  | .ok text =>
    (.ok (), { s with reader := r.record (.wrote (text ++ "\n")), forms := s.forms + 1 })

/-! ## A session comes to an end -/

theorem size_reset_le (r : Reader) : r.reset.size ≤ r.size := by
  simp only [Reader.reset, Reader.size, List.length_nil]
  omega

/-- Unless the input ends, a reading that fails leaves less of it. -/
theorem size_lt_of_read_eq_error {limit : Nat} {r r' : Reader} {e : ReadError}
    (h : r.read limit = (.error e, r')) (he : e ≠ .endOfInput) : r'.size < r.size := by
  have hs := Reader.size_read limit r
  rw [h] at hs
  exact hs.resolve_left fun hend => he (Except.error.inj hend)

theorem size_giveUp_lt {limit : Nat} {r r' : Reader} {e : ReadError}
    (h : r.read limit = (.error e, r')) (he : e ≠ .endOfInput) (entry : LogEntry) (fault : Fault) :
    (giveUp r' entry fault).size < r.size :=
  Nat.lt_of_le_of_lt (size_reset_le r') (size_lt_of_read_eq_error h he)

theorem size_answer (limit : Nat) (s : Session) (r : Reader) (form : Value) :
    (s.answer limit r form).2.reader.size = r.size := by
  simp only [answer]
  split <;> rfl

theorem size_answer_lt {limit : Nat} {s s' : Session} {r : Reader} {form : Value}
    {result : Except Violation Unit} (h : s.reader.read limit = (.ok form, r))
    (ha : s.answer limit r form = (result, s')) : s'.reader.size < s.reader.size := by
  have hs := size_answer limit s r form
  rw [ha] at hs
  exact hs ▸ Reader.size_lt_of_read_eq_ok h

/-- Runs a session to its end. -/
def run (limit : Nat) (s : Session) : Except Violation Unit × Session :=
  match h : s.reader.read limit with
  | (.error .endOfInput, r) =>
    (.ok (), { s with reader := r.record (.logged (.endOfInput s.forms)) })
  | (.error .unexpectedClose, r) =>
    have := size_giveUp_lt h (by decide) (.syntaxError .unexpectedClose) .unexpectedClose
    run limit { s with reader := giveUp r (.syntaxError .unexpectedClose) .unexpectedClose }
  | (.error .tooDeep, r) =>
    have := size_giveUp_lt h (by decide) .nestingTooDeep .nestingTooDeep
    run limit { s with reader := giveUp r .nestingTooDeep .nestingTooDeep }
  | (.error .interrupted, r) =>
    have := Nat.lt_of_le_of_lt (size_reset_le r) (size_lt_of_read_eq_error h (by decide))
    run limit { s with reader := r.reset }
  | (.ok form, r) =>
    match ha : s.answer limit r form with
    | (.error v, s') => (.error v, s')
    | (.ok (), s') =>
      have := size_answer_lt h ha
      run limit s'
termination_by s.reader.size

/-- The interpreter behind a session, with all the names that the session has read. -/
def finish (s : Session) : Interpreter := s.interpreter.learn s.reader

end Session

end PocketLisp

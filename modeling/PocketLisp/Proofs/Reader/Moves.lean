import Mathlib.Data.List.Infix
import Mathlib.Logic.Relation
import PocketLisp.Proofs.Reader.MoreInput

/-!
# A reading, move by move

`Reader.read` takes a top-level form in one go, over as many tokens and lines as there are to it. To
speak of what happens on the way, a reading is looked at while it is under way (`Underway`): a
reader somewhere on a line, and what has been begun of the form. It moves on by a token, by a line,
or past a closing parenthesis that closes nothing (`Underway.Move`), or else there is nothing left
to do and its end is decided (`Underway.Decided`).

* Moving makes no difference to how the reading ends (`Move.finish_eq`), nor do line events that
  come behind the others (`Move.withMore`).
* Every reading under way moves to where its end is decided (`exists_decided`).

So whatever every move keeps is there when a reading ends, and whenever it waits for a line.
-/

namespace PocketLisp

theorem Console.past_ask (console : Console) (prompt : String) :
    (console.ask prompt).2.past = .asked prompt console.pending.head? :: console.past := by
  unfold ask
  split <;> simp_all [record]

/-- A reading depends on where it is only through the next token. -/
theorem Reader.readFrom_of_nextToken_eq {limit : Nat} {openers : List Opener} {r r' : Reader}
    (h : r.nextToken = r'.nextToken) : r.readFrom limit openers = r'.readFrom limit openers := by
  rcases hnext : r'.nextToken with ⟨e | token, q⟩
  · rw [readFrom_of_error hnext, readFrom_of_error (h.trans hnext)]
  · rw [readFrom_of_ok hnext, readFrom_of_ok (h.trans hnext)]

/-- A reading under way: what has been begun of a form, and where the reader is. -/
structure Underway where
  openers : List Opener
  reader : Reader

namespace Underway

/-- Reads on to the end of the form, or of the first one behind a closing parenthesis that closes
nothing. -/
def finish (limit : Nat) (u : Underway) : Except ReadError Value × Reader :=
  match u.reader.readFrom limit u.openers with
  | (.ok (.form v), r) => (.ok v, r)
  | (.ok .close, r) => r.skipClose.read limit
  | (.error e, r) => (.error e, r)

/-- The reading to which more line events will come behind those that are pending. -/
def withMore (u : Underway) (more : List LineEvent) : Underway :=
  { u with reader := u.reader.withMore more }

/-- A reading of a top-level form as it begins. -/
def atStart (r : Reader) : Underway := ⟨[], r.atBoundary⟩

theorem finish_atStart (limit : Nat) (r : Reader) : (atStart r).finish limit = r.read limit := by
  unfold finish atStart
  rcases h : r.atBoundary.readFrom limit [] with ⟨e | v | _, r'⟩
  · exact (Reader.read_of_error h).symm
  · exact (Reader.read_of_form h).symm
  · exact (Reader.read_of_close h).symm

/-- The reader that has taken a token and has left the rest of the line. -/
def behind (u : Underway) (token : Token) (rest : List Char) : Reader :=
  { u.reader with rest := rest }.intern token

theorem behind_withMore (u : Underway) (token : Token) (rest : List Char) (more : List LineEvent) :
    (u.withMore more).behind token rest = (u.behind token rest).withMore more :=
  Reader.withMore_intern { u.reader with rest := rest } token more

/-- One move of a reading that does not end it. -/
inductive Move (limit : Nat) : Underway → Underway → Prop where
  /-- A token is taken, and more are needed. -/
  | token {u : Underway} {token : Token} {rest : List Char} {openers : List Opener} :
    Token.next? u.reader.rest = some (token, rest) →
      Form.feed u.reader.naming limit u.openers token = .more openers →
        Move limit u ⟨openers, u.behind token rest⟩
  /-- A closing parenthesis that closes nothing is reported, and the reading begins again. -/
  | close {u : Underway} {token : Token} {rest : List Char} :
    Token.next? u.reader.rest = some (token, rest) →
      Form.feed u.reader.naming limit u.openers token = .done .close →
        Move limit u (atStart (u.behind token rest).skipClose)
  /-- No token is left: a line is asked for, and comes. -/
  | line {u : Underway} {text : String} {pending : List LineEvent} :
    Token.next? u.reader.rest = none → u.reader.console.pending = .line text :: pending →
      Move limit u { u with reader := u.reader.pull text }

/-- What a reading comes to when no move is left, and the reader it leaves. -/
inductive Decided (limit : Nat) (u : Underway) : Except ReadError Value → Reader → Prop where
  /-- The last token of a form is taken. -/
  | form {token : Token} {rest : List Char} {v : Value} :
    Token.next? u.reader.rest = some (token, rest) →
      Form.feed u.reader.naming limit u.openers token = .done (.form v) →
        Decided limit u (.ok v) (u.behind token rest)
  /-- A closing parenthesis is taken where a quoted form should be. -/
  | unexpectedClose {token : Token} {rest : List Char} :
    Token.next? u.reader.rest = some (token, rest) →
      Form.feed u.reader.naming limit u.openers token = .unexpectedClose →
        Decided limit u (.error .unexpectedClose) (u.behind token rest)
  /-- A token is taken that opens more than there is room for. -/
  | tooDeep {token : Token} {rest : List Char} :
    Token.next? u.reader.rest = some (token, rest) →
      Form.feed u.reader.naming limit u.openers token = .tooDeep →
        Decided limit u (.error .tooDeep) (u.behind token rest)
  /-- No token is left: a line is asked for, and an interruption comes. -/
  | interrupted {pending : List LineEvent} :
    Token.next? u.reader.rest = none → u.reader.console.pending = .interrupt :: pending →
      Decided limit u (.error .interrupted)
        { u.reader with console := (u.reader.console.ask u.reader.prompt).2 }
  /-- No token is left: a line is asked for, and there is none. -/
  | endOfInput :
    Token.next? u.reader.rest = none → u.reader.console.pending = [] →
      Decided limit u (.error .endOfInput)
        { u.reader with
          console := (u.reader.console.ask u.reader.prompt).2
          boundary := false }

variable {limit : Nat} {u u' : Underway}

/-! ## Every reading ends -/

/-- A reading that is under way can move, unless its end is decided. -/
theorem move_or_decided (limit : Nat) (u : Underway) :
    (∃ u', Move limit u u') ∨ ∃ result r, Decided limit u result r := by
  cases hnext : Token.next? u.reader.rest with
  | some next =>
    obtain ⟨token, rest⟩ := next
    cases hfeed : Form.feed u.reader.naming limit u.openers token with
    | more openers => exact .inl ⟨_, .token hnext hfeed⟩
    | done item =>
      cases item with
      | form v => exact .inr ⟨_, _, .form hnext hfeed⟩
      | close => exact .inl ⟨_, .close hnext hfeed⟩
    | unexpectedClose => exact .inr ⟨_, _, .unexpectedClose hnext hfeed⟩
    | tooDeep => exact .inr ⟨_, _, .tooDeep hnext hfeed⟩
  | none =>
    cases hpending : u.reader.console.pending with
    | nil => exact .inr ⟨_, _, .endOfInput hnext hpending⟩
    | cons event pending =>
      cases event with
      | line text => exact .inl ⟨_, .line hnext hpending⟩
      | interrupt => exact .inr ⟨_, _, .interrupted hnext hpending⟩

theorem size_behind_lt {token : Token} {rest : List Char}
    (h : Token.next? u.reader.rest = some (token, rest)) :
    (u.behind token rest).size < u.reader.size :=
  Reader.size_intern_lt (Reader.nextToken_of_some h)

/-- A move leaves less of the input. -/
theorem Move.size_lt (h : Move limit u u') : u'.reader.size < u.reader.size := by
  cases h with
  | token hnext _ => exact size_behind_lt hnext
  | close hnext _ => exact size_behind_lt hnext
  | line hnext hpending =>
    simp only [Reader.pull, Reader.size, Console.pending_ask, hpending, List.tail_cons,
      Reader.eventsSize, Reader.eventSize]
    omega

/-! ## What a reading comes to -/

/-- Behind its next token, a reading goes on from what that token did to what was begun. -/
theorem readFrom_of_next? {token : Token} {rest : List Char}
    (h : Token.next? u.reader.rest = some (token, rest)) :
    u.reader.readFrom limit u.openers =
      (u.behind token rest).resume limit (Form.feed u.reader.naming limit u.openers token) :=
  Reader.readFrom_of_ok (Reader.nextToken_of_some h)

/-- A move makes no difference to how the reading ends. -/
theorem Move.finish_eq (h : Move limit u u') : u.finish limit = u'.finish limit := by
  cases h with
  | token hnext hfeed =>
    rw [finish, readFrom_of_next? hnext, hfeed]
    rfl
  | close hnext hfeed =>
    rw [finish_atStart, finish, readFrom_of_next? hnext, hfeed]
    rfl
  | line hnext hpending =>
    rw [finish, Reader.readFrom_of_nextToken_eq (Reader.nextToken_of_line hnext hpending)]
    rfl

/-- A reading whose end is decided ends so. -/
theorem Decided.finish_eq {result : Except ReadError Value} {r : Reader}
    (h : Decided limit u result r) : u.finish limit = (result, r) := by
  cases h with
  | form hnext hfeed | unexpectedClose hnext hfeed | tooDeep hnext hfeed =>
    rw [finish, readFrom_of_next? hnext, hfeed]
    rfl
  | interrupted hnext hpending =>
    rw [finish, Reader.readFrom_of_error (Reader.nextToken_of_interrupt hnext hpending)]
  | endOfInput hnext hpending =>
    rw [finish, Reader.readFrom_of_error (Reader.nextToken_of_end hnext hpending)]

/-- Every reading moves to where its end is decided. -/
theorem exists_decided (limit : Nat) (u : Underway) :
    ∃ u', Relation.ReflTransGen (Move limit) u u' ∧
      Decided limit u' (u.finish limit).1 (u.finish limit).2 := by
  induction hsize : u.reader.size using Nat.strongRecOn generalizing u with
  | ind size ih =>
    rcases move_or_decided limit u with ⟨u₁, hmove⟩ | ⟨result, r, hdecided⟩
    · obtain ⟨u', hmoves, hdecided⟩ := ih u₁.reader.size (hsize ▸ hmove.size_lt) u₁ rfl
      rw [← hmove.finish_eq] at hdecided
      exact ⟨u', .head hmove hmoves, hdecided⟩
    · rw [hdecided.finish_eq]
      exact ⟨u, .refl, hdecided⟩

/-! ## More input behind -/

/-- Moves do not look behind the input that they use. -/
theorem Move.withMore (h : Move limit u u') (more : List LineEvent) :
    Move limit (u.withMore more) (u'.withMore more) := by
  cases h with
  | @token token rest openers hnext hfeed =>
    have hmove : Move limit (u.withMore more) ⟨openers, (u.withMore more).behind token rest⟩ :=
      .token hnext hfeed
    rw [behind_withMore] at hmove
    exact hmove
  | @close token rest hnext hfeed =>
    have hmove : Move limit (u.withMore more)
        (atStart ((u.withMore more).behind token rest).skipClose) :=
      .close hnext hfeed
    rw [behind_withMore] at hmove
    exact hmove
  | @line text pending hnext hpending =>
    have hmore : (u.withMore more).reader.console.pending = .line text :: (pending ++ more) :=
      congrArg (· ++ more) hpending
    have hmove : Move limit (u.withMore more)
        { u.withMore more with reader := (u.reader.withMore more).pull text } :=
      .line hnext hmore
    rw [Reader.withMore_pull hpending] at hmove
    exact hmove

/-- With more input behind, a reading ends as it does from any place it moves to. -/
theorem finish_withMore_of_moves (h : Relation.ReflTransGen (Move limit) u u')
    (more : List LineEvent) : (u.withMore more).finish limit = (u'.withMore more).finish limit := by
  induction h with
  | refl => rfl
  | tail _ hmove ih => exact ih.trans (hmove.withMore more).finish_eq

/-! ## The record of a reading only grows -/

theorem past_behind (u : Underway) (token : Token) (rest : List Char) :
    (u.behind token rest).console.past = u.reader.console.past := by
  unfold behind Reader.intern
  split <;> rfl

theorem Move.past_suffix (h : Move limit u u') :
    u.reader.console.past <:+ u'.reader.console.past := by
  cases h with
  | @token token rest =>
    show _ <:+ (u.behind token rest).console.past
    rw [past_behind]
  | @close token rest =>
    show _ <:+ _ :: (u.behind token rest).console.past
    rw [past_behind]
    exact List.suffix_cons _ _
  | line =>
    show _ <:+ (u.reader.console.ask u.reader.prompt).2.past
    rw [Console.past_ask]
    exact List.suffix_cons _ _

theorem Decided.past_suffix {result : Except ReadError Value} {r : Reader}
    (h : Decided limit u result r) : u.reader.console.past <:+ r.console.past := by
  cases h with
  | form | unexpectedClose | tooDeep =>
    rw [past_behind]
  | interrupted | endOfInput =>
    show _ <:+ (u.reader.console.ask u.reader.prompt).2.past
    rw [Console.past_ask]
    exact List.suffix_cons _ _

theorem past_finish (limit : Nat) (u : Underway) :
    u.reader.console.past <:+ (u.finish limit).2.console.past := by
  obtain ⟨u', hmoves, hdecided⟩ := exists_decided limit u
  refine List.IsSuffix.trans ?_ hdecided.past_suffix
  clear hdecided
  induction hmoves with
  | refl => exact List.suffix_refl _
  | tail _ hmove ih => exact ih.trans hmove.past_suffix

/-- A reading that has no token left asks for a line before it does anything else. -/
theorem asked_finish (limit : Nat) (h : Token.next? u.reader.rest = none) :
    .asked u.reader.prompt u.reader.console.pending.head? :: u.reader.console.past <:+
      (u.finish limit).2.console.past := by
  rw [← Console.past_ask]
  cases hpending : u.reader.console.pending with
  | nil =>
    have hend : Decided limit u _ _ := .endOfInput h hpending
    rw [hend.finish_eq]
  | cons event pending =>
    cases event with
    | interrupt =>
      have hend : Decided limit u _ _ := .interrupted h hpending
      rw [hend.finish_eq]
    | line text =>
      have hmove : Move limit u { u with reader := u.reader.pull text } := .line h hpending
      rw [hmove.finish_eq]
      exact past_finish limit { u with reader := u.reader.pull text }

end Underway

end PocketLisp

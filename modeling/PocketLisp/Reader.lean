import PocketLisp.Form
import PocketLisp.Console

/-!
# The reader

A reader takes forms off the lines of a console. It asks for a line only when the current one has no
token left, so one line may hold several forms and one form may span several lines; it asks with the
primary prompt if it has passed a boundary between top-level forms since the last line, and with the
continuation prompt otherwise.

A reading that fails leaves the reader behind the last token it took, ready to go on. Every reading
that does not meet the end of input leaves less of the input than there was (`size`), which is why
reading and everything built on it comes to an end.
-/

namespace PocketLisp

/-- The texts with which a reader asks for a line. -/
structure Prompts where
  primary : String := "* "
  continuation : String := ""
  deriving DecidableEq, Repr

/-- Why a reading gives no form. -/
inductive ReadError where
  /-- The input ends. -/
  | endOfInput
  /-- The wait for a line was interrupted. -/
  | interrupted
  /-- A quote mark is followed by a closing parenthesis. -/
  | unexpectedClose
  /-- The form nests beyond the limit. -/
  | tooDeep
  deriving DecidableEq, Repr

/-- A reader at some place of its input. -/
structure Reader where
  prompts : Prompts
  console : Console
  symbols : SymbolTable
  /-- The symbol that quote marks stand for. -/
  quote : Symbol
  /-- The current line. -/
  line : String
  /-- What remains of the current line. -/
  rest : List Char
  /-- Whether a boundary between top-level forms lies behind the last line asked for. -/
  boundary : Bool

namespace Reader

/-- A reader that has asked for nothing yet. Its quote marks stand for a symbol, which it
interns. -/
def new (prompts : Prompts) (console : Console) (symbols : SymbolTable) : Reader where
  prompts := prompts
  console := console
  symbols := (symbols.intern "quote").2
  quote := (symbols.intern "quote").1
  line := ""
  rest := []
  boundary := true

/-- How many characters of the current line have been read. -/
def position (r : Reader) : Nat := r.line.length - r.rest.length

/-- The prompt for the next line. -/
def prompt (r : Reader) : String :=
  if r.boundary then r.prompts.primary else r.prompts.continuation

/-- Records an event at the console. -/
def record (r : Reader) (event : Event) : Reader :=
  { r with console := r.console.record event }

/-- Drops what is left of the current line. -/
def reset (r : Reader) : Reader :=
  { r with line := "", rest := [] }

/-- The symbols that the reader gives to what it reads: those with which its table answers. -/
def naming (r : Reader) : Naming where
  symbolOf name := (r.symbols.intern name).1
  quote := r.quote

/-- The reader whose table has answered to the name that a token stands for. -/
def intern (r : Reader) (token : Token) : Reader :=
  match token.symbolName? with
  | some name => { r with symbols := (r.symbols.intern name).2 }
  | none => r

/-! ## How much input is left -/

/-- The weight of a line event: that it is there, and its characters. -/
def eventSize : LineEvent → Nat
  | .line text => text.toList.length + 1
  | .interrupt => 1

/-- The weight of line events still to come. -/
def eventsSize : List LineEvent → Nat
  | [] => 0
  | event :: events => eventSize event + eventsSize events

/-- The weight of the input that is left. -/
def size (r : Reader) : Nat :=
  r.rest.length + eventsSize r.console.pending

/-! ## Tokens -/

/-- The next token. Lines without one are passed over. -/
def nextToken (r : Reader) : Except ReadError Token × Reader :=
  match Token.next? r.rest with
  | some (token, rest) => (.ok token, { r with rest := rest })
  | none =>
    match hp : r.console.pending with
    | [] =>
      (.error .endOfInput, { r with console := (r.console.ask r.prompt).2, boundary := false })
    | .interrupt :: _ => (.error .interrupted, { r with console := (r.console.ask r.prompt).2 })
    | .line text :: _ =>
      have : (r.console.ask r.prompt).2.pending.length < r.console.pending.length := by simp [hp]
      nextToken
        { r with
          console := (r.console.ask r.prompt).2
          line := text
          rest := text.toList
          boundary := false }
termination_by r.console.pending.length

/-- Unless the input ends, looking for a token leaves less of it. -/
theorem size_nextToken (r : Reader) :
    r.nextToken.1 = .error .endOfInput ∨ r.nextToken.2.size < r.size := by
  fun_induction nextToken r with
  | case1 r token rest h =>
    have := Token.length_lt_of_next?_eq_some h
    right
    simp only [size]
    omega
  | case2 => exact .inl rfl
  | case3 r h rest hp =>
    right
    simp [size, Console.pending_ask, hp, eventsSize, eventSize]
  | case4 r h text rest hp _ ih =>
    refine ih.imp_right fun hlt => Nat.lt_trans hlt ?_
    simp only [size, Console.pending_ask, hp, List.tail_cons, eventsSize, eventSize]
    omega

theorem size_intern (r : Reader) (token : Token) : (r.intern token).size = r.size := by
  unfold intern
  split <;> rfl

/-- A token leaves less of the input, interned or not. -/
theorem size_intern_lt {r r' : Reader} {token : Token} (h : r.nextToken = (.ok token, r')) :
    (r'.intern token).size < r.size := by
  have hs := size_nextToken r
  rw [h] at hs
  rw [size_intern]
  exact hs.resolve_left (by simp)

/-! ## Forms -/

/-- Reads on from the openers of a form to its end. -/
def readFrom (limit : Nat) (openers : List Opener) (r : Reader) : Except ReadError Item × Reader :=
  match h : r.nextToken with
  | (.error e, r') => (.error e, r')
  | (.ok token, r') =>
    have := size_intern_lt h
    match Form.feed r'.naming limit openers token with
    | .more openers => readFrom limit openers (r'.intern token)
    | .done item => (.ok item, r'.intern token)
    | .unexpectedClose => (.error .unexpectedClose, r'.intern token)
    | .tooDeep => (.error .tooDeep, r'.intern token)
termination_by r.size

/-- Reads one form or one closing parenthesis, where forms may nest `limit` deep, the whole one
included. -/
def readOne (limit : Nat) (r : Reader) : Except ReadError Item × Reader :=
  r.readFrom limit []

/-- Unless the input ends, reading on leaves less of it. -/
theorem size_readFrom (limit : Nat) (openers : List Opener) (r : Reader) :
    (r.readFrom limit openers).1 = .error .endOfInput ∨
      (r.readFrom limit openers).2.size < r.size := by
  fun_induction readFrom limit openers r with
  | case1 openers r e r' h =>
    have hs := size_nextToken r
    rw [h] at hs
    simpa using hs
  | case2 openers r token r' h _ openers' hf ih =>
    exact ih.imp_right fun hlt => Nat.lt_trans hlt (size_intern_lt h)
  | case3 openers r token r' h _ item hf => exact .inr (size_intern_lt h)
  | case4 openers r token r' h _ hf => exact .inr (size_intern_lt h)
  | case5 openers r token r' h _ hf => exact .inr (size_intern_lt h)

/-- The reader after it has passed a boundary between top-level forms. -/
def atBoundary (r : Reader) : Reader := { r with boundary := true }

/-- The report of a closing parenthesis that closes nothing. -/
def skipClose (r : Reader) : Reader := r.record (.logged (.strayClose r.line))

/-- A closing parenthesis, read and skipped, leaves less of the input. -/
theorem size_skipClose_lt {limit : Nat} {r r' : Reader} {item : Item}
    (h : r.atBoundary.readOne limit = (.ok item, r')) : r'.skipClose.size < r.size := by
  have hs := size_readFrom limit [] r.atBoundary
  rw [readOne] at h
  rw [h] at hs
  exact hs.resolve_left (by simp)

/-- Reads one top-level form. Closing parentheses that close nothing are reported and skipped. -/
def read (limit : Nat) (r : Reader) : Except ReadError Value × Reader :=
  match h : r.atBoundary.readOne limit with
  | (.ok (.form v), r') => (.ok v, r')
  | (.ok .close, r') =>
    have := size_skipClose_lt h
    read limit r'.skipClose
  | (.error e, r') => (.error e, r')
termination_by r.size

/-- Unless the input ends, reading a top-level form leaves less of it. -/
theorem size_read (limit : Nat) (r : Reader) :
    (r.read limit).1 = .error .endOfInput ∨ (r.read limit).2.size < r.size := by
  fun_induction read limit r with
  | case1 r v r' h => exact .inr (size_skipClose_lt h)
  | case2 r r' h _ ih => exact ih.imp_right fun hlt => Nat.lt_trans hlt (size_skipClose_lt h)
  | case3 r e r' h =>
    have hs := size_readFrom limit [] r.atBoundary
    rw [readOne] at h
    rw [h] at hs
    exact hs.imp_left fun he => congrArg Except.error (Except.error.inj he)

/-- A form, read at the top level, leaves less of the input. -/
theorem size_lt_of_read_eq_ok {limit : Nat} {r r' : Reader} {v : Value}
    (h : r.read limit = (.ok v, r')) : r'.size < r.size := by
  have hs := size_read limit r
  rw [h] at hs
  exact hs.resolve_left (by simp)

/-- Reads top-level forms to the end of the input, behind those in `forms`, which has the last one
first. -/
def readAllFrom (limit : Nat) (forms : List Value) (r : Reader) :
    Except ReadError (List Value) × Reader :=
  match h : r.read limit with
  | (.ok v, r') =>
    have := size_lt_of_read_eq_ok h
    readAllFrom limit (v :: forms) r'
  | (.error .endOfInput, r') => (.ok forms.reverse, r')
  | (.error e, r') => (.error e, r')
termination_by r.size

/-- Reads top-level forms to the end of the input. -/
def readAll (limit : Nat) (r : Reader) : Except ReadError (List Value) × Reader :=
  r.readAllFrom limit []

end Reader

end PocketLisp

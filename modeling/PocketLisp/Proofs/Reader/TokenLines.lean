import PocketLisp.Proofs.Reader.Feeding

/-!
# The tokens a reader has left

A reader keeps a cursor on its current line and pulls further lines when it needs them. What it can
still read is simpler than that: the tokens left on the current line, and the tokens of each line to
come (`Reader.tokenLines`). The theorems here say what taking a token and reading a form do to that
view, so that nothing later has to look at lines, cursors or blanks again:

* **one token** — `Reader.nextToken` takes the first token of the view, wherever its line begins or
  ends, and fails exactly when there is none (`nextToken_shows`);
* **one form** — reading feeds the tokens of the view, all lines joined, to the openers until they
  are complete (`readFrom_eq_run`, `read_eq_run`), so what a reading gives does not depend on how
  the tokens are divided into lines.

Interruptions are no tokens, and the statements are about readers to which none will come.
-/

namespace PocketLisp

/-! ## The tokens of a text, one at a time -/

theorem lex_of_next?_eq_none {cs : List Char} (h : Token.next? cs = none) : lex cs = [] := by
  rw [lex]
  split
  · rfl
  · next token rest h' => rw [h] at h'; exact absurd h' (by simp)

theorem lex_of_next?_eq_some {cs rest : List Char} {token : Token}
    (h : Token.next? cs = some (token, rest)) : lex cs = token :: lex rest := by
  rw [lex]
  split
  · next h' => rw [h] at h'; exact absurd h' (by simp)
  · next token' rest' h' =>
    rw [h] at h'
    obtain ⟨rfl, rfl⟩ := Prod.mk.inj (Option.some.inj h')
    rfl

theorem lex_nil : lex [] = [] := lex_of_next?_eq_none rfl

/-- The tokens that a line event brings. An interruption brings none. -/
def LineEvent.tokens : LineEvent → List Token
  | .line text => lex text.toList
  | .interrupt => []

/-! ## Tokens, line by line -/

/-- The tokens left on the current line, and those of the lines to come. -/
structure TokenLines where
  here : List Token
  later : List (List Token)
  deriving DecidableEq, Repr

namespace TokenLines

/-- The tokens of lines none of which has been begun. -/
def ofLines (lines : List String) : TokenLines :=
  ⟨[], lines.map fun line => lex line.toList⟩

/-- All tokens left, in the order in which they come. -/
def all (s : TokenLines) : List Token := s.here ++ s.later.flatten

theorem all_ofLines (lines : List String) :
    (ofLines lines).all = lines.flatMap fun line => lex line.toList := by
  rw [List.flatMap_def]
  rfl

/-- Takes the first token off the current line or, when nothing is left on it, off the first later
line that has one, which is then the current line. -/
def take : List Token → List (List Token) → Except ReadError Token × TokenLines
  | token :: here, later => (.ok token, ⟨here, later⟩)
  | [], [] => (.error .endOfInput, ⟨[], []⟩)
  | [], line :: later => take line later

/-- Takes the first token. -/
def nextToken (s : TokenLines) : Except ReadError Token × TokenLines :=
  take s.here s.later

/-- Drops the tokens left on the current line. -/
def reset (s : TokenLines) : TokenLines := { s with here := [] }

/-- Taking a token takes the first of all tokens, and fails exactly when there is none. -/
theorem nextToken_cases (s : TokenLines) :
    (s.all = [] ∧ s.nextToken = (.error .endOfInput, ⟨[], []⟩)) ∨
      ∃ token s', s.nextToken = (.ok token, s') ∧ s.all = token :: s'.all := by
  obtain ⟨here, later⟩ := s
  show (here ++ later.flatten = [] ∧ take here later = _) ∨
    ∃ token s', take here later = (.ok token, s') ∧ here ++ later.flatten = token :: s'.all
  induction later generalizing here with
  | nil =>
    cases here with
    | nil => exact .inl ⟨rfl, rfl⟩
    | cons token here => exact .inr ⟨token, ⟨here, []⟩, rfl, rfl⟩
  | cons line later ih =>
    cases here with
    | nil => exact ih line
    | cons token here => exact .inr ⟨token, ⟨here, line :: later⟩, rfl, rfl⟩

end TokenLines

namespace Reader

/-- The tokens that a reader has left, line by line. -/
def tokenLines (r : Reader) : TokenLines :=
  ⟨lex r.rest, r.console.pending.map LineEvent.tokens⟩

/-- The tokens that a reader has left, all lines joined. -/
def tokens (r : Reader) : List Token := r.tokenLines.all

/-- A reader to which no interruption will come, and what it has left. -/
structure Shows (r : Reader) (s : TokenLines) : Prop where
  uninterrupted : .interrupt ∉ r.console.pending
  tokenLines_eq : r.tokenLines = s

theorem Shows.tokens_eq {r : Reader} {s : TokenLines} (h : r.Shows s) : r.tokens = s.all :=
  congrArg TokenLines.all h.tokenLines_eq

/-- A new reader shows the lines that its console serves. -/
theorem new_shows (prompts : Prompts) (symbols : SymbolTable) (lines : List String) :
    (Reader.new prompts (.ofLines lines) symbols).Shows (.ofLines lines) where
  uninterrupted := by simp [Reader.new, Console.ofLines, Console.ofEvents]
  tokenLines_eq := by
    simp [Reader.new, Console.ofLines, Console.ofEvents, tokenLines, TokenLines.ofLines, lex_nil,
      LineEvent.tokens, Function.comp_def]

/-! ## What leaves the tokens as they are -/

theorem Shows.atBoundary {r : Reader} {s : TokenLines} (h : r.Shows s) : r.atBoundary.Shows s :=
  ⟨h.uninterrupted, h.tokenLines_eq⟩

theorem Shows.skipClose {r : Reader} {s : TokenLines} (h : r.Shows s) : r.skipClose.Shows s :=
  ⟨h.uninterrupted, h.tokenLines_eq⟩

theorem Shows.intern {r : Reader} {s : TokenLines} (h : r.Shows s) (token : Token) :
    (r.intern token).Shows s := by
  unfold Reader.intern
  split
  · exact ⟨h.uninterrupted, h.tokenLines_eq⟩
  · exact h

/-- Dropping the rest of the line drops the tokens left on it, and no others. -/
theorem Shows.reset {r : Reader} {s : TokenLines} (h : r.Shows s) : r.reset.Shows s.reset where
  uninterrupted := h.uninterrupted
  tokenLines_eq := by
    rw [← h.tokenLines_eq]
    show TokenLines.mk (lex []) _ = _
    rw [lex_nil]
    rfl

/-! ## One token -/

/-- A reader takes the first token it has left, on whichever line that is, and meets the end of
input when no line has one. -/
theorem nextToken_shows {r : Reader} {s : TokenLines} (h : r.Shows s) :
    r.nextToken.1 = s.nextToken.1 ∧ r.nextToken.2.Shows s.nextToken.2 := by
  obtain ⟨hint, rfl⟩ := h
  unfold TokenLines.nextToken tokenLines
  fun_induction nextToken r with
  | case1 r token rest htok =>
    rw [lex_of_next?_eq_some htok, TokenLines.take]
    exact ⟨rfl, hint, rfl⟩
  | case2 r htok hpend =>
    rw [lex_of_next?_eq_none htok, hpend]
    refine ⟨rfl, ?_, ?_⟩
    · simp [hpend]
    · simp [tokenLines, lex_of_next?_eq_none htok, hpend, TokenLines.take]
  | case3 r htok rest hpend => exact absurd (hpend ▸ List.mem_cons_self) hint
  | case4 r htok text rest hpend _ ih =>
    -- The current line is used up: what is taken is what the next line shows.
    have hask : (r.console.ask r.prompt).2.pending = rest := by simp [hpend]
    have hint' : .interrupt ∉ rest := fun hmem => hint (hpend ▸ List.mem_cons_of_mem _ hmem)
    rw [lex_of_next?_eq_none htok, hpend]
    simp only [hask] at ih
    exact ih hint'

/-! ## All lines joined -/

/-- A reader to which no interruption will come, and all the tokens it has left. -/
structure HasLeft (r : Reader) (tokens : List Token) : Prop where
  uninterrupted : .interrupt ∉ r.console.pending
  tokens_eq : r.tokens = tokens

theorem Shows.hasLeft {r : Reader} {s : TokenLines} (h : r.Shows s) : r.HasLeft s.all :=
  ⟨h.uninterrupted, h.tokens_eq⟩

theorem HasLeft.shows {r : Reader} {tokens : List Token} (h : r.HasLeft tokens) :
    r.Shows r.tokenLines :=
  ⟨h.uninterrupted, rfl⟩

theorem HasLeft.atBoundary {r : Reader} {tokens : List Token} (h : r.HasLeft tokens) :
    r.atBoundary.HasLeft tokens :=
  ⟨h.uninterrupted, h.tokens_eq⟩

theorem HasLeft.skipClose {r : Reader} {tokens : List Token} (h : r.HasLeft tokens) :
    r.skipClose.HasLeft tokens :=
  ⟨h.uninterrupted, h.tokens_eq⟩

theorem HasLeft.intern {r : Reader} {tokens : List Token} (h : r.HasLeft tokens) (token : Token) :
    (r.intern token).HasLeft tokens :=
  h.tokens_eq ▸ (h.shows.intern token).hasLeft

/-- With no token left, looking for one meets the end of input. -/
theorem nextToken_of_nil {r : Reader} (h : r.HasLeft []) :
    ∃ r', r.nextToken = (.error .endOfInput, r') ∧ r'.HasLeft [] := by
  obtain ⟨hres, hshows⟩ := nextToken_shows h.shows
  rcases r.tokenLines.nextToken_cases with ⟨-, hnext⟩ | ⟨token, s', -, hall⟩
  · rw [hnext] at hres hshows
    exact ⟨_, Prod.ext hres rfl, hshows.hasLeft⟩
  · have hnil : r.tokenLines.all = [] := h.tokens_eq
    rw [hall] at hnil
    exact absurd hnil (by simp)

/-- The first of the tokens left is the one that is taken. -/
theorem nextToken_of_cons {r : Reader} {token : Token} {tokens : List Token}
    (h : r.HasLeft (token :: tokens)) :
    ∃ r', r.nextToken = (.ok token, r') ∧ r'.HasLeft tokens := by
  obtain ⟨hres, hshows⟩ := nextToken_shows h.shows
  have hleft : r.tokenLines.all = token :: tokens := h.tokens_eq
  rcases r.tokenLines.nextToken_cases with ⟨hall, -⟩ | ⟨token', s', hnext, hall⟩
  · rw [hall] at hleft
    exact absurd hleft (by simp)
  · rw [hall] at hleft
    obtain ⟨rfl, rfl⟩ := List.cons.inj hleft
    rw [hnext] at hres hshows
    exact ⟨_, Prod.ext hres rfl, hshows.hasLeft⟩

end Reader

/-! ## The same symbols throughout -/

/-- The symbols of a table, also for quote marks. -/
def SymbolTable.naming (table : SymbolTable) : Naming where
  symbolOf := table.symbolOf
  quote := table.symbolOf "quote"

@[simp] theorem SymbolTable.naming_empty : empty.naming = ⟨.first, .first "quote"⟩ := by
  simp [naming]

namespace Reader

/-- A new reader gives the symbols of its table, also to quote marks. -/
@[simp] theorem naming_new (prompts : Prompts) (console : Console) (symbols : SymbolTable) :
    (Reader.new prompts console symbols).naming = symbols.naming := by
  show Naming.mk (symbols.insert "quote").symbolOf _ = _
  rw [SymbolTable.symbolOf_insert]
  rfl

/-- What the table has answered once it answers again, so interning changes no symbol. -/
@[simp] theorem naming_intern (r : Reader) (token : Token) :
    (r.intern token).naming = r.naming := by
  unfold intern
  split
  · next name _ =>
    show Naming.mk (r.symbols.insert name).symbolOf r.quote = ⟨r.symbols.symbolOf, r.quote⟩
    rw [SymbolTable.symbolOf_insert]
  · rfl

@[simp] theorem naming_atBoundary (r : Reader) : r.atBoundary.naming = r.naming := rfl

@[simp] theorem naming_skipClose (r : Reader) : r.skipClose.naming = r.naming := rfl

@[simp] theorem naming_nextToken (r : Reader) : r.nextToken.2.naming = r.naming := by
  fun_induction nextToken r with
  | case1 => rfl
  | case2 => rfl
  | case3 => rfl
  | case4 _ _ _ _ _ _ ih => exact ih

theorem naming_of_nextToken {r r' : Reader} {result : Except ReadError Token}
    (h : r.nextToken = (result, r')) : r'.naming = r.naming := by
  rw [← naming_nextToken r, h]

@[simp] theorem naming_readFrom (limit : Nat) (openers : List Opener) (r : Reader) :
    (r.readFrom limit openers).2.naming = r.naming := by
  fun_induction readFrom limit openers r with
  | case1 openers r e r' hnext => exact naming_of_nextToken hnext
  | case2 openers r token r' hnext _ openers' _ ih =>
    rw [ih, naming_intern, naming_of_nextToken hnext]
  | case3 openers r token r' hnext
  | case4 openers r token r' hnext
  | case5 openers r token r' hnext => rw [naming_intern, naming_of_nextToken hnext]

theorem naming_of_readOne {limit : Nat} {r r' : Reader} {result : Except ReadError Item}
    (h : r.atBoundary.readOne limit = (result, r')) : r'.naming = r.naming := by
  have hnaming := naming_readFrom limit [] r.atBoundary
  rwa [← readOne, h] at hnaming

@[simp] theorem naming_read (limit : Nat) (r : Reader) : (r.read limit).2.naming = r.naming := by
  fun_induction read limit r with
  | case1 r v r' hone => exact naming_of_readOne hone
  | case2 r r' hone _ ih => rw [ih, naming_skipClose, naming_of_readOne hone]
  | case3 r e r' hone => exact naming_of_readOne hone

end Reader

/-! ## One form -/

namespace Reader

/-- Reads on after a step of the openers. -/
def resume (limit : Nat) (r : Reader) : Progress → Except ReadError Item × Reader
  | .more openers => r.readFrom limit openers
  | progress => (progress.outcome, r)

theorem readFrom_of_error {limit : Nat} {openers : List Opener} {r r' : Reader} {e : ReadError}
    (h : r.nextToken = (.error e, r')) : r.readFrom limit openers = (.error e, r') := by
  rw [readFrom]
  split <;> simp_all

/-- A reading takes one token, interns its name and feeds it to the openers. -/
theorem readFrom_of_ok {limit : Nat} {openers : List Opener} {r r' : Reader} {token : Token}
    (h : r.nextToken = (.ok token, r')) :
    r.readFrom limit openers =
      (r'.intern token).resume limit (Form.feed r'.naming limit openers token) := by
  rw [readFrom]
  split
  · simp_all
  · next token' r'' h' =>
    rw [h] at h'
    obtain ⟨htoken, rfl⟩ := Prod.mk.inj h'
    obtain rfl := Except.ok.inj htoken
    cases Form.feed r'.naming limit openers token <;> rfl

/-- Reading on from openers feeds them the tokens left, and stops where they are complete. -/
theorem readFrom_eq_run (limit : Nat) (openers : List Opener) {r : Reader} {tokens : List Token}
    (h : r.HasLeft tokens) :
    (r.readFrom limit openers).1 = (Form.run r.naming limit openers tokens).1.outcome ∧
      (r.readFrom limit openers).2.HasLeft (Form.run r.naming limit openers tokens).2 := by
  induction tokens generalizing openers r with
  | nil =>
    obtain ⟨r', hnext, hleft⟩ := nextToken_of_nil h
    rw [readFrom_of_error hnext]
    exact ⟨rfl, hleft⟩
  | cons token tokens ih =>
    obtain ⟨r', hnext, hleft⟩ := nextToken_of_cons h
    rw [readFrom_of_ok hnext, Form.run_cons, ← naming_of_nextToken hnext]
    cases Form.feed r'.naming limit openers token with
    | more openers' =>
      have hrest := ih openers' (hleft.intern token)
      rwa [naming_intern] at hrest
    | _ => exact ⟨rfl, hleft.intern token⟩

/-! ## One top-level form -/

theorem read_of_form {limit : Nat} {r r' : Reader} {v : Value}
    (h : r.atBoundary.readOne limit = (.ok (.form v), r')) : r.read limit = (.ok v, r') := by
  rw [read]
  split <;> simp_all

theorem read_of_close {limit : Nat} {r r' : Reader}
    (h : r.atBoundary.readOne limit = (.ok .close, r')) :
    r.read limit = r'.skipClose.read limit := by
  rw [read]
  split <;> simp_all

theorem read_of_error {limit : Nat} {r r' : Reader} {e : ReadError}
    (h : r.atBoundary.readOne limit = (.error e, r')) : r.read limit = (.error e, r') := by
  rw [read]
  split <;> simp_all

/-- Reading a top-level form skips the closing parentheses in front of it. -/
theorem read_eq_run (limit : Nat) {r : Reader} {tokens : List Token} (h : r.HasLeft tokens) :
    (r.read limit).1.map Item.form =
        (Form.run r.naming limit [] (tokens.dropWhile (· == .rparen))).1.outcome ∧
      (r.read limit).2.HasLeft
        (Form.run r.naming limit [] (tokens.dropWhile (· == .rparen))).2 := by
  induction tokens generalizing r with
  | nil =>
    obtain ⟨r', hnext, hleft⟩ := nextToken_of_nil h.atBoundary
    rw [read_of_error (readFrom_of_error hnext)]
    exact ⟨rfl, hleft⟩
  | cons token tokens ih =>
    by_cases htoken : token = .rparen
    · -- A closing parenthesis is read, skipped, and leaves the tokens behind it.
      subst htoken
      obtain ⟨r', hnext, hleft⟩ := nextToken_of_cons h.atBoundary
      rw [read_of_close (readFrom_of_ok hnext)]
      have hnaming : r'.naming = r.naming := by
        rw [naming_of_nextToken hnext, naming_atBoundary]
      exact hnaming ▸ ih (hleft.intern .rparen).skipClose
    · have hdrop : (token :: tokens).dropWhile (· == .rparen) = token :: tokens := by
        simp [htoken]
      have hclose : (Form.run r.naming limit [] (token :: tokens)).1 ≠ .done .close :=
        Form.run_ne_close (.inr (by simpa using htoken))
      obtain ⟨hres, hleft⟩ := readFrom_eq_run limit [] h.atBoundary
      rw [naming_atBoundary] at hres hleft
      rw [hdrop]
      rcases hread : r.atBoundary.readFrom limit [] with ⟨res, r'⟩
      rw [hread] at hres hleft
      cases res with
      | error e => rw [read_of_error hread]; exact ⟨hres, hleft⟩
      | ok item =>
        cases item with
        | form v => rw [read_of_form hread]; exact ⟨hres, hleft⟩
        | close =>
          cases hrun : (Form.run r.naming limit [] (token :: tokens)).1 <;>
            simp_all [Progress.outcome]

theorem map_form_inj {x y : Except ReadError Value} (h : x.map Item.form = y.map Item.form) :
    x = y := by
  cases x <;> cases y <;> simp_all [Except.map]

/-! ## As many levels as there are tokens are enough -/

theorem outcome_ne_tooDeep {progress : Progress} (h : progress ≠ .tooDeep) :
    progress.outcome ≠ .error .tooDeep := by
  cases progress <;> simp_all [Progress.outcome]

theorem readOne_ne_tooDeep {limit : Nat} {r : Reader} {tokens : List Token} (h : r.HasLeft tokens)
    (hlimit : tokens.length < limit) : (r.readOne limit).1 ≠ .error .tooDeep := by
  rw [readOne, (readFrom_eq_run limit [] h).1]
  exact outcome_ne_tooDeep (Form.run_ne_tooDeep (by rw [List.length_nil]; omega))

theorem read_ne_tooDeep {limit : Nat} {r : Reader} {tokens : List Token} (h : r.HasLeft tokens)
    (hlimit : tokens.length < limit) : (r.read limit).1 ≠ .error .tooDeep := by
  intro hread
  have hfront : (tokens.dropWhile (· == .rparen)).length ≤ tokens.length :=
    (List.dropWhile_sublist _).length_le
  have hres := (read_eq_run limit h).1
  rw [hread] at hres
  exact outcome_ne_tooDeep (Form.run_ne_tooDeep (by rw [List.length_nil]; omega))
    hres.symm

end Reader

end PocketLisp

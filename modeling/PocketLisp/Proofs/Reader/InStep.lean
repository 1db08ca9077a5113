import PocketLisp.Proofs.Reader.TokenLines

/-!
# Readers in step

What a reader finds next is decided by the tokens left on its line and the line events to come, and
what it makes of them by the symbols that it gives to names. Prompts, the record of what has
happened, names interned before and the part of the line already read make no difference to it. Two
readers that agree on what decides are *in step* (`Reader.InStep`); a reading then comes to the same
for both and leaves them in step again (`Reader.read_inStep`).

How else their symbol tables are related is left open: any relation does that is kept when both
intern the same name.
-/

namespace PocketLisp

/-! ## The first token of a text -/

theorem next?_of_lex_eq_nil {cs : List Char} (h : lex cs = []) : Token.next? cs = none := by
  cases hnext : Token.next? cs with
  | none => rfl
  | some found =>
    rw [lex_of_next?_eq_some hnext] at h
    cases h

theorem next?_of_lex_eq_cons {cs : List Char} {token : Token} {tokens : List Token}
    (h : lex cs = token :: tokens) :
    ∃ rest, Token.next? cs = some (token, rest) ∧ lex rest = tokens := by
  cases hnext : Token.next? cs with
  | none =>
    rw [lex_of_next?_eq_none hnext] at h
    cases h
  | some found =>
    obtain ⟨token', rest⟩ := found
    rw [lex_of_next?_eq_some hnext] at h
    cases h
    exact ⟨rest, rfl, rfl⟩

namespace Reader

/-! ## One equation for each way to find a token -/

/-- The reader that has asked for a line and has got this one. -/
def pull (r : Reader) (text : String) : Reader :=
  { r with
    console := (r.console.ask r.prompt).2
    line := text
    rest := text.toList
    boundary := false }

theorem nextToken_of_some {r : Reader} {token : Token} {rest : List Char}
    (h : Token.next? r.rest = some (token, rest)) :
    r.nextToken = (.ok token, { r with rest := rest }) := by
  rw [nextToken]
  split <;> simp_all

theorem nextToken_of_end {r : Reader} (h : Token.next? r.rest = none)
    (hpending : r.console.pending = []) :
    r.nextToken = (.error .endOfInput,
      { r with console := (r.console.ask r.prompt).2, boundary := false }) := by
  rw [nextToken]
  split
  · simp_all
  · split <;> simp_all

theorem nextToken_of_interrupt {r : Reader} {pending : List LineEvent}
    (h : Token.next? r.rest = none) (hpending : r.console.pending = .interrupt :: pending) :
    r.nextToken = (.error .interrupted, { r with console := (r.console.ask r.prompt).2 }) := by
  rw [nextToken]
  split
  · simp_all
  · split <;> simp_all

theorem nextToken_of_line {r : Reader} {text : String} {pending : List LineEvent}
    (h : Token.next? r.rest = none) (hpending : r.console.pending = .line text :: pending) :
    r.nextToken = (r.pull text).nextToken := by
  rw [nextToken]
  split
  · simp_all
  · split <;> simp_all [pull]

/-! ## Readers in step -/

variable {Related : SymbolTable → SymbolTable → Prop}

/-- The same line events are to come, the same tokens are left on the line, and names stand for the
same symbols; and the symbol tables are related. -/
structure InStep (Related : SymbolTable → SymbolTable → Prop) (r r' : Reader) : Prop where
  pending : r.console.pending = r'.console.pending
  tokens : lex r.rest = lex r'.rest
  naming : r.naming = r'.naming
  symbols : Related r.symbols r'.symbols

/-- Two readings that come to the same and leave the readers in step. -/
structure Matches (Related : SymbolTable → SymbolTable → Prop) {α : Type}
    (x y : Except ReadError α × Reader) : Prop where
  result : x.1 = y.1
  inStep : x.2.InStep Related y.2

theorem Matches.exists_eq {α : Type} {result : Except ReadError α} {r : Reader}
    {y : Except ReadError α × Reader} (h : Matches Related (result, r) y) :
    ∃ r', y = (result, r') ∧ r.InStep Related r' :=
  ⟨y.2, Prod.ext h.result.symm rfl, h.inStep⟩

theorem InStep.atBoundary {r r' : Reader} (h : r.InStep Related r') :
    r.atBoundary.InStep Related r'.atBoundary :=
  ⟨h.pending, h.tokens, h.naming, h.symbols⟩

theorem InStep.record {r r' : Reader} (h : r.InStep Related r') (event event' : Event) :
    (r.record event).InStep Related (r'.record event') :=
  ⟨h.pending, h.tokens, h.naming, h.symbols⟩

theorem InStep.recordAll {r r' : Reader} (h : r.InStep Related r') (events events' : List Event) :
    InStep Related { r with console := r.console.recordAll events }
      { r' with console := r'.console.recordAll events' } :=
  ⟨h.pending, h.tokens, h.naming, h.symbols⟩

theorem InStep.reset {r r' : Reader} (h : r.InStep Related r') :
    r.reset.InStep Related r'.reset :=
  ⟨h.pending, rfl, h.naming, h.symbols⟩

theorem InStep.pull {r r' : Reader} (h : r.InStep Related r') (text : String) :
    (r.pull text).InStep Related (r'.pull text) where
  pending := by simp [Reader.pull, h.pending]
  tokens := rfl
  naming := h.naming
  symbols := h.symbols

theorem nextToken_inStep {r r' : Reader} (h : r.InStep Related r') :
    Matches Related r.nextToken r'.nextToken := by
  fun_induction nextToken r generalizing r' with
  | case1 r token rest hnext =>
    have htokens := h.tokens
    rw [lex_of_next?_eq_some hnext] at htokens
    obtain ⟨rest', hnext', hrest⟩ := next?_of_lex_eq_cons htokens.symm
    rw [nextToken_of_some hnext']
    exact ⟨rfl, h.pending, hrest.symm, h.naming, h.symbols⟩
  | case2 r hnext hpending =>
    have htokens := h.tokens
    rw [lex_of_next?_eq_none hnext] at htokens
    rw [nextToken_of_end (next?_of_lex_eq_nil htokens.symm) (h.pending ▸ hpending)]
    exact ⟨rfl, by simp [h.pending], h.tokens, h.naming, h.symbols⟩
  | case3 r hnext pending hpending =>
    have htokens := h.tokens
    rw [lex_of_next?_eq_none hnext] at htokens
    rw [nextToken_of_interrupt (next?_of_lex_eq_nil htokens.symm) (h.pending ▸ hpending)]
    exact ⟨rfl, by simp [h.pending], h.tokens, h.naming, h.symbols⟩
  | case4 r hnext text pending hpending _ ih =>
    have htokens := h.tokens
    rw [lex_of_next?_eq_none hnext] at htokens
    rw [nextToken_of_line (next?_of_lex_eq_nil htokens.symm) (h.pending ▸ hpending)]
    exact ih (h.pull text)

section

variable (hinsert : ∀ (table table' : SymbolTable) (name : String),
  Related table table' → Related (table.insert name) (table'.insert name))

include hinsert

theorem InStep.intern {r r' : Reader} (h : r.InStep Related r') (token : Token) :
    (r.intern token).InStep Related (r'.intern token) := by
  have hnaming : (r.intern token).naming = (r'.intern token).naming := by
    rw [naming_intern, naming_intern, h.naming]
  unfold Reader.intern at hnaming ⊢
  split at hnaming
  · exact ⟨h.pending, h.tokens, hnaming, hinsert _ _ _ h.symbols⟩
  · exact h

/-- Readers that find the same token next read on alike. -/
theorem readFrom_matches {limit : Nat} {openers : List Opener} {r r' : Reader}
    (h : Matches Related r.nextToken r'.nextToken) :
    Matches Related (r.readFrom limit openers) (r'.readFrom limit openers) := by
  fun_induction readFrom limit openers r generalizing r' with
  | case1 openers r e r₁ hnext =>
    rw [hnext] at h
    obtain ⟨r₁', hnext', hstep⟩ := h.exists_eq
    rw [readFrom_of_error hnext']
    exact ⟨rfl, hstep⟩
  | case2 openers r token r₁ hnext _ openers' hfeed ih =>
    rw [hnext] at h
    obtain ⟨r₁', hnext', hstep⟩ := h.exists_eq
    rw [readFrom_of_ok hnext', ← hstep.naming, hfeed]
    exact ih (nextToken_inStep (hstep.intern hinsert token))
  | case3 openers r token r₁ hnext _ _ hfeed
  | case4 openers r token r₁ hnext _ hfeed
  | case5 openers r token r₁ hnext _ hfeed =>
    rw [hnext] at h
    obtain ⟨r₁', hnext', hstep⟩ := h.exists_eq
    rw [readFrom_of_ok hnext', ← hstep.naming, hfeed]
    exact ⟨rfl, hstep.intern hinsert token⟩

/-- Readers that find the same item next read on alike to the end of a form. -/
theorem read_matches {limit : Nat} {r r' : Reader}
    (h : Matches Related (r.atBoundary.readOne limit) (r'.atBoundary.readOne limit)) :
    Matches Related (r.read limit) (r'.read limit) := by
  fun_induction read limit r generalizing r' with
  | case1 r v r₁ hone =>
    rw [hone] at h
    obtain ⟨r₁', hone', hstep⟩ := h.exists_eq
    rw [read_of_form hone']
    exact ⟨rfl, hstep⟩
  | case2 r r₁ hone _ ih =>
    rw [hone] at h
    obtain ⟨r₁', hone', hstep⟩ := h.exists_eq
    rw [read_of_close hone']
    -- Both have skipped a closing parenthesis, and behind it they are in step.
    have hskipped : r₁.skipClose.InStep Related r₁'.skipClose := hstep.record _ _
    exact ih (readFrom_matches hinsert (nextToken_inStep hskipped.atBoundary))
  | case3 r e r₁ hone =>
    rw [hone] at h
    obtain ⟨r₁', hone', hstep⟩ := h.exists_eq
    rw [read_of_error hone']
    exact ⟨rfl, hstep⟩

/-- Readers in step read the same form, or fail alike. -/
theorem read_inStep {limit : Nat} {r r' : Reader} (h : r.InStep Related r') :
    Matches Related (r.read limit) (r'.read limit) :=
  read_matches hinsert (readFrom_matches hinsert (nextToken_inStep h.atBoundary))

end

end Reader

end PocketLisp

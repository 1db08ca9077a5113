import PocketLisp.Proofs.Reader.InStep

/-!
# Readers with more input behind

Line events that come behind those a reader has now are not looked at before the others are used up.
A reading that does not meet the end of input is thus the same with more input behind, and leaves
that input where it is (`Reader.read_withMore`). One that does meet the end goes on into it:

* if an interruption is what comes next, the reading ends there, whatever it had begun
  (`Reader.read_withMore_interrupt`);
* if there were only closing parentheses to skip, the reading finds what a reader finds that has
  nothing but the new input (`Reader.read_withMore_of_closes`).
-/

namespace PocketLisp

/-- The console to which more line events will come behind those that are pending. -/
def Console.withMore (console : Console) (more : List LineEvent) : Console :=
  { console with pending := console.pending ++ more }

theorem Console.ask_withMore {console : Console} {event : LineEvent} {pending : List LineEvent}
    (h : console.pending = event :: pending) (prompt : String) (more : List LineEvent) :
    ((console.withMore more).ask prompt).2 = (console.ask prompt).2.withMore more := by
  obtain ⟨_, past⟩ := console
  subst h
  rfl

namespace Reader

/-- The reader to which more line events will come behind those that are pending. -/
def withMore (r : Reader) (more : List LineEvent) : Reader :=
  { r with console := r.console.withMore more }

@[simp] theorem naming_withMore (r : Reader) (more : List LineEvent) :
    (r.withMore more).naming = r.naming := rfl

theorem withMore_intern (r : Reader) (token : Token) (more : List LineEvent) :
    (r.withMore more).intern token = (r.intern token).withMore more := by
  unfold intern
  split <;> rfl

theorem withMore_pull {r : Reader} {text : String} {pending : List LineEvent}
    (h : r.console.pending = .line text :: pending) (more : List LineEvent) :
    (r.withMore more).pull text = (r.pull text).withMore more := by
  have hask := Console.ask_withMore h r.prompt more
  show { r.withMore more with
    console := ((r.console.withMore more).ask r.prompt).2
    line := text
    rest := text.toList
    boundary := false } = _
  rw [hask]
  rfl

/-! ## As long as the end is not met -/

theorem nextToken_withMore {r r' : Reader} {result : Except ReadError Token}
    (h : r.nextToken = (result, r')) (hend : result ≠ .error .endOfInput) (more : List LineEvent) :
    (r.withMore more).nextToken = (result, r'.withMore more) := by
  fun_induction nextToken r with
  | case1 r token rest hnext =>
    cases h
    exact nextToken_of_some (r := r.withMore more) hnext
  | case2 =>
    cases h
    exact absurd rfl hend
  | case3 r hnext pending hpending =>
    cases h
    have hmore : (r.withMore more).console.pending = .interrupt :: (pending ++ more) :=
      congrArg (· ++ more) hpending
    rw [nextToken_of_interrupt (r := r.withMore more) hnext hmore]
    simp only [withMore, ← Console.ask_withMore hpending]
    rfl
  | case4 r hnext text pending hpending _ ih =>
    have hmore : (r.withMore more).console.pending = .line text :: (pending ++ more) :=
      congrArg (· ++ more) hpending
    rw [nextToken_of_line (r := r.withMore more) hnext hmore, withMore_pull hpending]
    exact ih h

theorem readFrom_withMore {limit : Nat} {openers : List Opener} {r r' : Reader}
    {result : Except ReadError Item} (h : r.readFrom limit openers = (result, r'))
    (hend : result ≠ .error .endOfInput) (more : List LineEvent) :
    (r.withMore more).readFrom limit openers = (result, r'.withMore more) := by
  fun_induction readFrom limit openers r with
  | case1 openers r e r₁ hnext =>
    cases h
    have hend' : (.error e : Except ReadError Token) ≠ .error .endOfInput := by simpa using hend
    exact readFrom_of_error (nextToken_withMore hnext hend' more)
  | case2 openers r token r₁ hnext _ openers' hfeed ih =>
    rw [readFrom_of_ok (nextToken_withMore hnext (by simp) more), naming_withMore, hfeed,
      withMore_intern]
    exact ih h
  | case3 openers r token r₁ hnext _ _ hfeed
  | case4 openers r token r₁ hnext _ hfeed
  | case5 openers r token r₁ hnext _ hfeed =>
    cases h
    rw [readFrom_of_ok (nextToken_withMore hnext (by simp) more), naming_withMore, hfeed,
      withMore_intern]
    rfl

/-- A reading that does not meet the end of input does not look behind it. -/
theorem read_withMore {limit : Nat} {r r' : Reader} {result : Except ReadError Value}
    (h : r.read limit = (result, r')) (hend : result ≠ .error .endOfInput) (more : List LineEvent) :
    (r.withMore more).read limit = (result, r'.withMore more) := by
  fun_induction read limit r with
  | case1 r v r₁ hone =>
    cases h
    exact read_of_form (r := r.withMore more) (readFrom_withMore hone (by simp) more)
  | case2 r r₁ hone _ ih =>
    rw [read_of_close (r := r.withMore more) (readFrom_withMore hone (by simp) more)]
    exact ih h
  | case3 r e r₁ hone =>
    cases h
    have hend' : (.error e : Except ReadError Item) ≠ .error .endOfInput := by simpa using hend
    exact read_of_error (r := r.withMore more) (readFrom_withMore hone hend' more)

/-! ## An interruption at the end -/

theorem nextToken_withMore_interrupt {r r' : Reader} (h : r.nextToken = (.error .endOfInput, r'))
    (more : List LineEvent) :
    ∃ q : Reader, (r.withMore (.interrupt :: more)).nextToken = (.error .interrupted, q) ∧
      q.console.pending = more := by
  fun_induction nextToken r with
  | case1 => cases h
  | case2 r hnext hpending =>
    have hmore : (r.withMore (.interrupt :: more)).console.pending = .interrupt :: more :=
      congrArg (· ++ .interrupt :: more) hpending
    refine ⟨_, nextToken_of_interrupt (r := r.withMore (.interrupt :: more)) hnext hmore, ?_⟩
    rw [Console.pending_ask, hmore]
    rfl
  | case3 => cases h
  | case4 r hnext text pending hpending _ ih =>
    have hmore : (r.withMore (.interrupt :: more)).console.pending =
        .line text :: (pending ++ .interrupt :: more) :=
      congrArg (· ++ .interrupt :: more) hpending
    rw [nextToken_of_line (r := r.withMore (.interrupt :: more)) hnext hmore,
      withMore_pull hpending]
    exact ih h

theorem readFrom_withMore_interrupt {limit : Nat} {openers : List Opener} {r r' : Reader}
    (h : r.readFrom limit openers = (.error .endOfInput, r')) (more : List LineEvent) :
    ∃ q : Reader,
      (r.withMore (.interrupt :: more)).readFrom limit openers = (.error .interrupted, q) ∧
        q.console.pending = more := by
  fun_induction readFrom limit openers r with
  | case1 openers r e r₁ hnext =>
    cases h
    obtain ⟨q, hq, hpending⟩ := nextToken_withMore_interrupt hnext more
    exact ⟨q, readFrom_of_error hq, hpending⟩
  | case2 openers r token r₁ hnext _ openers' hfeed ih =>
    rw [readFrom_of_ok (nextToken_withMore hnext (by simp) _), naming_withMore, hfeed,
      withMore_intern]
    exact ih h
  | case3 => cases h
  | case4 => cases h
  | case5 => cases h

/-- A reading that has come to the end of its input, in whatever middle of a form, is ended by an
interruption there. -/
theorem read_withMore_interrupt {limit : Nat} {r r' : Reader}
    (h : r.read limit = (.error .endOfInput, r')) (more : List LineEvent) :
    ∃ q : Reader, (r.withMore (.interrupt :: more)).read limit = (.error .interrupted, q) ∧
      q.console.pending = more := by
  fun_induction read limit r with
  | case1 => cases h
  | case2 r r₁ hone _ ih =>
    rw [read_of_close (r := r.withMore _) (readFrom_withMore hone (by simp) _)]
    exact ih h
  | case3 r e r₁ hone =>
    cases h
    obtain ⟨q, hq, hpending⟩ := readFrom_withMore_interrupt hone more
    exact ⟨q, read_of_error (r := r.withMore _) hq, hpending⟩

/-! ## Nothing begun at the end -/

/-- Symbol tables of which nothing is asked. -/
def AnyTables (_ _ : SymbolTable) : Prop := True

theorem anyTables_insert (table table' : SymbolTable) (name : String) (_ : AnyTables table table') :
    AnyTables (table.insert name) (table'.insert name) :=
  trivial

theorem nextToken_withMore_of_end {r r' q : Reader} (h : r.nextToken = (.error .endOfInput, r'))
    (hnaming : r.naming = q.naming) (hq : lex q.rest = []) :
    Matches AnyTables (r.withMore q.console.pending).nextToken q.nextToken := by
  fun_induction nextToken r with
  | case1 => cases h
  | case2 r hnext hpending =>
    apply nextToken_inStep
    refine ⟨?_, ?_, hnaming, trivial⟩
    · show r.console.pending ++ q.console.pending = q.console.pending
      rw [hpending, List.nil_append]
    · show lex r.rest = lex q.rest
      rw [hq, lex_of_next?_eq_none hnext]
  | case3 => cases h
  | case4 r hnext text pending hpending _ ih =>
    have hmore : (r.withMore q.console.pending).console.pending =
        .line text :: (pending ++ q.console.pending) :=
      congrArg (· ++ q.console.pending) hpending
    rw [nextToken_of_line (r := r.withMore q.console.pending) hnext hmore, withMore_pull hpending]
    exact ih h hnaming

/-- With nothing left but closing parentheses to skip, a reading finds what there is behind. -/
theorem read_withMore_of_closes {limit : Nat} {r q : Reader} {tokens : List Token}
    (h : r.HasLeft tokens) (hcloses : ∀ token ∈ tokens, token = .rparen)
    (hnaming : r.naming = q.naming) (hq : lex q.rest = []) :
    Matches AnyTables ((r.withMore q.console.pending).read limit) (q.read limit) := by
  induction tokens generalizing r with
  | nil =>
    obtain ⟨r', hnext, -⟩ := nextToken_of_nil h.atBoundary
    apply read_matches anyTables_insert
    apply readFrom_matches anyTables_insert
    exact nextToken_withMore_of_end (q := q.atBoundary) hnext hnaming hq
  | cons token tokens ih =>
    obtain rfl := hcloses token List.mem_cons_self
    obtain ⟨r', hnext, hleft⟩ := nextToken_of_cons h.atBoundary
    have hclose : (r.withMore q.console.pending).atBoundary.readOne limit =
        (.ok .close, r'.withMore q.console.pending) :=
      readFrom_of_ok (nextToken_withMore hnext nofun _)
    rw [read_of_close hclose]
    refine ih hleft.skipClose (fun token hmem => hcloses token (List.mem_cons_of_mem _ hmem)) ?_
    rw [naming_skipClose, naming_of_nextToken hnext, naming_atBoundary, hnaming]

/-! ## An end of input is met without interruption -/

theorem uninterrupted_of_nextToken {r r' : Reader} {result : Except ReadError Token}
    (h : r.nextToken = (result, r')) (hresult : result ≠ .error .interrupted)
    (hr' : .interrupt ∉ r'.console.pending) : .interrupt ∉ r.console.pending := by
  fun_induction nextToken r with
  | case1 =>
    cases h
    exact hr'
  | case2 r _ hpending =>
    rw [hpending]
    exact List.not_mem_nil
  | case3 =>
    cases h
    exact absurd rfl hresult
  | case4 r _ text pending hpending _ ih =>
    have hlater := ih h
    rw [Console.pending_ask, hpending] at hlater
    rw [hpending]
    intro hmem
    rcases List.mem_cons.1 hmem with heq | hmem
    · cases heq
    · exact hlater hmem

theorem pending_intern (r : Reader) (token : Token) :
    (r.intern token).console.pending = r.console.pending := by
  unfold intern
  split <;> rfl

theorem uninterrupted_of_readFrom {limit : Nat} {openers : List Opener} {r r' : Reader}
    {result : Except ReadError Item} (h : r.readFrom limit openers = (result, r'))
    (hresult : result ≠ .error .interrupted) (hr' : .interrupt ∉ r'.console.pending) :
    .interrupt ∉ r.console.pending := by
  fun_induction readFrom limit openers r with
  | case1 openers r e r₁ hnext =>
    cases h
    exact uninterrupted_of_nextToken hnext (by simpa using hresult) hr'
  | case2 openers r token r₁ hnext _ openers' _ ih =>
    have hr₁ := ih h
    rw [pending_intern] at hr₁
    exact uninterrupted_of_nextToken hnext (by simp) hr₁
  | case3 openers r token r₁ hnext
  | case4 openers r token r₁ hnext
  | case5 openers r token r₁ hnext =>
    cases h
    rw [pending_intern] at hr'
    exact uninterrupted_of_nextToken hnext (by simp) hr'

theorem uninterrupted_of_read {limit : Nat} {r r' : Reader} {result : Except ReadError Value}
    (h : r.read limit = (result, r')) (hresult : result ≠ .error .interrupted)
    (hr' : .interrupt ∉ r'.console.pending) : .interrupt ∉ r.console.pending := by
  fun_induction read limit r with
  | case1 r v r₁ hone =>
    cases h
    exact uninterrupted_of_readFrom (r := r.atBoundary) hone (by simp) hr'
  | case2 r r₁ hone _ ih =>
    exact uninterrupted_of_readFrom (r := r.atBoundary) hone (by simp) (ih h)
  | case3 r e r₁ hone =>
    cases h
    exact uninterrupted_of_readFrom (r := r.atBoundary) hone (by simpa using hresult) hr'

end Reader

end PocketLisp

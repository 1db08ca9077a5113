import PocketLisp.Proofs.Reader.TokenLines

/-!
# Recursive descent over token lines

The plainest way to read forms from tokens: a form is an atom, a quote mark and a form, or an
opening parenthesis and items up to a closing one. `TokenLines.parseOne` does just that, by
recursion, with no limit on nesting and no openers kept anywhere.
-/

namespace PocketLisp

namespace TokenLines

/-- What a parser makes of the tokens `s`: a result, and the tokens left. Every success has taken a
token, which is what ends the recursion of the parsers. -/
structure Parsed (α : Type) (s : TokenLines) where
  result : Except ReadError α
  left : TokenLines
  fewer : ∀ a, result = .ok a → left.all.length < s.all.length

namespace Parsed

variable {α β : Type} {s : TokenLines}

/-- A failure, and the tokens left behind it. -/
def fail (e : ReadError) (left : TokenLines) : Parsed α s where
  result := .error e
  left := left
  fewer := by simp

/-- Goes on with a result from the tokens it has left. -/
def andThen (p : Parsed α s)
    (next : α → (s' : TokenLines) → s'.all.length < s.all.length → Parsed β s) : Parsed β s :=
  match p with
  | ⟨.error e, left, _⟩ => fail e left
  | ⟨.ok a, left, fewer⟩ => next a left (fewer a rfl)

end Parsed

/-- The first token. -/
def parseToken (s : TokenLines) : Parsed Token s where
  result := s.nextToken.1
  left := s.nextToken.2
  fewer := by
    intro token htoken
    rcases s.nextToken_cases with ⟨-, hnext⟩ | ⟨token', s', hnext, hall⟩
    · rw [hnext] at htoken
      exact absurd htoken (by simp)
    · rw [hnext, hall]
      exact Nat.lt_succ_self _

mutual

/-- Parses one form, or one closing parenthesis. -/
def parseOne (naming : Naming) (s : TokenLines) : Parsed Item s :=
  (parseToken s).andThen fun token s' hlt =>
    match token with
    | .atom text => ⟨.ok (.form (Form.ofAtom naming text)), s', fun _ _ => hlt⟩
    | .rparen => ⟨.ok .close, s', fun _ _ => hlt⟩
    | .lparen =>
      match parseItems naming s' with
      | ⟨.error e, s'', _⟩ => .fail e s''
      | ⟨.ok items, s'', hlt'⟩ =>
        ⟨.ok (.form (.ofList items)), s'', fun _ _ => Nat.lt_trans (hlt' _ rfl) hlt⟩
    | .tick =>
      match parseOne naming s' with
      | ⟨.error e, s'', _⟩ => .fail e s''
      | ⟨.ok .close, s'', _⟩ => .fail .unexpectedClose s''
      | ⟨.ok (.form v), s'', hlt'⟩ =>
        ⟨.ok (.form (Form.quote naming v)), s'', fun _ _ => Nat.lt_trans (hlt' _ rfl) hlt⟩
termination_by (s.all.length, 0)

/-- Parses items up to the closing parenthesis of their list. -/
def parseItems (naming : Naming) (s : TokenLines) : Parsed (List Value) s :=
  (parseOne naming s).andThen fun item s' hlt =>
    match item with
    | .close => ⟨.ok [], s', fun _ _ => hlt⟩
    | .form v =>
      match parseItems naming s' with
      | ⟨.error e, s'', _⟩ => .fail e s''
      | ⟨.ok items, s'', hlt'⟩ => ⟨.ok (v :: items), s'', fun _ _ => Nat.lt_trans (hlt' _ rfl) hlt⟩
termination_by (s.all.length, 1)

end

/-- One form or one closing parenthesis, and the tokens left. -/
def readOne (naming : Naming) (s : TokenLines) : Except ReadError Item × TokenLines :=
  ((parseOne naming s).result, (parseOne naming s).left)

/-- The items of a list, and the tokens left behind its closing parenthesis. -/
def readItems (naming : Naming) (s : TokenLines) : Except ReadError (List Value) × TokenLines :=
  ((parseItems naming s).result, (parseItems naming s).left)

theorem readOne_eq (naming : Naming) (s : TokenLines) :
    s.readOne naming =
      match s.nextToken with
      | (.error e, s') => (.error e, s')
      | (.ok (.atom text), s') => (.ok (.form (Form.ofAtom naming text)), s')
      | (.ok .rparen, s') => (.ok .close, s')
      | (.ok .lparen, s') =>
        match s'.readItems naming with
        | (.error e, s'') => (.error e, s'')
        | (.ok items, s'') => (.ok (.form (.ofList items)), s'')
      | (.ok .tick, s') =>
        match s'.readOne naming with
        | (.error e, s'') => (.error e, s'')
        | (.ok .close, s'') => (.error .unexpectedClose, s'')
        | (.ok (.form v), s'') => (.ok (.form (Form.quote naming v)), s'') := by
  have hnext : s.nextToken = ((parseToken s).result, (parseToken s).left) := rfl
  rw [hnext, readOne, parseOne]
  rcases parseToken s with ⟨_ | token, s', hlt⟩
  · rfl
  · cases token with
    | atom text => rfl
    | rparen => rfl
    | lparen =>
      simp only [Parsed.andThen, readItems]
      rcases parseItems naming s' with ⟨_ | items, s'', hlt'⟩ <;> rfl
    | tick =>
      simp only [Parsed.andThen, readOne]
      rcases parseOne naming s' with ⟨_ | _ | _, s'', hlt'⟩ <;> rfl

theorem readItems_eq (naming : Naming) (s : TokenLines) :
    s.readItems naming =
      match s.readOne naming with
      | (.error e, s') => (.error e, s')
      | (.ok .close, s') => (.ok [], s')
      | (.ok (.form v), s') =>
        match s'.readItems naming with
        | (.error e, s'') => (.error e, s'')
        | (.ok items, s'') => (.ok (v :: items), s'') := by
  rw [readItems, readOne, parseItems]
  rcases parseOne naming s with ⟨_ | _ | _, s', hlt⟩
  · rfl
  · simp only [Parsed.andThen, readItems]
    rcases parseItems naming s' with ⟨_ | items, s'', hlt'⟩ <;> rfl
  · rfl

theorem length_lt_of_readOne {naming : Naming} {s s' : TokenLines} {item : Item}
    (h : s.readOne naming = (.ok item, s')) :
    s'.all.length < s.all.length := by
  obtain ⟨hres, hleft⟩ := Prod.mk.inj h
  rw [← hleft]
  exact (parseOne naming s).fewer item hres

/-- One top-level form, and the tokens left. Closing parentheses in front of it are skipped. -/
def read (naming : Naming) (s : TokenLines) : Except ReadError Value × TokenLines :=
  match h : s.readOne naming with
  | (.ok (.form v), s') => (.ok v, s')
  | (.ok .close, s') =>
    have := length_lt_of_readOne h
    read naming s'
  | (.error e, s') => (.error e, s')
termination_by s.all.length

end TokenLines

/-! ## A reader descends -/

namespace Reader

/-- Wherever a reading stands, with whatever openers, it does what descent does next: it hands a
form to the openers, closes the innermost one, or fails. -/
def FollowsOne (naming : Naming) (limit : Nat) (s : TokenLines) : Prop :=
  ∀ (r : Reader) (openers : List Opener), r.Shows s → r.naming = naming →
    (r.readFrom limit openers).1 ≠ .error .tooDeep →
    ∃ r' : Reader, r'.Shows (s.readOne naming).2 ∧ r'.naming = naming ∧
      r.readFrom limit openers =
        match (s.readOne naming).1 with
        | .ok (.form v) => r'.resume limit (Form.accept naming openers v)
        | .ok .close => r'.resume limit (Form.feed naming limit openers .rparen)
        | .error e => (.error e, r')

/-- Inside a list, a reading does what descent does up to the end of the list. -/
def FollowsItems (naming : Naming) (limit : Nat) (s : TokenLines) : Prop :=
  ∀ (r : Reader) (items : List Value) (openers : List Opener), r.Shows s → r.naming = naming →
    (r.readFrom limit (.list items :: openers)).1 ≠ .error .tooDeep →
    ∃ r' : Reader, r'.Shows (s.readItems naming).2 ∧ r'.naming = naming ∧
      r.readFrom limit (.list items :: openers) =
        match (s.readItems naming).1 with
        | .ok vs => r'.resume limit (Form.accept naming openers (.ofList (items.reverse ++ vs)))
        | .error e => (.error e, r')

/-- An opener that is not refused is put in front. -/
theorem resume_push {limit : Nat} {openers : List Opener} {opener : Opener} {r : Reader}
    (h : (r.resume limit (Form.push limit openers opener)).1 ≠ .error .tooDeep) :
    r.resume limit (Form.push limit openers opener) = r.readFrom limit (opener :: openers) := by
  unfold Form.push at h ⊢
  split
  · rfl
  · next hroom => rw [if_neg hroom] at h; exact absurd rfl h

theorem followsOne_step {naming : Naming} {limit : Nat} {s : TokenLines}
    (ihOne : ∀ s' : TokenLines, s'.all.length < s.all.length → FollowsOne naming limit s')
    (ihItems : ∀ s' : TokenLines, s'.all.length < s.all.length → FollowsItems naming limit s') :
    FollowsOne naming limit s := by
  intro r openers hshows hnaming hdeep
  obtain ⟨hres, hshows'⟩ := nextToken_shows hshows
  rw [TokenLines.readOne_eq]
  rcases s.nextToken_cases with ⟨-, hnext⟩ | ⟨token, s', hnext, hall⟩
  · rw [hnext] at hres hshows' ⊢
    refine ⟨_, hshows', ?_, readFrom_of_error (Prod.ext hres rfl)⟩
    rw [naming_nextToken, hnaming]
  · rw [hnext] at hres hshows' ⊢
    have hlt : s'.all.length < s.all.length := by rw [hall]; exact Nat.lt_succ_self _
    -- After its first token a reading goes on from what that token did to the openers.
    have hread : r.readFrom limit openers =
        (r.nextToken.2.intern token).resume limit (Form.feed naming limit openers token) := by
      rw [← hnaming, ← naming_nextToken r]
      exact readFrom_of_ok (Prod.ext hres rfl)
    have hshows'' := hshows'.intern token
    have hnaming' : (r.nextToken.2.intern token).naming = naming := by
      rw [naming_intern, naming_nextToken, hnaming]
    rw [hread] at hdeep
    cases token with
    | atom text => exact ⟨_, hshows'', hnaming', hread⟩
    | rparen => exact ⟨_, hshows'', hnaming', hread⟩
    | lparen =>
      have hpush := resume_push hdeep
      rw [show Form.feed naming limit openers .lparen = Form.push limit openers (.list []) from rfl,
        hpush] at hread
      obtain ⟨r', hr', hsame, heq⟩ :=
        ihItems s' hlt _ [] openers hshows'' hnaming' (hpush ▸ hdeep)
      rw [heq] at hread
      dsimp only
      rcases hitems : s'.readItems naming with ⟨_ | items, s''⟩ <;> rw [hitems] at hr' hread
      · exact ⟨r', hr', hsame, hread⟩
      · exact ⟨r', hr', hsame, hread⟩
    | tick =>
      have hpush := resume_push hdeep
      rw [show Form.feed naming limit openers .tick = Form.push limit openers .quote from rfl,
        hpush] at hread
      obtain ⟨r', hr', hsame, heq⟩ :=
        ihOne s' hlt _ (.quote :: openers) hshows'' hnaming' (hpush ▸ hdeep)
      rw [heq] at hread
      -- The quote mark is the innermost opener: a form completes it, and nothing closes it.
      dsimp only
      rcases hone : s'.readOne naming with ⟨_ | _ | _, s''⟩ <;> rw [hone] at hr' hread
      · exact ⟨r', hr', hsame, hread⟩
      · exact ⟨r', hr', hsame, hread⟩
      · exact ⟨r', hr', hsame, hread⟩

theorem followsItems_step {naming : Naming} {limit : Nat} {s : TokenLines}
    (hone : FollowsOne naming limit s)
    (ihItems : ∀ s' : TokenLines, s'.all.length < s.all.length → FollowsItems naming limit s') :
    FollowsItems naming limit s := by
  intro r items openers hshows hnaming hdeep
  obtain ⟨r', hr', hsame, heq⟩ := hone r (.list items :: openers) hshows hnaming hdeep
  rw [TokenLines.readItems_eq]
  rcases hread : s.readOne naming with ⟨e | v | _, s'⟩ <;> rw [hread] at hr' heq
  · exact ⟨r', hr', hsame, heq⟩
  · -- A form joins the items, and descent goes on behind it.
    have hlt := TokenLines.length_lt_of_readOne hread
    replace heq : r.readFrom limit (.list items :: openers) =
      r'.readFrom limit (.list (v :: items) :: openers) := heq
    rw [heq] at hdeep ⊢
    obtain ⟨r'', hr'', hsame', heq'⟩ := ihItems s' hlt r' (v :: items) openers hr' hsame hdeep
    rw [heq']
    dsimp only
    rcases hitems : s'.readItems naming with ⟨_ | vs, s''⟩ <;> rw [hitems] at hr''
    · exact ⟨r'', hr'', hsame', rfl⟩
    · refine ⟨r'', hr'', hsame', ?_⟩
      simp only [List.reverse_cons, List.append_assoc, List.singleton_append]
  · refine ⟨r', hr', hsame, heq.trans ?_⟩
    simp only [List.append_nil]
    rfl

/-- Whatever tokens are left, a reading that nests within the limit descends. -/
theorem follows (naming : Naming) (limit : Nat) (s : TokenLines) :
    FollowsOne naming limit s ∧ FollowsItems naming limit s := by
  -- Each token taken leaves fewer of them, so the induction is on their number.
  have main : ∀ n, ∀ s : TokenLines, s.all.length < n →
      FollowsOne naming limit s ∧ FollowsItems naming limit s := by
    intro n
    induction n with
    | zero => intro s hlt; exact absurd hlt (Nat.not_lt_zero _)
    | succ n ih =>
      intro s hlt
      have hone : FollowsOne naming limit s :=
        followsOne_step (fun s' hlt' => (ih s' (by omega)).1) (fun s' hlt' => (ih s' (by omega)).2)
      exact ⟨hone, followsItems_step hone fun s' hlt' => (ih s' (by omega)).2⟩
  exact main (s.all.length + 1) s (Nat.lt_succ_self _)

/-- Reading one form is descent, unless the form nests too deep. -/
theorem readOne_shows {limit : Nat} {r : Reader} {s : TokenLines} (h : r.Shows s)
    (hdeep : (r.readOne limit).1 ≠ .error .tooDeep) :
    (r.readOne limit).1 = (s.readOne r.naming).1 ∧
      (r.readOne limit).2.Shows (s.readOne r.naming).2 := by
  obtain ⟨r', hr', -, heq⟩ := (follows r.naming limit s).1 r [] h rfl hdeep
  rw [readOne, heq]
  rcases hone : s.readOne r.naming with ⟨_ | _ | _, s'⟩ <;> rw [hone] at hr' <;> exact ⟨rfl, hr'⟩

/-- Reading a top-level form is descent, unless the form nests too deep. -/
theorem read_shows {limit : Nat} {r : Reader} {s : TokenLines} (h : r.Shows s)
    (hdeep : (r.read limit).1 ≠ .error .tooDeep) :
    (r.read limit).1 = (s.read r.naming).1 ∧ (r.read limit).2.Shows (s.read r.naming).2 := by
  have hfirst : ∀ r : Reader, (r.read limit).1 ≠ .error .tooDeep →
      (r.atBoundary.readOne limit).1 ≠ .error .tooDeep := by
    intro r hdeep heq
    rw [read_of_error (Prod.ext heq rfl)] at hdeep
    exact hdeep rfl
  generalize hnaming : r.naming = naming
  fun_induction TokenLines.read naming s generalizing r with
  | case1 s v s' hone =>
    obtain ⟨hres, hshows⟩ := readOne_shows h.atBoundary (hfirst r hdeep)
    rw [naming_atBoundary, hnaming, hone] at hres hshows
    rw [read_of_form (Prod.ext hres rfl)]
    exact ⟨rfl, hshows⟩
  | case2 s s' hone _ ih =>
    obtain ⟨hres, hshows⟩ := readOne_shows h.atBoundary (hfirst r hdeep)
    rw [naming_atBoundary, hnaming, hone] at hres hshows
    have hsame := naming_of_readOne (Prod.ext hres rfl)
    rw [read_of_close (Prod.ext hres rfl)] at hdeep ⊢
    exact ih hshows.skipClose hdeep (hsame.trans hnaming)
  | case3 s e s' hone =>
    obtain ⟨hres, hshows⟩ := readOne_shows h.atBoundary (hfirst r hdeep)
    rw [naming_atBoundary, hnaming, hone] at hres hshows
    rw [read_of_error (Prod.ext hres rfl)]
    exact ⟨rfl, hshows⟩

end Reader

end PocketLisp

import PocketLisp.Reader

/-!
# Feeding tokens to openers

`Form.feed` says what one token does to the openers; `Form.run` feeds tokens one after the other for
as long as the openers need more. Its laws are those of any such machine: tokens that come later go
to the openers that still need them (`run_append_of_more`) and are left alone otherwise
(`run_append_of_ne_more`), and nesting is bounded by the number of tokens (`run_ne_tooDeep`).
-/

namespace PocketLisp

/-- What a reading reports when its openers have come to this. -/
def Progress.outcome : Progress → Except ReadError Item
  | more _ => .error .endOfInput
  | done item => .ok item
  | unexpectedClose => .error .unexpectedClose
  | tooDeep => .error .tooDeep

namespace Form

/-- Feeds tokens for as long as more are needed: what the openers come to, and the tokens then
left. -/
def run (naming : Naming) (limit : Nat) (openers : List Opener) : List Token → Progress × List Token
  | [] => (.more openers, [])
  | token :: tokens =>
    match feed naming limit openers token with
    | .more openers => run naming limit openers tokens
    | progress => (progress, tokens)

/-- Feeds on after a step of the openers. -/
def resume (naming : Naming) (limit : Nat) (tokens : List Token) : Progress → Progress × List Token
  | .more openers => run naming limit openers tokens
  | progress => (progress, tokens)

variable {naming : Naming}

theorem run_cons (limit : Nat) (openers : List Opener) (token : Token) (tokens : List Token) :
    run naming limit openers (token :: tokens) =
      resume naming limit tokens (feed naming limit openers token) := by
  rw [run]
  cases feed naming limit openers token <;> rfl

/-- Openers that need more have used up all tokens, and go on with those that come then. -/
theorem run_append_of_more {limit : Nat} {openers openers' : List Opener} {tokens : List Token}
    (h : (run naming limit openers tokens).1 = .more openers') (more : List Token) :
    run naming limit openers (tokens ++ more) = run naming limit openers' more := by
  induction tokens generalizing openers with
  | nil =>
    obtain rfl := Progress.more.inj h
    rfl
  | cons token tokens ih =>
    rw [List.cons_append, run_cons] at *
    cases hfeed : feed naming limit openers token with
    | more openers'' => rw [hfeed] at h; exact ih h
    | _ => rw [hfeed] at h; exact absurd h (by simp [resume])

/-- Openers that have come to an end leave what comes then as it is. -/
theorem run_append_of_ne_more {limit : Nat} {openers : List Opener} {tokens : List Token}
    (h : ∀ openers', (run naming limit openers tokens).1 ≠ .more openers') (more : List Token) :
    run naming limit openers (tokens ++ more) =
      ((run naming limit openers tokens).1, (run naming limit openers tokens).2 ++ more) := by
  induction tokens generalizing openers with
  | nil => exact absurd rfl (h openers)
  | cons token tokens ih =>
    rw [List.cons_append, run_cons, run_cons] at *
    cases hfeed : feed naming limit openers token with
    | more openers'' => rw [hfeed] at h; exact ih h
    | _ => rfl

theorem run_rest_of_more {limit : Nat} {openers openers' : List Opener} {tokens : List Token}
    (h : (run naming limit openers tokens).1 = .more openers') :
    (run naming limit openers tokens).2 = [] := by
  have happend := run_append_of_more h []
  rw [List.append_nil] at happend
  rw [happend]
  rfl

/-! ## A form is never taken for a closing parenthesis -/

/-- A form that is handed on passes the quote marks around it, and then joins a list or is all. -/
theorem accept_eq (naming : Naming) (openers : List Opener) (v : Value) :
    (∃ w, accept naming openers v = .done (.form w)) ∨
    ∃ items openers', accept naming openers v = .more (.list items :: openers') ∧
      openers'.length < openers.length := by
  induction openers generalizing v with
  | nil => exact .inl ⟨v, rfl⟩
  | cons opener openers ih =>
    cases opener with
    | list items => exact .inr ⟨v :: items, openers, rfl, Nat.lt_succ_self _⟩
    | quote =>
      rcases ih (quote naming v) with ⟨w, h⟩ | ⟨items, openers', h, hlt⟩
      · exact .inl ⟨w, h⟩
      · exact .inr ⟨items, openers', h, Nat.lt_succ_of_lt hlt⟩

theorem accept_ne_close (openers : List Opener) (v : Value) :
    accept naming openers v ≠ .done .close := by
  rcases accept_eq naming openers v with ⟨w, h⟩ | ⟨items, openers', h, -⟩ <;> simp [h]

theorem accept_ne_more_nil (openers : List Opener) (v : Value) :
    accept naming openers v ≠ .more [] := by
  rcases accept_eq naming openers v with ⟨w, h⟩ | ⟨items, openers', h, -⟩ <;> simp [h]

theorem accept_ne_tooDeep (openers : List Opener) (v : Value) :
    accept naming openers v ≠ .tooDeep := by
  rcases accept_eq naming openers v with ⟨w, h⟩ | ⟨items, openers', h, -⟩ <;> simp [h]

theorem feed_ne_more_nil (limit : Nat) (openers : List Opener) (token : Token) :
    feed naming limit openers token ≠ .more [] := by
  unfold feed
  split
  · exact accept_ne_more_nil openers _
  · unfold push; split <;> simp
  · unfold push; split <;> simp
  · split
    · simp
    · exact accept_ne_more_nil _ _
    · simp

/-- Only a closing parenthesis outside all openers reads as one. -/
theorem feed_ne_close {limit : Nat} {openers : List Opener} {token : Token}
    (h : openers ≠ [] ∨ token ≠ .rparen) : feed naming limit openers token ≠ .done .close := by
  unfold feed
  split
  · exact accept_ne_close openers _
  · unfold push; split <;> simp
  · unfold push; split <;> simp
  · split
    · simp at h
    · exact accept_ne_close _ _
    · simp

theorem run_ne_close {limit : Nat} {openers : List Opener} {tokens : List Token}
    (h : openers ≠ [] ∨ tokens.head? ≠ some .rparen) :
    (run naming limit openers tokens).1 ≠ .done .close := by
  induction tokens generalizing openers with
  | nil => simp [run]
  | cons token tokens ih =>
    have hfeed : feed naming limit openers token ≠ .done .close :=
      feed_ne_close (h.imp_right fun hne heq => hne (by rw [heq, List.head?_cons]))
    rw [run_cons]
    cases hstep : feed naming limit openers token with
    | more openers' =>
      have hne : openers' ≠ [] := fun hnil => feed_ne_more_nil limit openers token (hnil ▸ hstep)
      exact ih (.inl hne)
    | done item => rw [hstep] at hfeed; exact hfeed
    | unexpectedClose => simp [resume]
    | tooDeep => simp [resume]

/-! ## Every level of nesting takes a token -/

theorem length_of_accept {openers openers' : List Opener} {v : Value}
    (h : accept naming openers v = .more openers') : openers'.length ≤ openers.length := by
  rcases accept_eq naming openers v with ⟨w, heq⟩ | ⟨items, inner, heq, hlt⟩
  · rw [heq] at h
    cases h
  · rw [heq] at h
    obtain rfl := Progress.more.inj h
    exact hlt

theorem length_of_feed {limit : Nat} {openers openers' : List Opener} {token : Token}
    (h : feed naming limit openers token = .more openers') :
    openers'.length ≤ openers.length + 1 := by
  have hpush : ∀ opener, push limit openers opener = .more openers' →
      openers'.length ≤ openers.length + 1 := by
    intro opener hpush
    unfold push at hpush
    split at hpush
    · obtain rfl := Progress.more.inj hpush
      exact Nat.le_refl _
    · exact absurd hpush (by simp)
  cases token with
  | atom text => exact Nat.le_succ_of_le (length_of_accept h)
  | lparen => exact hpush _ h
  | tick => exact hpush _ h
  | rparen =>
    cases openers with
    | nil => exact absurd h (by simp [feed])
    | cons opener openers =>
      cases opener with
      | list items =>
        have hle := length_of_accept h
        rw [List.length_cons]
        omega
      | quote => exact absurd h (by simp [feed])

theorem feed_ne_tooDeep {limit : Nat} {openers : List Opener} (token : Token)
    (h : openers.length + 2 ≤ limit) : feed naming limit openers token ≠ .tooDeep := by
  cases token with
  | atom text => exact accept_ne_tooDeep _ _
  | lparen => rw [feed, push, if_pos h]; simp
  | tick => rw [feed, push, if_pos h]; simp
  | rparen =>
    cases openers with
    | nil => simp [feed]
    | cons opener openers =>
      cases opener with
      | list items => exact accept_ne_tooDeep _ _
      | quote => simp [feed]

theorem run_ne_tooDeep {limit : Nat} {openers : List Opener} {tokens : List Token}
    (h : openers.length + tokens.length < limit) :
    (run naming limit openers tokens).1 ≠ .tooDeep := by
  induction tokens generalizing openers with
  | nil => simp [run]
  | cons token tokens ih =>
    rw [List.length_cons] at h
    have hne : feed naming limit openers token ≠ .tooDeep := feed_ne_tooDeep token (by omega)
    rw [run_cons]
    cases hfeed : feed naming limit openers token with
    | more openers' =>
      have hle := length_of_feed hfeed
      exact ih (by omega)
    | tooDeep => exact absurd hfeed hne
    | _ => simp [resume]

theorem length_run_le (limit : Nat) (openers : List Opener) (tokens : List Token) :
    (run naming limit openers tokens).2.length ≤ tokens.length := by
  induction tokens generalizing openers with
  | nil => exact Nat.le_refl _
  | cons token tokens ih =>
    rw [run_cons]
    cases feed naming limit openers token with
    | more openers' => exact Nat.le_succ_of_le (ih openers')
    | _ => exact Nat.le_succ _

end Form

end PocketLisp

import PocketLisp.Proofs.Reader.TokenLines

/-!
# The grammar of forms

Forms are written as trees: an atom, a list of trees in parentheses, or a quote mark and a tree
(`Tree`). A tree has a sequence of tokens and a meaning, and this module shows that reading is the
inverse of the one followed by the other:

* **unique readability** — no sequence of tokens begins with two different trees
  (`Tree.tokens_append_inj`);
* **completeness** — feeding the tokens of a tree hands its meaning to the openers
  (`Form.run_tokens`);
* **soundness** — the openers at any moment stand for a stack of trees begun, whose tokens are those
  fed so far (`Form.run_cases`), so feeding stops only behind a whole tree or at a quote mark that a
  closing parenthesis follows.
-/

namespace PocketLisp

/-- How a form is written. -/
inductive Tree where
  | atom (text : String)
  | list (items : List Tree)
  | quote (body : Tree)

namespace Tree

/-- The tokens of a tree. -/
def tokens : Tree → List Token
  | atom text => [.atom text]
  | list items => .lparen :: (items.flatMap tokens ++ [.rparen])
  | quote body => .tick :: tokens body

/-- The meaning of a tree, if these are the symbols that names stand for. -/
def form (naming : Naming) : Tree → Value
  | atom text =>
    match Literal.parse? text with
    | some n => .int n
    | none => .symbol (naming.symbolOf text)
  | list items => .ofList (items.map (form naming))
  | quote body => .pair (.symbol naming.quote) (.pair (form naming body) .nil)

/-- How deep a tree nests. A list has room for an item even if it has none, because its closing
parenthesis is found where an item could be. -/
def depth : Tree → Nat
  | atom _ => 1
  | list items => (items.map depth).foldr max 1 + 1
  | quote body => depth body + 1

/-- Induction over trees, where a property of a list of trees is one of each of its items. -/
@[elab_as_elim, induction_eliminator]
theorem induct {P : Tree → Prop} (atom : ∀ text, P (.atom text))
    (list : ∀ items, (∀ t ∈ items, P t) → P (.list items))
    (quote : ∀ body, P body → P (.quote body)) (t : Tree) : P t := by
  refine @Tree.rec P (fun items => ∀ t ∈ items, P t) atom list quote ?_ ?_ t
  · simp
  · intro head tail hhead htail
    exact List.forall_mem_cons.2 ⟨hhead, htail⟩

theorem depth_pos (t : Tree) : 0 < t.depth := by
  cases t <;> rw [depth] <;> omega

theorem items_depth_pos (items : List Tree) : 0 < (items.map depth).foldr max 1 := by
  cases items with
  | nil => exact Nat.one_pos
  | cons t items => exact Nat.lt_of_lt_of_le t.depth_pos (Nat.le_max_left _ _)

theorem depth_le_of_mem {items : List Tree} {t : Tree} (h : t ∈ items) :
    t.depth ≤ (items.map depth).foldr max 1 := by
  induction items with
  | nil => cases h
  | cons u items ih =>
    rw [List.map_cons, List.foldr_cons]
    rcases List.mem_cons.1 h with rfl | h
    · exact Nat.le_max_left _ _
    · exact Nat.le_trans (ih h) (Nat.le_max_right _ _)

/-! ## Unique readability -/

theorem tokens_head (t : Tree) : ∃ token tokens, t.tokens = token :: tokens ∧ token ≠ .rparen := by
  cases t with
  | atom text => exact ⟨_, _, by rw [tokens], by simp⟩
  | list items => exact ⟨_, _, by rw [tokens], by simp⟩
  | quote body => exact ⟨_, _, by rw [tokens], by simp⟩

/-- Items are told apart from the closing parenthesis by their first token. -/
private theorem items_append_inj {items : List Tree}
    (ih : ∀ t ∈ items, ∀ {t' : Tree} {rest rest' : List Token},
      t.tokens ++ rest = t'.tokens ++ rest' → t = t' ∧ rest = rest') :
    ∀ {items' : List Tree} {rest rest' : List Token},
      items.flatMap tokens ++ .rparen :: rest = items'.flatMap tokens ++ .rparen :: rest' →
        items = items' ∧ rest = rest' := by
  induction items with
  | nil =>
    intro items' rest rest' h
    cases items' with
    | nil => exact ⟨rfl, by simpa using h⟩
    | cons t' items' =>
      obtain ⟨token, tokens', htokens, hne⟩ := tokens_head t'
      simp only [List.flatMap_nil, List.flatMap_cons, htokens, List.nil_append,
        List.cons_append, List.cons.injEq] at h
      exact absurd h.1.symm hne
  | cons t items ihItems =>
    intro items' rest rest' h
    cases items' with
    | nil =>
      obtain ⟨token, tokens', htokens, hne⟩ := tokens_head t
      simp only [List.flatMap_nil, List.flatMap_cons, htokens, List.nil_append,
        List.cons_append, List.cons.injEq] at h
      exact absurd h.1 hne
    | cons t' items' =>
      simp only [List.flatMap_cons, List.append_assoc] at h
      obtain ⟨rfl, hitems⟩ := ih t List.mem_cons_self h
      obtain ⟨rfl, hrest⟩ := ihItems (fun u hu => ih u (List.mem_cons_of_mem _ hu)) hitems
      exact ⟨rfl, hrest⟩

/-- A sequence of tokens begins with at most one tree. -/
theorem tokens_append_inj {t t' : Tree} {rest rest' : List Token}
    (h : t.tokens ++ rest = t'.tokens ++ rest') : t = t' ∧ rest = rest' := by
  induction t generalizing t' rest rest' with
  | atom text =>
    cases t' <;> simp [tokens] at h
    exact ⟨by rw [h.1], h.2⟩
  | quote body ih =>
    cases t' <;> simp [tokens] at h
    obtain ⟨hbody, hrest⟩ := ih h
    exact ⟨by rw [hbody], hrest⟩
  | list items ih =>
    cases t' with
    | atom text => simp [tokens] at h
    | quote body => simp [tokens] at h
    | list items' =>
      simp only [tokens, List.cons_append, List.append_assoc, List.cons.injEq, true_and,
        List.nil_append] at h
      obtain ⟨hitems, hrest⟩ := items_append_inj ih h
      exact ⟨by rw [hitems], hrest⟩

end Tree

/-! ## Completeness -/

namespace Form

variable {naming : Naming}

/-- An opener that is not refused is put in front. -/
theorem resume_push {limit : Nat} {openers : List Opener} {opener : Opener} {tokens : List Token}
    (h : (resume naming limit tokens (push limit openers opener)).1 ≠ .tooDeep) :
    resume naming limit tokens (push limit openers opener) =
      run naming limit (opener :: openers) tokens := by
  unfold push at h ⊢
  split
  · rfl
  · next hroom => rw [if_neg hroom] at h; exact absurd rfl h

/-- Item after item joins the list that is open, up to its closing parenthesis. -/
private theorem run_items {limit : Nat} {openers : List Opener} {rest : List Token}
    {items : List Tree}
    (ih : ∀ t ∈ items, ∀ {openers : List Opener} {rest : List Token},
      (run naming limit openers (t.tokens ++ rest)).1 ≠ .tooDeep →
        run naming limit openers (t.tokens ++ rest) =
          resume naming limit rest (accept naming openers (t.form naming))) :
    ∀ done : List Value,
      (run naming limit (.list done :: openers)
        (items.flatMap Tree.tokens ++ ([.rparen] ++ rest))).1 ≠ .tooDeep →
      run naming limit (.list done :: openers) (items.flatMap Tree.tokens ++ ([.rparen] ++ rest)) =
        resume naming limit rest
          (accept naming openers (.ofList (done.reverse ++ items.map (Tree.form naming)))) := by
  induction items with
  | nil =>
    intro done _
    rw [List.flatMap_nil, List.nil_append, List.singleton_append, run_cons, List.map_nil,
      List.append_nil]
    rfl
  | cons t items ihItems =>
    intro done h
    rw [List.flatMap_cons, List.append_assoc] at h ⊢
    have hitem := ih t List.mem_cons_self h
    rw [hitem] at h ⊢
    rw [show accept naming (.list done :: openers) (t.form naming) =
      .more (.list (t.form naming :: done) :: openers) from rfl, resume] at h ⊢
    rw [ihItems (fun u hu => ih u (List.mem_cons_of_mem _ hu)) (t.form naming :: done) h]
    simp only [List.reverse_cons, List.append_assoc, List.singleton_append, List.map_cons]

/-- The tokens of a tree complete it: its meaning goes to the openers around it. -/
theorem run_tokens (limit : Nat) (t : Tree) {openers : List Opener} {rest : List Token}
    (h : (run naming limit openers (t.tokens ++ rest)).1 ≠ .tooDeep) :
    run naming limit openers (t.tokens ++ rest) =
      resume naming limit rest (accept naming openers (t.form naming)) := by
  induction t generalizing openers rest with
  | atom text =>
    rw [Tree.tokens, Tree.form, List.singleton_append, run_cons]
    rfl
  | quote body ih =>
    rw [Tree.tokens, List.cons_append, run_cons] at h ⊢
    have hpush := resume_push h
    rw [show feed naming limit openers .tick = push limit openers .quote from rfl, hpush] at h ⊢
    rw [ih h, Tree.form]
    rfl
  | list items ih =>
    rw [Tree.tokens, List.cons_append, List.append_assoc, run_cons] at h ⊢
    have hpush := resume_push h
    rw [show feed naming limit openers .lparen = push limit openers (.list []) from rfl,
      hpush] at h ⊢
    rw [run_items ih [] h, Tree.form]
    rfl

theorem run_append_ne_tooDeep {limit : Nat} {openers : List Opener} {tokens more : List Token}
    (h : (run naming limit openers (tokens ++ more)).1 ≠ .tooDeep) :
    (run naming limit openers tokens).1 ≠ .tooDeep := by
  intro heq
  rw [run_append_of_ne_more (by simp [heq])] at h
  exact h heq

/-! ## Room for a tree -/

theorem resume_nil_ne_tooDeep {limit : Nat} {progress : Progress} (h : progress ≠ .tooDeep) :
    (resume naming limit [] progress).1 ≠ .tooDeep := by
  cases progress with
  | more openers => simp [resume, run]
  | _ => exact h

private theorem run_items_ne_tooDeep {limit : Nat} {openers : List Opener} {items : List Tree}
    (ih : ∀ t ∈ items, ∀ {openers : List Opener}, openers.length + t.depth ≤ limit →
      (run naming limit openers t.tokens).1 ≠ .tooDeep)
    (hdepth : ∀ t ∈ items, openers.length + 1 + t.depth ≤ limit) :
    ∀ done : List Value, (run naming limit (.list done :: openers)
      (items.flatMap Tree.tokens ++ [.rparen])).1 ≠ .tooDeep := by
  induction items with
  | nil =>
    intro done
    rw [List.flatMap_nil, List.nil_append, run_cons]
    exact resume_nil_ne_tooDeep (accept_ne_tooDeep openers _)
  | cons t items ihItems =>
    intro done
    have hroom : (run naming limit (.list done :: openers) (t.tokens ++ [])).1 ≠ .tooDeep := by
      rw [List.append_nil]
      exact ih t List.mem_cons_self (hdepth t List.mem_cons_self)
    -- The item fits, so it joins the list, and the others follow.
    have hitem := run_tokens limit t hroom
    rw [List.append_nil] at hitem
    have hmore : (run naming limit (.list done :: openers) t.tokens).1 =
        .more (.list ((t.form naming) :: done) :: openers) := congrArg Prod.fst hitem
    rw [List.flatMap_cons, List.append_assoc, run_append_of_more hmore]
    exact ihItems (fun u hu => ih u (List.mem_cons_of_mem _ hu))
      (fun u hu => hdepth u (List.mem_cons_of_mem _ hu)) ((t.form naming) :: done)

/-- A tree is not too deep where there is room for its depth. -/
theorem run_tokens_ne_tooDeep {limit : Nat} (t : Tree) {openers : List Opener}
    (h : openers.length + t.depth ≤ limit) : (run naming limit openers t.tokens).1 ≠ .tooDeep := by
  induction t generalizing openers with
  | atom text =>
    rw [Tree.tokens, run_cons]
    exact resume_nil_ne_tooDeep (accept_ne_tooDeep openers _)
  | quote body ih =>
    rw [Tree.depth] at h
    have hbody := body.depth_pos
    rw [Tree.tokens, run_cons,
      show feed naming limit openers .tick = push limit openers .quote from rfl, push,
      if_pos (by omega)]
    apply ih
    rw [List.length_cons]
    omega
  | list items ih =>
    rw [Tree.depth] at h
    have hitems := Tree.items_depth_pos items
    rw [Tree.tokens, run_cons,
      show feed naming limit openers .lparen = push limit openers (.list []) from rfl, push,
      if_pos (by omega)]
    apply run_items_ne_tooDeep ih
    intro t ht
    have hle := Tree.depth_le_of_mem ht
    omega

end Form

/-! ## Soundness -/

/-- Something begun: a list with its trees so far, last one first, or a quote mark. -/
inductive Opening where
  | list (items : List Tree)
  | quote

namespace Opening

/-- The opener that something begun amounts to. -/
def opener (naming : Naming) : Opening → Opener
  | list items => .list (items.map (Tree.form naming))
  | quote => .quote

/-- The tokens of something begun. -/
def tokens : Opening → List Token
  | list items => .lparen :: items.reverse.flatMap Tree.tokens
  | quote => [.tick]

/-- The tokens of a stack of things begun, the innermost of which comes first. -/
def allTokens : List Opening → List Token
  | [] => []
  | opening :: stack => allTokens stack ++ opening.tokens

/-- Everything begun can be finished around a tree. -/
theorem exists_tree (stack : List Opening) (t : Tree) :
    ∃ (whole : Tree) (more : List Token),
      whole.tokens = allTokens stack ++ t.tokens ++ more := by
  induction stack generalizing t with
  | nil => exact ⟨t, [], by simp [allTokens]⟩
  | cons opening stack ih =>
    cases opening with
    | list items =>
      obtain ⟨whole, more, hwhole⟩ := ih (.list (items.reverse ++ [t]))
      refine ⟨whole, .rparen :: more, ?_⟩
      rw [hwhole]
      simp [allTokens, tokens, Tree.tokens]
    | quote =>
      obtain ⟨whole, more, hwhole⟩ := ih (.quote t)
      refine ⟨whole, more, ?_⟩
      rw [hwhole]
      simp [allTokens, tokens, Tree.tokens]

end Opening

namespace Form

variable {naming : Naming}

/-- A tree handed to what has been begun continues or completes it. -/
theorem accept_cases (naming : Naming) (stack : List Opening) (t : Tree) :
    (∃ stack', accept naming (stack.map (Opening.opener naming)) (t.form naming) =
        .more (stack'.map (Opening.opener naming)) ∧
      Opening.allTokens stack' = Opening.allTokens stack ++ t.tokens) ∨
    ∃ whole : Tree, accept naming (stack.map (Opening.opener naming)) (t.form naming) =
        .done (.form (whole.form naming)) ∧
      whole.tokens = Opening.allTokens stack ++ t.tokens := by
  induction stack generalizing t with
  | nil => exact .inr ⟨t, rfl, rfl⟩
  | cons opening stack ih =>
    cases opening with
    | list items =>
      refine .inl ⟨.list (t :: items) :: stack, rfl, ?_⟩
      simp [Opening.allTokens, Opening.tokens]
    | quote =>
      have hquote :
          accept naming ((Opening.quote :: stack).map (Opening.opener naming)) (t.form naming) =
            accept naming (stack.map (Opening.opener naming)) ((Tree.quote t).form naming) := by
        rw [Tree.form]
        rfl
      have htokens : Opening.allTokens (.quote :: stack) ++ t.tokens =
          Opening.allTokens stack ++ (Tree.quote t).tokens := by
        simp [Opening.allTokens, Opening.tokens, Tree.tokens]
      rw [hquote, htokens]
      exact ih (.quote t)

/-- What one token does to what has been begun. -/
theorem feed_cases (naming : Naming) (limit : Nat) (stack : List Opening) (token : Token) :
    (∃ stack', feed naming limit (stack.map (Opening.opener naming)) token =
        .more (stack'.map (Opening.opener naming)) ∧
      Opening.allTokens stack' = Opening.allTokens stack ++ [token]) ∨
    (∃ whole : Tree, feed naming limit (stack.map (Opening.opener naming)) token =
        .done (.form (whole.form naming)) ∧
      whole.tokens = Opening.allTokens stack ++ [token]) ∨
    (feed naming limit (stack.map (Opening.opener naming)) token = .done .close ∧ stack = [] ∧
      token = .rparen) ∨
    (feed naming limit (stack.map (Opening.opener naming)) token = .unexpectedClose ∧
      token = .rparen ∧ ∃ stack', stack = .quote :: stack') ∨
    feed naming limit (stack.map (Opening.opener naming)) token = .tooDeep := by
  cases token with
  | atom text =>
    have hfeed : feed naming limit (stack.map (Opening.opener naming)) (.atom text) =
        accept naming (stack.map (Opening.opener naming)) ((Tree.atom text).form naming) := by
      rw [Tree.form]
      rfl
    rw [hfeed]
    rcases accept_cases naming stack (.atom text) with h | h
    · exact .inl (by simpa [Tree.tokens] using h)
    · exact .inr (.inl (by simpa [Tree.tokens] using h))
  | lparen =>
    rw [show feed naming limit (stack.map (Opening.opener naming)) .lparen =
      push limit (stack.map (Opening.opener naming)) (.list []) from rfl, push]
    split
    · exact .inl ⟨.list [] :: stack, rfl, rfl⟩
    · exact .inr (.inr (.inr (.inr rfl)))
  | tick =>
    rw [show feed naming limit (stack.map (Opening.opener naming)) .tick =
      push limit (stack.map (Opening.opener naming)) .quote from rfl, push]
    split
    · exact .inl ⟨.quote :: stack, rfl, rfl⟩
    · exact .inr (.inr (.inr (.inr rfl)))
  | rparen =>
    cases stack with
    | nil => exact .inr (.inr (.inl ⟨rfl, rfl, rfl⟩))
    | cons opening stack =>
      cases opening with
      | quote => exact .inr (.inr (.inr (.inl ⟨rfl, rfl, stack, rfl⟩)))
      | list items =>
        -- The list is a tree now, and goes to what was begun before it.
        have hfeed :
            feed naming limit ((Opening.list items :: stack).map (Opening.opener naming)) .rparen =
              accept naming (stack.map (Opening.opener naming))
                ((Tree.list items.reverse).form naming) := by
          rw [Tree.form, List.map_reverse]
          rfl
        have htokens : Opening.allTokens (.list items :: stack) ++ [.rparen] =
            Opening.allTokens stack ++ (Tree.list items.reverse).tokens := by
          simp [Opening.allTokens, Opening.tokens, Tree.tokens]
        rw [hfeed, htokens]
        rcases accept_cases naming stack (.list items.reverse) with h | h
        · exact .inl h
        · exact .inr (.inl h)

/-- What feeding tokens comes to when `stack` has been begun: more has been begun, a whole tree has
been read, nothing was open to be closed, a quote mark was left without a form, or the nesting went
too deep. -/
theorem run_cases (naming : Naming) (limit : Nat) (stack : List Opening) (tokens : List Token) :
    (∃ stack', run naming limit (stack.map (Opening.opener naming)) tokens =
        (.more (stack'.map (Opening.opener naming)), []) ∧
      Opening.allTokens stack' = Opening.allTokens stack ++ tokens) ∨
    (∃ (whole : Tree) (rest : List Token),
      run naming limit (stack.map (Opening.opener naming)) tokens =
        (.done (.form (whole.form naming)), rest) ∧
      Opening.allTokens stack ++ tokens = whole.tokens ++ rest) ∨
    (∃ rest, tokens = .rparen :: rest ∧ stack = []) ∨
    (∃ (stack' : List Opening) (rest : List Token),
      run naming limit (stack.map (Opening.opener naming)) tokens =
        (.unexpectedClose, rest) ∧
      Opening.allTokens stack ++ tokens =
        Opening.allTokens (.quote :: stack') ++ .rparen :: rest) ∨
    (run naming limit (stack.map (Opening.opener naming)) tokens).1 = .tooDeep := by
  induction tokens generalizing stack with
  | nil => exact .inl ⟨stack, rfl, (List.append_nil _).symm⟩
  | cons token tokens ih =>
    rw [run_cons]
    rcases feed_cases naming limit stack token with
      ⟨stack', hfeed, hmore⟩ | ⟨whole, hfeed, hwhole⟩ | ⟨-, hstack, rfl⟩ |
      ⟨hfeed, rfl, stack', rfl⟩ | hfeed
    · -- The token went to the stack, so the tokens begun and those to come are the same together.
      have hjoin : Opening.allTokens stack ++ token :: tokens =
          Opening.allTokens stack' ++ tokens := by
        rw [hmore, List.append_assoc]
        rfl
      have hne : stack' ≠ [] := by
        intro hnil
        rw [hnil] at hmore
        simp [Opening.allTokens] at hmore
      rw [hfeed, hjoin]
      rcases ih stack' with h | h | ⟨rest, -, hnil⟩ | h | h
      · exact .inl h
      · exact .inr (.inl h)
      · exact absurd hnil hne
      · exact .inr (.inr (.inr (.inl h)))
      · exact .inr (.inr (.inr (.inr h)))
    · refine .inr (.inl ⟨whole, tokens, by rw [hfeed]; rfl, ?_⟩)
      rw [hwhole, List.append_assoc]
      rfl
    · exact .inr (.inr (.inl ⟨tokens, rfl, hstack⟩))
    · exact .inr (.inr (.inr (.inl ⟨stack', tokens, by rw [hfeed]; rfl, rfl⟩)))
    · exact .inr (.inr (.inr (.inr (by rw [hfeed]; rfl))))

end Form

/-! ## The three ways in which a reading ends -/

/-- The beginning, and not all, of the tokens of some tree. -/
def Unfinished (tokens : List Token) : Prop :=
  ∃ (t : Tree) (more : List Token), t.tokens = tokens ++ more ∧ more ≠ []

/-- The beginning of a tree up to a quote mark, and then a closing parenthesis. -/
def Misquoted (tokens : List Token) : Prop :=
  ∃ start rest : List Token, tokens = start ++ [.tick, .rparen] ++ rest ∧
    Unfinished (start ++ [.tick])

/-- What the tokens begin with nests at most `limit` deep: a tree that they hold whole, or that they
begin, or that they begin up to a quote mark and then leave. -/
def WithinDepth (limit : Nat) (tokens : List Token) : Prop :=
  ∃ t : Tree, t.depth ≤ limit ∧
    (t.tokens <+: tokens ∨ tokens <+: t.tokens ∨
      ∃ start rest more : List Token, tokens = start ++ [.tick, .rparen] ++ rest ∧
        t.tokens = start ++ [.tick] ++ more ∧ more ≠ [])

theorem unfinished_allTokens (stack : List Opening) : Unfinished (Opening.allTokens stack) := by
  obtain ⟨whole, more, hwhole⟩ := Opening.exists_tree stack (.atom "")
  refine ⟨whole, (Tree.atom "").tokens ++ more, by rw [hwhole, List.append_assoc], ?_⟩
  simp [Tree.tokens]

namespace Form

variable {naming : Naming}

theorem run_of_tree {limit : Nat} {t : Tree} {rest : List Token}
    (h : (run naming limit [] (t.tokens ++ rest)).1 ≠ .tooDeep) :
    run naming limit [] (t.tokens ++ rest) = (.done (.form (t.form naming)), rest) :=
  run_tokens limit t h

theorem run_of_unfinished {limit : Nat} {tokens : List Token} (h : Unfinished tokens)
    (hdeep : (run naming limit [] tokens).1 ≠ .tooDeep) :
    ∃ openers, run naming limit [] tokens = (.more openers, []) := by
  obtain ⟨t, more, ht, hmore⟩ := h
  by_cases hopen : ∃ openers, (run naming limit [] tokens).1 = .more openers
  · obtain ⟨openers, hopen⟩ := hopen
    exact ⟨openers, Prod.ext hopen (run_rest_of_more hopen)⟩
  · -- Otherwise the tree that the tokens begin would end before its last token.
    have happend := run_append_of_ne_more (fun openers heq => hopen ⟨openers, heq⟩) more
    rw [← ht, ← List.append_nil t.tokens] at happend
    have hdeep' : (run naming limit [] (t.tokens ++ [])).1 ≠ .tooDeep := by
      rw [happend]
      exact hdeep
    rw [run_of_tree hdeep'] at happend
    have hnil := (Prod.mk.inj happend).2
    exact absurd (List.append_eq_nil_iff.1 hnil.symm).2 hmore

theorem run_of_misquoted {limit : Nat} {start : List Token} (h : Unfinished (start ++ [.tick]))
    (hdeep : (run naming limit [] (start ++ [.tick])).1 ≠ .tooDeep) (rest : List Token) :
    run naming limit [] (start ++ [.tick, .rparen] ++ rest) = (.unexpectedClose, rest) := by
  have hsplit : start ++ [.tick, .rparen] ++ rest = start ++ [.tick] ++ .rparen :: rest := by simp
  obtain ⟨openers, hopen⟩ := run_of_unfinished h hdeep
  rw [hsplit, run_append_of_more (congrArg Prod.fst hopen)]
  -- The openers before the quote mark are still open, and the mark is the innermost of all.
  by_cases hstart : ∃ openers', (run naming limit [] start).1 = .more openers'
  · obtain ⟨openers', hstart⟩ := hstart
    rw [run_append_of_more hstart, run_cons,
      show feed naming limit openers' .tick = push limit openers' .quote from rfl, push] at hopen
    split at hopen
    · have hquote : openers = .quote :: openers' :=
        (Progress.more.inj (Prod.mk.inj hopen).1).symm
      rw [hquote, run_cons]
      rfl
    · exact absurd hopen (by simp [resume])
  · rw [run_append_of_ne_more fun openers' heq => hstart ⟨openers', heq⟩] at hopen
    exact absurd ⟨openers, (Prod.mk.inj hopen).1⟩ hstart

theorem run_misquoted_ne_tooDeep {limit : Nat} {start rest : List Token}
    (h : (run naming limit [] (start ++ [.tick, .rparen] ++ rest)).1 ≠ .tooDeep) :
    (run naming limit [] (start ++ [.tick])).1 ≠ .tooDeep := by
  have hsplit : start ++ [.tick, .rparen] ++ rest = start ++ [.tick] ++ .rparen :: rest := by simp
  rw [hsplit] at h
  exact run_append_ne_tooDeep h

/-- Tokens that nest within the limit are not too deep. -/
theorem run_ne_tooDeep_of_within {limit : Nat} {tokens : List Token}
    (h : WithinDepth limit tokens) : (run naming limit [] tokens).1 ≠ .tooDeep := by
  obtain ⟨t, hdepth, hcases⟩ := h
  have hroom : (run naming limit [] t.tokens).1 ≠ .tooDeep :=
    run_tokens_ne_tooDeep t (by rw [List.length_nil]; omega)
  rcases hcases with ⟨rest, rfl⟩ | ⟨more, hmore⟩ | ⟨start, rest, more, rfl, ht, hmore⟩
  · -- A whole tree comes to its end, and the tokens behind it are not looked at.
    rw [← List.append_nil t.tokens] at hroom
    have hwhole := run_of_tree hroom
    rw [List.append_nil] at hwhole
    rw [run_append_of_ne_more (by simp [hwhole]), hwhole]
    simp
  · rw [← hmore] at hroom
    exact run_append_ne_tooDeep hroom
  · rw [ht] at hroom
    rw [run_of_misquoted ⟨t, more, ht, hmore⟩ (run_append_ne_tooDeep hroom) rest]
    simp

theorem run_enough_ne_tooDeep (naming : Naming) (tokens : List Token) :
    (run naming (tokens.length + 1) [] tokens).1 ≠ .tooDeep :=
  run_ne_tooDeep (by rw [List.length_nil]; omega)

/-- Tokens that do not begin with a closing parenthesis begin with a tree, begin a tree, or quote a
closing parenthesis. -/
theorem tree_or_unfinished_or_misquoted {tokens : List Token} (h : tokens.head? ≠ some .rparen) :
    (∃ (t : Tree) (rest : List Token), tokens = t.tokens ++ rest) ∨ Unfinished tokens ∨
      Misquoted tokens := by
  rcases run_cases default (tokens.length + 1) [] tokens with
    ⟨stack, -, hall⟩ | ⟨t, rest, -, hall⟩ | ⟨rest, rfl, -⟩ | ⟨stack, rest, -, hall⟩ | hrun
  · refine .inr (.inl ?_)
    rw [show tokens = Opening.allTokens stack from hall.symm]
    exact unfinished_allTokens stack
  · exact .inl ⟨t, rest, hall⟩
  · exact absurd rfl h
  · refine .inr (.inr ⟨Opening.allTokens stack, rest, ?_, unfinished_allTokens (.quote :: stack)⟩)
    rw [show tokens = _ from hall]
    simp [Opening.allTokens, Opening.tokens]
  · exact absurd hrun (run_enough_ne_tooDeep default tokens)

theorem not_unfinished_of_tree (t : Tree) (rest : List Token) :
    ¬ Unfinished (t.tokens ++ rest) := by
  rintro ⟨t', more, ht', hmore⟩
  rw [← List.append_nil t'.tokens, List.append_assoc] at ht'
  obtain ⟨-, hnil⟩ := Tree.tokens_append_inj ht'
  exact hmore (List.append_eq_nil_iff.1 hnil.symm).2

theorem not_misquoted_of_tree (t : Tree) (rest : List Token) : ¬ Misquoted (t.tokens ++ rest) := by
  rintro ⟨start, rest', heq, hstart⟩
  have hdeep := run_enough_ne_tooDeep default (t.tokens ++ rest)
  have htree := run_of_tree hdeep
  rw [heq] at hdeep
  rw [heq, run_of_misquoted hstart (run_misquoted_ne_tooDeep hdeep)] at htree
  exact absurd htree (by simp)

theorem not_misquoted_of_unfinished {tokens : List Token} (h : Unfinished tokens) :
    ¬ Misquoted tokens := by
  rintro ⟨start, rest, heq, hstart⟩
  have hdeep := run_enough_ne_tooDeep default tokens
  obtain ⟨openers, hopen⟩ := run_of_unfinished h hdeep
  rw [heq] at hdeep
  rw [heq, run_of_misquoted hstart (run_misquoted_ne_tooDeep hdeep)] at hopen
  exact absurd hopen (by simp)

end Form

namespace Reader

/-- A tree that is left in front is read, if it nests within the limit, and what follows it is
left. -/
theorem read_of_tree {limit : Nat} {r : Reader} {t : Tree} {rest : List Token}
    (h : r.HasLeft (t.tokens ++ rest)) (hdepth : t.depth ≤ limit) :
    ∃ r', r.read limit = (.ok (t.form r.naming), r') ∧ r'.HasLeft rest := by
  have hfront : (t.tokens ++ rest).dropWhile (· == .rparen) = t.tokens ++ rest := by
    obtain ⟨token, tokens, heq, hne⟩ := t.tokens_head
    simp [heq, hne]
  have hroom : (Form.run r.naming limit [] (t.tokens ++ rest)).1 ≠ .tooDeep :=
    Form.run_ne_tooDeep_of_within ⟨t, hdepth, .inl ⟨rest, rfl⟩⟩
  obtain ⟨hres, hleft⟩ := read_eq_run limit h
  rw [hfront, Form.run_of_tree hroom] at hres hleft
  exact ⟨_, Prod.ext (map_form_inj hres) rfl, hleft⟩

/-- **Reading accepts exactly the grammar.** Past the closing parentheses in front, the tokens left
begin with a tree, or are the unfinished beginning of one, or quote a closing parenthesis; exactly
one of these holds. Unless the nesting goes beyond the limit, the meaning of the tree, which is the
only one, is read in the first case and the tokens behind it are left; in the second the input ends;
in the third the closing parenthesis is reported and the tokens behind it are left. -/
theorem read_accepts_grammar (limit : Nat) {r : Reader} {tokens : List Token}
    (h : r.HasLeft tokens) :
    let front := tokens.dropWhile (· == .rparen)
    let whole := ∃ (t : Tree) (rest : List Token), front = t.tokens ++ rest
    (whole ∧ ¬ Unfinished front ∧ ¬ Misquoted front ∨
      ¬ whole ∧ Unfinished front ∧ ¬ Misquoted front ∨
      ¬ whole ∧ ¬ Unfinished front ∧ Misquoted front) ∧
    (WithinDepth limit front → (r.read limit).1 ≠ .error .tooDeep) ∧
    ((r.read limit).1 ≠ .error .tooDeep →
      (∀ (t : Tree) (rest : List Token), front = t.tokens ++ rest →
        (∀ (t' : Tree) (rest' : List Token), front = t'.tokens ++ rest' → t' = t ∧ rest' = rest) ∧
        (r.read limit).1 = .ok (t.form r.naming) ∧ (r.read limit).2.HasLeft rest) ∧
      (Unfinished front → (r.read limit).1 = .error .endOfInput ∧ (r.read limit).2.HasLeft []) ∧
      (∀ start rest : List Token, front = start ++ [.tick, .rparen] ++ rest →
        Unfinished (start ++ [.tick]) →
        (r.read limit).1 = .error .unexpectedClose ∧ (r.read limit).2.HasLeft rest)) := by
  intro front whole
  obtain ⟨hres, hleft⟩ := read_eq_run limit h
  change (r.read limit).1.map Item.form = (Form.run r.naming limit [] front).1.outcome at hres
  change (r.read limit).2.HasLeft (Form.run r.naming limit [] front).2 at hleft
  refine ⟨?_, ?_, ?_⟩
  · have hhead : front.head? ≠ some .rparen := by
      intro heq
      have hnot := List.head?_dropWhile_not (· == Token.rparen) tokens
      rw [show (tokens.dropWhile (· == .rparen)).head? = some .rparen from heq] at hnot
      simp at hnot
    have htree : whole → ¬ Unfinished front ∧ ¬ Misquoted front := by
      rintro ⟨t, rest, heq⟩
      rw [heq]
      exact ⟨Form.not_unfinished_of_tree t rest, Form.not_misquoted_of_tree t rest⟩
    rcases Form.tree_or_unfinished_or_misquoted hhead with hfront | hfront | hfront
    · exact .inl ⟨hfront, htree hfront⟩
    · exact .inr (.inl ⟨fun hwhole => (htree hwhole).1 hfront, hfront,
        Form.not_misquoted_of_unfinished hfront⟩)
    · exact .inr (.inr ⟨fun hwhole => (htree hwhole).2 hfront,
        fun hopen => Form.not_misquoted_of_unfinished hopen hfront, hfront⟩)
  · intro hwithin hdeep
    rw [hdeep] at hres
    exact outcome_ne_tooDeep (Form.run_ne_tooDeep_of_within hwithin) hres.symm
  · intro hdeep
    have hrun : (Form.run r.naming limit [] front).1 ≠ .tooDeep := by
      intro heq
      rw [heq] at hres
      exact hdeep (map_form_inj hres)
    -- Each of the three ways in which tokens can begin fixes what feeding them comes to.
    refine ⟨?_, ?_, ?_⟩
    · intro t rest heq
      rw [heq] at hrun
      rw [heq, Form.run_of_tree hrun] at hres hleft
      refine ⟨?_, map_form_inj hres, hleft⟩
      intro t' rest' heq'
      exact Tree.tokens_append_inj (heq'.symm.trans heq)
    · intro hfront
      obtain ⟨openers, hopen⟩ := Form.run_of_unfinished hfront hrun
      rw [hopen] at hres hleft
      exact ⟨map_form_inj hres, hleft⟩
    · intro start rest heq hstart
      rw [heq] at hrun
      rw [heq, Form.run_of_misquoted hstart (Form.run_misquoted_ne_tooDeep hrun)] at hres hleft
      exact ⟨map_form_inj hres, hleft⟩

/-- Behind a stray closing parenthesis, `(f '1)` is read and `g` is left, with just enough room. -/
theorem read_accepts_grammar_stray_close :
    let r := Reader.new {} (.ofLines [") (f", " '1) g"]) .empty
    r.HasLeft [.rparen, .lparen, .atom "f", .tick, .atom "1", .rparen, .atom "g"] ∧
      (r.read 3).1 = .ok (.ofList [.sym "f", .ofList [.sym "quote", .int 1]]) ∧
      (r.read 3).2.HasLeft [.atom "g"] := by
  intro r
  have hall : (TokenLines.ofLines [") (f", " '1) g"]).all =
      [.rparen, .lparen, .atom "f", .tick, .atom "1", .rparen, .atom "g"] := by decide +kernel
  have hleft : r.HasLeft [.rparen, .lparen, .atom "f", .tick, .atom "1", .rparen, .atom "g"] :=
    hall ▸ (new_shows {} .empty [") (f", " '1) g"]).hasLeft
  let t := Tree.list [.atom "f", .quote (.atom "1")]
  have htokens : [.lparen, .atom "f", .tick, .atom "1", .rparen, .atom "g"] =
      t.tokens ++ [.atom "g"] := by simp [t, Tree.tokens]
  have hform : t.form r.naming = .ofList [.sym "f", .ofList [.sym "quote", .int 1]] := by
    have hsymbol : Literal.parse? "f" = none := by decide +kernel
    have hint : Literal.parse? "1" = some 1 := by decide +kernel
    simp [r, t, Tree.form, hsymbol, hint, Value.ofList, Value.chain, Value.sym]
  obtain ⟨-, hroom, hread⟩ := read_accepts_grammar 3 hleft
  have hdeep := hroom ⟨t, by simp [t, Tree.depth], .inl ⟨[.atom "g"], htokens.symm⟩⟩
  obtain ⟨-, hres, hrest⟩ := (hread hdeep).1 t [.atom "g"] htokens
  exact ⟨hleft, hres.trans (congrArg Except.ok hform), hrest⟩

end Reader

end PocketLisp

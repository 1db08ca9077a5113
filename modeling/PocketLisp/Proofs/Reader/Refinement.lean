import PocketLisp.Proofs.Reader.Descent
import PocketLisp.Proofs.Reader.Renaming

/-!
# Readers as machines over tokens

A reader is used by calling its operations one after the other, in any order and also after
failures. This module runs such a sequence of calls on a reader and on its tokens alone, and
compares them:

* the replies and the tokens left after every call are the same (`performAll_shows`), as long as no
  form nests too deep;
* tokens come off the front, one after the other, over all lines (`TokenLines.On.suffix`,
  `performAll_nextToken`);
* without `reset`, the division into lines makes no difference (`performAll_alike`).
-/

namespace PocketLisp

namespace Reader

/-- The operations of a reader. -/
inductive Operation where
  | nextToken
  | readOne
  | read
  | reset
  deriving DecidableEq, Repr

/-- What an operation gives back. -/
inductive Reply where
  | token (token : Token)
  | item (item : Item)
  | form (v : Value)
  | failed (e : ReadError)
  | dropped
  deriving DecidableEq, Repr

/-- The reply to an operation that may fail. -/
def Reply.of {α : Type} (reply : α → Reply) : Except ReadError α → Reply
  | .ok a => reply a
  | .error e => .failed e

/-- Performs one operation. -/
def perform (limit : Nat) (r : Reader) : Operation → Reply × Reader
  | .nextToken => (.of .token r.nextToken.1, r.nextToken.2)
  | .readOne => (.of .item (r.readOne limit).1, (r.readOne limit).2)
  | .read => (.of .form (r.read limit).1, (r.read limit).2)
  | .reset => (.dropped, r.reset)

/-- The reader after operations, one after the other. -/
def after (limit : Nat) (r : Reader) (operations : List Operation) : Reader :=
  operations.foldl (fun r operation => (r.perform limit operation).2) r

/-- Performs operations one after the other: each reply, and the tokens left when it came. -/
def performAll (limit : Nat) (r : Reader) : List Operation → List (Reply × TokenLines)
  | [] => []
  | operation :: operations =>
    ((r.perform limit operation).1, (r.perform limit operation).2.tokenLines) ::
      (r.perform limit operation).2.performAll limit operations

end Reader

namespace TokenLines

/-- Performs one operation on tokens alone, with these symbols for the names. -/
def perform (naming : Naming) (s : TokenLines) : Reader.Operation → Reader.Reply × TokenLines
  | .nextToken => (.of .token s.nextToken.1, s.nextToken.2)
  | .readOne => (.of .item (s.readOne naming).1, (s.readOne naming).2)
  | .read => (.of .form (s.read naming).1, (s.read naming).2)
  | .reset => (.dropped, s.reset)

/-- Performs operations on tokens alone: each reply, and the tokens left when it came. -/
def performAll (naming : Naming) (s : TokenLines) :
    List Reader.Operation → List (Reader.Reply × TokenLines)
  | [] => []
  | operation :: operations =>
    s.perform naming operation :: (s.perform naming operation).2.performAll naming operations

end TokenLines

namespace Reader

/-! ## The same replies, the same tokens left -/

theorem Reply.of_ne_tooDeep {α : Type} {reply : α → Reply} {x : Except ReadError α}
    (h : Reply.of reply x ≠ .failed .tooDeep) : x ≠ .error .tooDeep := by
  intro hx
  rw [hx] at h
  exact h rfl

theorem perform_shows {limit : Nat} {r : Reader} {s : TokenLines} (h : r.Shows s)
    (operation : Operation) (hdeep : (r.perform limit operation).1 ≠ .failed .tooDeep) :
    (r.perform limit operation).1 = (s.perform r.naming operation).1 ∧
      (r.perform limit operation).2.Shows (s.perform r.naming operation).2 := by
  cases operation with
  | nextToken =>
    obtain ⟨hres, hshows⟩ := nextToken_shows h
    exact ⟨congrArg (Reply.of .token) hres, hshows⟩
  | readOne =>
    obtain ⟨hres, hshows⟩ := readOne_shows h (Reply.of_ne_tooDeep hdeep)
    exact ⟨congrArg (Reply.of .item) hres, hshows⟩
  | read =>
    obtain ⟨hres, hshows⟩ := read_shows h (Reply.of_ne_tooDeep hdeep)
    exact ⟨congrArg (Reply.of .form) hres, hshows⟩
  | reset => exact ⟨rfl, h.reset⟩

/-- No operation changes the symbols that the reader gives. -/
@[simp] theorem naming_perform (limit : Nat) (r : Reader) (operation : Operation) :
    (r.perform limit operation).2.naming = r.naming := by
  cases operation with
  | nextToken => exact naming_nextToken r
  | readOne => exact naming_readFrom limit [] r
  | read => exact naming_read limit r
  | reset => rfl

theorem performAll_shows {limit : Nat} {r : Reader} {s : TokenLines} (h : r.Shows s)
    (operations : List Operation)
    (hdeep : ∀ o ∈ r.performAll limit operations, o.1 ≠ .failed .tooDeep) :
    r.performAll limit operations = s.performAll r.naming operations := by
  induction operations generalizing r s with
  | nil => rfl
  | cons operation operations ih =>
    obtain ⟨hreply, hshows⟩ := perform_shows h operation (hdeep _ List.mem_cons_self)
    have hlater := ih hshows fun o ho => hdeep o (List.mem_cons_of_mem _ ho)
    rw [naming_perform] at hlater
    rw [performAll, TokenLines.performAll, hreply, hshows.tokenLines_eq, hlater]

/-! ## When nothing nests too deep -/

/-- With more levels allowed than there are tokens, no operation nests too deep, and there are no
more tokens after it. -/
theorem perform_ne_tooDeep {limit : Nat} {r : Reader} {tokens : List Token} (h : r.HasLeft tokens)
    (hlimit : tokens.length < limit) (operation : Operation) :
    (r.perform limit operation).1 ≠ .failed .tooDeep ∧
      ∃ tokens', (r.perform limit operation).2.HasLeft tokens' ∧ tokens'.length < limit := by
  have hreply : ∀ {α : Type} {reply : α → Reply} {x : Except ReadError α},
      (∀ a, reply a ≠ .failed .tooDeep) → x ≠ .error .tooDeep →
      Reply.of reply x ≠ .failed .tooDeep := by
    intro α reply x hok hx
    cases x with
    | ok a => exact hok a
    | error e => simpa [Reply.of] using hx
  cases operation with
  | nextToken =>
    cases tokens with
    | nil =>
      obtain ⟨r', hnext, hleft⟩ := nextToken_of_nil h
      rw [perform, hnext]
      exact ⟨by simp [Reply.of], [], hleft, hlimit⟩
    | cons token tokens =>
      obtain ⟨r', hnext, hleft⟩ := nextToken_of_cons h
      rw [perform, hnext]
      exact ⟨by simp [Reply.of], tokens, hleft, Nat.lt_of_succ_lt hlimit⟩
  | readOne =>
    have hle := @Form.length_run_le r.naming limit [] tokens
    exact ⟨hreply (by simp) (readOne_ne_tooDeep h hlimit), _, (readFrom_eq_run limit [] h).2,
      by omega⟩
  | read =>
    have hle := @Form.length_run_le r.naming limit [] (tokens.dropWhile (· == .rparen))
    have hfront : (tokens.dropWhile (· == .rparen)).length ≤ tokens.length :=
      (List.dropWhile_sublist _).length_le
    exact ⟨hreply (by simp) (read_ne_tooDeep h hlimit), _, (read_eq_run limit h).2, by omega⟩
  | reset =>
    refine ⟨by simp [perform], _, h.shows.reset.hasLeft, ?_⟩
    have hall : (r.tokenLines.here ++ r.tokenLines.later.flatten).length < limit := by
      rw [show r.tokenLines.here ++ r.tokenLines.later.flatten = tokens from h.tokens_eq]
      exact hlimit
    rw [List.length_append] at hall
    show r.tokenLines.later.flatten.length < limit
    omega

theorem performAll_ne_tooDeep {limit : Nat} {r : Reader} {tokens : List Token}
    (h : r.HasLeft tokens) (hlimit : tokens.length < limit) (operations : List Operation) :
    ∀ o ∈ r.performAll limit operations, o.1 ≠ .failed .tooDeep := by
  induction operations generalizing r tokens with
  | nil => intro o ho; exact absurd ho List.not_mem_nil
  | cons operation operations ih =>
    obtain ⟨hreply, tokens', hleft, hlimit'⟩ := perform_ne_tooDeep h hlimit operation
    intro o ho
    rcases List.mem_cons.1 ho with rfl | ho
    · exact hreply
    · exact ih hleft hlimit' o ho

/-! ## Tokens go in order -/

/-- What taking a token preserves, reading preserves, whatever comes of it. -/
theorem readFrom_preserves {P : TokenLines → Prop} (hP : ∀ s, P s → P s.nextToken.2) (limit : Nat)
    (openers : List Opener) {r : Reader} {s : TokenLines} (h : r.Shows s) (hs : P s) :
    ∃ s', P s' ∧ (r.readFrom limit openers).2.Shows s' := by
  fun_induction readFrom limit openers r generalizing s with
  | case1 openers r e r' hnext =>
    have hshows := (nextToken_shows h).2
    rw [hnext] at hshows
    exact ⟨_, hP s hs, hshows⟩
  | case2 openers r token r' hnext _ openers' _ ih =>
    have hshows := (nextToken_shows h).2
    rw [hnext] at hshows
    exact ih (hshows.intern token) (hP s hs)
  | case3 openers r token r' hnext =>
    have hshows := (nextToken_shows h).2
    rw [hnext] at hshows
    exact ⟨_, hP s hs, hshows.intern token⟩
  | case4 openers r token r' hnext =>
    have hshows := (nextToken_shows h).2
    rw [hnext] at hshows
    exact ⟨_, hP s hs, hshows.intern token⟩
  | case5 openers r token r' hnext =>
    have hshows := (nextToken_shows h).2
    rw [hnext] at hshows
    exact ⟨_, hP s hs, hshows.intern token⟩

theorem read_preserves {P : TokenLines → Prop} (hP : ∀ s, P s → P s.nextToken.2) (limit : Nat)
    {r : Reader} {s : TokenLines} (h : r.Shows s) (hs : P s) :
    ∃ s', P s' ∧ (r.read limit).2.Shows s' := by
  fun_induction read limit r generalizing s with
  | case1 r v r' hone =>
    obtain ⟨s', hs', hshows⟩ := readFrom_preserves hP limit [] h.atBoundary hs
    rw [← readOne, hone] at hshows
    exact ⟨s', hs', hshows⟩
  | case2 r r' hone _ ih =>
    obtain ⟨s', hs', hshows⟩ := readFrom_preserves hP limit [] h.atBoundary hs
    rw [← readOne, hone] at hshows
    exact ih hshows.skipClose hs'
  | case3 r e r' hone =>
    obtain ⟨s', hs', hshows⟩ := readFrom_preserves hP limit [] h.atBoundary hs
    rw [← readOne, hone] at hshows
    exact ⟨s', hs', hshows⟩

/-- What taking a token and dropping a line preserve, every sequence of operations preserves. -/
theorem after_preserves {P : TokenLines → Prop} (hP : ∀ s, P s → P s.nextToken.2)
    (hreset : ∀ s, P s → P s.reset) (limit : Nat) (operations : List Operation) {r : Reader}
    {s : TokenLines} (h : r.Shows s) (hs : P s) :
    ∃ s', P s' ∧ (r.after limit operations).Shows s' := by
  induction operations generalizing r s with
  | nil => exact ⟨s, hs, h⟩
  | cons operation operations ih =>
    have hstep : ∃ s', P s' ∧ (r.perform limit operation).2.Shows s' := by
      cases operation with
      | nextToken => exact ⟨_, hP s hs, (nextToken_shows h).2⟩
      | readOne => exact readFrom_preserves hP limit [] h hs
      | read => exact read_preserves hP limit h hs
      | reset => exact ⟨_, hreset s hs, h.reset⟩
    obtain ⟨s', hs', hshows⟩ := hstep
    exact ih hshows hs'

end Reader

/-- Where taking tokens in order leads on `lines`: the lines not come to yet are whole, and what is
left of the current line stands right behind the last token taken. -/
inductive TokenLines.On (lines : List String) : TokenLines → Prop
  | between (earlier later : List String) (hlines : lines = earlier ++ later) :
      On lines ⟨[], later.map fun line => lex line.toList⟩
  | within (earlier later : List String) (line : String) (gone here : List Token) (last : Token)
      (hlines : lines = earlier ++ line :: later)
      (htokens : lex line.toList = gone ++ last :: here) :
      On lines ⟨here, later.map fun line => lex line.toList⟩

namespace TokenLines

theorem On.nextToken {lines : List String} {s : TokenLines} (h : On lines s) :
    On lines s.nextToken.2 := by
  -- With nothing left on the current line, the token is on the first later line that has one.
  have hempty : ∀ later earlier : List String, lines = earlier ++ later →
      On lines (take [] (later.map fun line => lex line.toList)).2 := by
    intro later
    induction later with
    | nil =>
      intro earlier hlines
      exact .between earlier [] hlines
    | cons line later ih =>
      intro earlier hlines
      show On lines (take (lex line.toList) (later.map fun line => lex line.toList)).2
      cases htokens : lex line.toList with
      | nil => exact ih (earlier ++ [line]) (by simpa using hlines)
      | cons token here =>
        rw [take]
        exact .within earlier later line [] here token hlines htokens
  cases h with
  | between earlier later hlines => exact hempty later earlier hlines
  | within earlier later line gone here last hlines htokens =>
    cases here with
    | nil => exact hempty later (earlier ++ [line]) (by simpa using hlines)
    | cons token here =>
      rw [TokenLines.nextToken, take]
      exact .within earlier later line (gone ++ [last]) here token hlines (by simpa using htokens)

theorem On.reset {lines : List String} {s : TokenLines} (h : On lines s) : On lines s.reset := by
  cases h with
  | between earlier later hlines => exact .between earlier later hlines
  | within earlier later line gone here last hlines htokens =>
    exact .between (earlier ++ [line]) later (by simpa using hlines)

theorem On.suffix {lines : List String} {s : TokenLines} (h : On lines s) :
    s.all <:+ lines.flatMap fun line => lex line.toList := by
  cases h with
  | between earlier later hlines =>
    refine ⟨earlier.flatMap fun line => lex line.toList, ?_⟩
    rw [hlines, List.flatMap_append]
    rfl
  | within earlier later line gone here last hlines htokens =>
    refine ⟨(earlier.flatMap fun line => lex line.toList) ++ (gone ++ [last]), ?_⟩
    rw [hlines, List.flatMap_append, List.flatMap_cons, htokens]
    simp [all, List.flatMap_def]

end TokenLines

namespace Reader

/-- Taking tokens one by one gives those left, in order, and then the end of input. -/
theorem performAll_nextToken (limit n : Nat) {r : Reader} {tokens : List Token}
    (h : r.HasLeft tokens) :
    (r.performAll limit (List.replicate n .nextToken)).map (·.1) =
      (tokens.take n).map .token ++
        List.replicate (n - tokens.length) (.failed .endOfInput) := by
  induction n generalizing r tokens with
  | zero => simp [performAll]
  | succ n ih =>
    cases tokens with
    | nil =>
      obtain ⟨r', hnext, hleft⟩ := nextToken_of_nil h
      have hperform : r.perform limit .nextToken = (.failed .endOfInput, r') := by
        rw [perform, hnext]
        rfl
      rw [List.replicate_succ, performAll, List.map_cons, hperform, ih hleft]
      simp [List.replicate_succ]
    | cons token tokens =>
      obtain ⟨r', hnext, hleft⟩ := nextToken_of_cons h
      have hperform : r.perform limit .nextToken = (.token token, r') := by
        rw [perform, hnext]
        rfl
      rw [List.replicate_succ, performAll, List.map_cons, hperform, ih hleft]
      simp

/-! ## Lines do not matter -/

/-- The reply with another symbol in the place of each. -/
def Reply.rename (f : Symbol → Symbol) : Reply → Reply
  | item i => item (i.rename f)
  | form v => form (v.rename f)
  | reply => reply

@[simp] theorem Reply.rename_id (reply : Reply) : reply.rename id = reply := by
  cases reply <;> simp [rename]

theorem Reply.of_item_map (f : Symbol → Symbol) (x : Except ReadError Item) :
    Reply.of .item (x.map (Item.rename f)) = (Reply.of .item x).rename f := by
  cases x <;> rfl

theorem Reply.of_form_map (f : Symbol → Symbol) (x : Except ReadError Value) :
    Reply.of .form (x.map (Value.rename f)) = (Reply.of .form x).rename f := by
  cases x <;> rfl

/-- Two readers that have the same tokens left, divided into whatever lines, and give the same
symbols but for a renaming. -/
structure Alike (f : Symbol → Symbol) (r r' : Reader) : Prop where
  naming_eq : r'.naming = r.naming.rename f
  exists_hasLeft : ∃ tokens, r.HasLeft tokens ∧ r'.HasLeft tokens

theorem readOne_alike (limit : Nat) {f : Symbol → Symbol} {r r' : Reader} (h : r.Alike f r') :
    (r'.readOne limit).1 = (r.readOne limit).1.map (Item.rename f) ∧
      ∃ tokens, (r.readOne limit).2.HasLeft tokens ∧ (r'.readOne limit).2.HasLeft tokens := by
  obtain ⟨hnaming, tokens, hleft, hleft'⟩ := h
  obtain ⟨hres, hleft⟩ := readFrom_eq_run limit [] hleft
  obtain ⟨hres', hleft'⟩ := readFrom_eq_run limit [] hleft'
  have hrun := Form.run_rename f r.naming limit [] tokens
  rw [hnaming] at hres' hleft'
  refine ⟨?_, _, hleft, ?_⟩
  · rw [readOne, readOne, hres, hres', ← Progress.outcome_rename]
    exact congrArg (fun run => run.1.outcome) hrun
  · exact congrArg Prod.snd hrun ▸ hleft'

theorem read_alike (limit : Nat) {f : Symbol → Symbol} {r r' : Reader} (h : r.Alike f r') :
    (r'.read limit).1 = (r.read limit).1.map (Value.rename f) ∧
      ∃ tokens, (r.read limit).2.HasLeft tokens ∧ (r'.read limit).2.HasLeft tokens := by
  obtain ⟨hnaming, tokens, hleft, hleft'⟩ := h
  obtain ⟨hres, hleft⟩ := read_eq_run limit hleft
  obtain ⟨hres', hleft'⟩ := read_eq_run limit hleft'
  have hrun := Form.run_rename f r.naming limit [] (tokens.dropWhile (· == .rparen))
  rw [hnaming] at hres' hleft'
  refine ⟨?_, _, hleft, ?_⟩
  · apply map_form_inj
    have hmap : ((r.read limit).1.map (Value.rename f)).map Item.form =
        ((r.read limit).1.map Item.form).map (Item.rename f) := by
      cases (r.read limit).1 <;> rfl
    rw [hmap, hres, hres', ← Progress.outcome_rename]
    exact congrArg (fun run => run.1.outcome) hrun
  · exact congrArg Prod.snd hrun ▸ hleft'

theorem perform_alike (limit : Nat) {f : Symbol → Symbol} {r r' : Reader} (h : r.Alike f r')
    {operation : Operation} (hreset : operation ≠ .reset) :
    (r'.perform limit operation).1 = (r.perform limit operation).1.rename f ∧
      (r.perform limit operation).2.Alike f (r'.perform limit operation).2 := by
  have hnaming : (r'.perform limit operation).2.naming =
      (r.perform limit operation).2.naming.rename f := by
    rw [naming_perform, naming_perform, h.naming_eq]
  cases operation with
  | nextToken =>
    obtain ⟨-, tokens, hleft, hleft'⟩ := h
    cases tokens with
    | nil =>
      obtain ⟨r₁, hnext, hleft⟩ := nextToken_of_nil hleft
      obtain ⟨r₁', hnext', hleft'⟩ := nextToken_of_nil hleft'
      rw [perform, perform, hnext, hnext'] at hnaming ⊢
      exact ⟨rfl, hnaming, [], hleft, hleft'⟩
    | cons token tokens =>
      obtain ⟨r₁, hnext, hleft⟩ := nextToken_of_cons hleft
      obtain ⟨r₁', hnext', hleft'⟩ := nextToken_of_cons hleft'
      rw [perform, perform, hnext, hnext'] at hnaming ⊢
      exact ⟨rfl, hnaming, tokens, hleft, hleft'⟩
  | readOne =>
    obtain ⟨hres, hleft⟩ := readOne_alike limit h
    refine ⟨?_, hnaming, hleft⟩
    rw [perform, perform, hres, Reply.of_item_map]
  | read =>
    obtain ⟨hres, hleft⟩ := read_alike limit h
    refine ⟨?_, hnaming, hleft⟩
    rw [perform, perform, hres, Reply.of_form_map]
  | reset => exact absurd rfl hreset

theorem performAll_alike (limit : Nat) {f : Symbol → Symbol} {r r' : Reader} (h : r.Alike f r')
    {operations : List Operation} (hreset : .reset ∉ operations) :
    (r.performAll limit operations).map (fun o => (o.1.rename f, o.2.all)) =
      (r'.performAll limit operations).map (fun o => (o.1, o.2.all)) := by
  induction operations generalizing r r' with
  | nil => rfl
  | cons operation operations ih =>
    obtain ⟨hreply, halike⟩ := perform_alike limit h fun heq => hreset (heq ▸ List.mem_cons_self)
    have hlater := ih halike fun hmem => hreset (List.mem_cons_of_mem _ hmem)
    obtain ⟨-, tokens, hleft, hleft'⟩ := halike
    have hsame : (r.perform limit operation).2.tokenLines.all =
        (r'.perform limit operation).2.tokenLines.all :=
      hleft.tokens_eq.trans hleft'.tokens_eq.symm
    rw [performAll, performAll, List.map_cons, List.map_cons, hlater, hreply, hsame]

/-- **A reader refines its tokens.** For every list of lines and every sequence of operations,
failing ones included: as long as nothing nests too deep, which takes more levels than there are
tokens to be sure of, every reply and the tokens left after it are those of the machine that has the
tokens of each line, and symbols for the names, and nothing else. In any case the tokens left are a
final part of all tokens of the lines, behind the last one taken on its line, and taking them one by
one gives each of them once and in order. Without `reset`, lines with the same tokens in a row give
the same replies and leave the same tokens; and on another symbol table they do so but for the
symbols, which are that table's of the same names. -/
theorem performAll_refines_tokenLines (limit : Nat) (prompts : Prompts) (symbols : SymbolTable)
    (lines : List String) (operations : List Operation) :
    let r := Reader.new prompts (.ofLines lines) symbols
    ((∀ o ∈ r.performAll limit operations, o.1 ≠ .failed .tooDeep) →
      r.performAll limit operations =
        (TokenLines.ofLines lines).performAll symbols.naming operations) ∧
    ((lines.flatMap fun line => lex line.toList).length < limit →
      ∀ o ∈ r.performAll limit operations, o.1 ≠ .failed .tooDeep) ∧
    (TokenLines.On lines (r.after limit operations).tokenLines ∧
      (r.after limit operations).tokens <:+ lines.flatMap (fun line => lex line.toList) ∧
      ∀ n, ((r.after limit operations).performAll limit (List.replicate n .nextToken)).map (·.1) =
        ((r.after limit operations).tokens.take n).map .token ++
          List.replicate (n - (r.after limit operations).tokens.length) (.failed .endOfInput)) ∧
    (.reset ∉ operations → ∀ (prompts' : Prompts) (lines' : List String),
      lines.flatMap (fun line => lex line.toList) = lines'.flatMap (fun line => lex line.toList) →
      (r.performAll limit operations).map (fun o => (o.1, o.2.all)) =
        ((Reader.new prompts' (.ofLines lines') symbols).performAll limit operations).map
          (fun o => (o.1, o.2.all)) ∧
      ∀ symbols' : SymbolTable,
        (r.performAll limit operations).map
            (fun o => (o.1.rename fun s => symbols'.symbolOf s.name, o.2.all)) =
          ((Reader.new prompts' (.ofLines lines') symbols').performAll limit operations).map
            (fun o => (o.1, o.2.all))) := by
  intro r
  have hnew : r.Shows (.ofLines lines) := new_shows prompts symbols lines
  have hstart : TokenLines.On lines (.ofLines lines) := .between [] lines rfl
  have hstep : ∀ s, TokenLines.On lines s → TokenLines.On lines s.nextToken.2 :=
    fun _ h => h.nextToken
  have hdrop : ∀ s, TokenLines.On lines s → TokenLines.On lines s.reset := fun _ h => h.reset
  obtain ⟨s, hon, hafter⟩ := after_preserves hstep hdrop limit operations hnew hstart
  obtain rfl := hafter.tokenLines_eq
  have hnaming : r.naming = symbols.naming := naming_new prompts (.ofLines lines) symbols
  refine ⟨hnaming ▸ performAll_shows hnew operations, ?_, ⟨hon, hon.suffix, ?_⟩, ?_⟩
  · intro hlimit
    rw [← TokenLines.all_ofLines] at hlimit
    exact performAll_ne_tooDeep hnew.hasLeft hlimit operations
  · intro n
    exact performAll_nextToken limit n hafter.hasLeft
  · intro hreset prompts' lines' hsame
    have hleft' (symbols' : SymbolTable) :
        (Reader.new prompts' (.ofLines lines') symbols').HasLeft
          (TokenLines.ofLines lines).all := by
      rw [TokenLines.all_ofLines, hsame, ← TokenLines.all_ofLines]
      exact (new_shows prompts' symbols' lines').hasLeft
    constructor
    · have halike : r.Alike id (Reader.new prompts' (.ofLines lines') symbols) :=
        ⟨by rw [hnaming, naming_new, Naming.rename_id], _, hnew.hasLeft, hleft' symbols⟩
      simpa using performAll_alike limit halike hreset
    · intro symbols'
      have hrename := symbols.naming_rename symbols'
      refine performAll_alike limit ⟨?_, _, hnew.hasLeft, hleft' symbols'⟩ hreset
      rw [hnaming, naming_new, hrename]

/-- A form over three lines, the second one blank; a token, a line dropped, and the end of input. -/
theorem performAll_refines_tokenLines_three_lines :
    let lines := ["(a ", "", ") 'b c", "d"]
    let lines' := ["(", "a) '", "b c d "]
    let r := Reader.new {} (.ofLines lines) .empty
    (∀ o ∈ r.performAll 8 [.read, .nextToken, .reset, .read, .readOne], o.1 ≠ .failed .tooDeep) ∧
    r.performAll 8 [.read, .nextToken, .reset, .read, .readOne] =
      (TokenLines.ofLines lines).performAll SymbolTable.empty.naming
        [.read, .nextToken, .reset, .read, .readOne] ∧
    (r.performAll 8 [.read, .read, .nextToken]).map (fun o => (o.1, o.2.all)) =
      ((Reader.new {} (.ofLines lines') .empty).performAll 8 [.read, .read, .nextToken]).map
        (fun o => (o.1, o.2.all)) := by
  intro lines lines' r
  have hmain := performAll_refines_tokenLines 8 {} .empty lines
    [.read, .nextToken, .reset, .read, .readOne]
  have hdeep := hmain.2.1 (by decide +kernel)
  refine ⟨hdeep, hmain.1 hdeep, ?_⟩
  exact ((performAll_refines_tokenLines 8 {} .empty lines [.read, .read, .nextToken]).2.2.2
    (by decide) {} lines' (by decide +kernel)).1

end Reader

end PocketLisp

import Mathlib.Data.List.Basic
import Mathlib.Data.Set.Card
import PocketLisp.Proofs.Reader.Grammar
import PocketLisp.Proofs.Reader.InStep

/-!
# What reading interns

Interning is a side effect of reading, spread over a reading that may be given up at any token. What
it amounts to is simple: a reading takes some tokens off the front of those left, and the table
afterwards is the table before with the names of just these tokens (`Reader.Takes`). It makes no
difference whether the reading succeeds, fails or is interrupted.

A reading that does succeed gives the meaning of a tree whose tokens are among those taken
(`Reader.readFrom_takes`, `Reader.read_takes`), so every symbol in it is the table's own.
-/

namespace PocketLisp

/-! ## Tables that grow -/

namespace SymbolTable

/-- Symbols that a table keeps are the same just if their names are. -/
theorem eq_iff_name_eq {table : SymbolTable} {s s' : Symbol} (hs : s ∈ table.entries)
    (hs' : s' ∈ table.entries) : s = s' ↔ s.name = s'.name :=
  ⟨congrArg Symbol.name, List.inj_on_of_nodup_map table.nodup hs hs'⟩

theorem mem_names_of_mem {table : SymbolTable} {s : Symbol} (h : s ∈ table.entries) :
    s.name ∈ table.names :=
  List.mem_map_of_mem h

/-- For a name that it has, a table answers with the symbol that it keeps. -/
theorem symbolOf_mem {table : SymbolTable} {name : String} (h : name ∈ table.names) :
    table.symbolOf name ∈ table.entries := by
  rw [symbolOf_eq]
  cases hfind : table.find? name with
  | none => exact absurd h (find?_eq_none_iff.1 hfind)
  | some s => exact List.mem_of_find?_eq_some hfind

theorem symbolOf_mem_insert (table : SymbolTable) (name : String) :
    table.symbolOf name ∈ (table.insert name).entries := by
  rw [← symbolOf_insert table name]
  exact symbolOf_mem (mem_names_insert.2 (.inl rfl))

/-- Asking for the name of a symbol that the table keeps gives that symbol, and adds nothing. -/
theorem intern_of_mem {table : SymbolTable} {s : Symbol} (h : s ∈ table.entries) :
    table.intern s.name = (s, table) := by
  have hname := mem_names_of_mem h
  have hsymbol : table.symbolOf s.name = s :=
    (eq_iff_name_eq (symbolOf_mem hname) h).2 (table.name_symbolOf s.name)
  exact Prod.ext hsymbol (insert_of_mem hname)

/-- The size of a table is the number of names in it. -/
theorem size_eq_ncard {table : SymbolTable} {held : Set String}
    (h : ∀ name, name ∈ table.names ↔ name ∈ held) : table.size = held.ncard := by
  have hheld : held = ↑table.names.toFinset := by
    ext name
    simp [h]
  have hnodup : table.names.Nodup := table.nodup
  rw [hheld, Set.ncard_coe_finset, List.toFinset_card_of_nodup hnodup, names, List.length_map]
  rfl

/-- On the way from `table` to `table'` symbols have been made, by the table or elsewhere: those
that the table kept it still keeps, in their order, and those that it keeps in front of them are
new. -/
structure Grows (table table' : SymbolTable) : Prop where
  suffix : table.entries <:+ table'.entries
  hasMade : ∀ s, table.HasMade s → table'.HasMade s
  not_hasMade : ∀ s ∈ table'.entries, s ∉ table.entries → ¬ table.HasMade s

theorem grows_refl (table : SymbolTable) : table.Grows table where
  suffix := List.suffix_refl _
  hasMade _ := id
  not_hasMade _ hs hnew := absurd hs hnew

theorem Grows.trans {table table' table'' : SymbolTable} (h : table.Grows table')
    (h' : table'.Grows table'') : table.Grows table'' where
  suffix := h.suffix.trans h'.suffix
  hasMade s hs := h'.hasMade s (h.hasMade s hs)
  not_hasMade := by
    intro s hs hnew hmade
    by_cases hs' : s ∈ table'.entries
    · exact h.not_hasMade s hs' hnew hmade
    · exact h'.not_hasMade s hs hs' (h.hasMade s hmade)

theorem grows_insert (table : SymbolTable) (name : String) : table.Grows (table.insert name) := by
  rw [insert]
  cases hfind : table.find? name with
  | some s =>
    rw [intern_of_some hfind]
    exact table.grows_refl
  | none =>
    rw [intern_of_none hfind]
    refine ⟨List.suffix_cons _ _, ?_, ?_⟩
    · intro s hs
      exact Nat.lt_of_lt_of_le hs List.count_le_count_cons
    · intro s hs hnew
      obtain rfl | hs := List.mem_cons.1 hs
      · exact Nat.lt_irrefl _
      · exact absurd hs hnew

theorem grows_insertAll (table : SymbolTable) (names : List String) :
    table.Grows (table.insertAll names) := by
  induction names generalizing table with
  | nil =>
    rw [insertAll_nil]
    exact table.grows_refl
  | cons name names ih =>
    rw [insertAll_cons]
    exact (table.grows_insert name).trans (ih (table.insert name))

theorem grows_makeElsewhere (table : SymbolTable) (names : List String) :
    table.Grows (table.makeElsewhere names) where
  suffix := List.suffix_refl _
  hasMade s hs := by
    rw [HasMade, makeElsewhere, List.count_append]
    exact Nat.lt_of_lt_of_le hs (Nat.le_add_left _ _)
  not_hasMade _ hs hnew := absurd hs hnew

/-- A name that a table has keeps its symbol for ever, and asking for it adds nothing any more. -/
theorem Grows.intern_eq {table table' : SymbolTable} (h : table.Grows table') {name : String}
    (hname : name ∈ table.names) : table'.intern name = ((table.intern name).1, table') := by
  have hkept := intern_of_mem (h.suffix.subset (symbolOf_mem hname))
  rwa [name_symbolOf] at hkept

/-- A symbol of a table is not a symbol of any other: one that is opened later makes symbols of its
own, also for names that the first one has. -/
theorem Grows.not_mem_of_new {table other : SymbolTable} (h : (new table.made).Grows other)
    {s : Symbol} (hs : s ∈ table.entries) : s ∉ other.entries := by
  intro hother
  exact h.not_hasMade s hother List.not_mem_nil (table.serial_lt s hs)

end SymbolTable

/-! ## One token fed to what has been begun -/

namespace Form

variable {naming : Naming} {limit : Nat} {stack : List Opening} {token : Token}

theorem feed_eq_more {openers : List Opener}
    (h : feed naming limit (stack.map (Opening.opener naming)) token = .more openers) :
    ∃ stack' : List Opening, stack'.map (Opening.opener naming) = openers ∧
      Opening.allTokens stack' = Opening.allTokens stack ++ [token] := by
  rcases feed_cases naming limit stack token with
    ⟨stack', hfeed, htokens⟩ | ⟨_, hfeed, _⟩ | ⟨hfeed, _⟩ | ⟨hfeed, _⟩ | hfeed <;> rw [hfeed] at h
  · exact ⟨stack', Progress.more.inj h, htokens⟩
  all_goals cases h

theorem feed_eq_done {v : Value}
    (h : feed naming limit (stack.map (Opening.opener naming)) token = .done (.form v)) :
    ∃ t : Tree, v = t.form naming ∧ t.tokens = Opening.allTokens stack ++ [token] := by
  rcases feed_cases naming limit stack token with ⟨_, hfeed, _⟩ | ⟨t, hfeed, htokens⟩ | ⟨hfeed, _⟩ |
    ⟨hfeed, _⟩ | hfeed <;> rw [hfeed] at h
  · cases h
  · exact ⟨t, (Item.form.inj (Progress.done.inj h)).symm, htokens⟩
  all_goals cases h

end Form

/-! ## Tokens taken -/

namespace Reader

/-- On the way from `r` to `r'` just these tokens are taken, and their names are interned in the
order in which they come. -/
structure Takes (tokens : List Token) (r r' : Reader) : Prop where
  tokens_eq : r.tokens = tokens ++ r'.tokens
  symbols_eq : r'.symbols = r.symbols.insertAll (tokens.filterMap Token.symbolName?)

variable {tokens tokens' : List Token} {r r' r'' : Reader}

/-- What touches neither tokens nor table takes nothing. -/
theorem takes_nil (htokens : r.tokens = r'.tokens) (hsymbols : r'.symbols = r.symbols) :
    Takes [] r r' :=
  ⟨htokens, by simpa using hsymbols⟩

theorem Takes.trans (h : Takes tokens r r') (h' : Takes tokens' r' r'') :
    Takes (tokens ++ tokens') r r'' where
  tokens_eq := by rw [h.tokens_eq, h'.tokens_eq, List.append_assoc]
  symbols_eq := by
    rw [h'.symbols_eq, h.symbols_eq, List.filterMap_append, SymbolTable.insertAll_append]

theorem Takes.grows (h : Takes tokens r r') : r.symbols.Grows r'.symbols := by
  rw [h.symbols_eq]
  exact SymbolTable.grows_insertAll _ _

theorem Takes.mem_names (h : Takes tokens r r') {name : String} :
    name ∈ r'.symbols.names ↔
      (∃ token ∈ tokens, token.symbolName? = some name) ∨ name ∈ r.symbols.names := by
  rw [h.symbols_eq, SymbolTable.mem_names_insertAll, List.mem_filterMap]

/-- Looking for a token takes it if it finds one, over however many lines, and takes
nothing else. -/
theorem nextToken_tokens {result : Except ReadError Token} (h : r.nextToken = (result, r')) :
    r.tokens = result.toOption.toList ++ r'.tokens ∧ r'.symbols = r.symbols := by
  fun_induction nextToken r with
  | case1 r token rest hnext =>
    cases h
    refine ⟨?_, rfl⟩
    show lex r.rest ++ _ = token :: (lex rest ++ _)
    rw [lex_of_next?_eq_some hnext]
    rfl
  | case2 r hnext hpending =>
    cases h
    refine ⟨?_, rfl⟩
    simp [tokens, tokenLines, hpending, Except.toOption]
  | case3 r hnext pending hpending =>
    cases h
    refine ⟨?_, rfl⟩
    simp [tokens, tokenLines, TokenLines.all, hpending, LineEvent.tokens, Except.toOption]
  | case4 r hnext text pending hpending _ ih =>
    obtain ⟨htokens, hsymbols⟩ := ih h
    refine ⟨?_, hsymbols⟩
    rw [← htokens]
    simp [tokens, tokenLines, TokenLines.all, hpending, LineEvent.tokens,
      lex_of_next?_eq_none hnext]

theorem nextToken_takes {e : ReadError} (h : r.nextToken = (.error e, r')) : Takes [] r r' :=
  takes_nil (nextToken_tokens h).1 (nextToken_tokens h).2

theorem tokens_intern (r : Reader) (token : Token) : (r.intern token).tokens = r.tokens := by
  unfold intern
  split <;> rfl

theorem symbols_intern (r : Reader) (token : Token) :
    (r.intern token).symbols = r.symbols.insertAll token.symbolName?.toList := by
  unfold intern
  split
  · next name hname =>
    rw [hname, Option.toList_some, SymbolTable.insertAll_cons, SymbolTable.insertAll_nil]
    rfl
  · next hname => rw [hname, Option.toList_none, SymbolTable.insertAll_nil]

theorem intern_takes {token : Token} (h : r.nextToken = (.ok token, r')) :
    Takes [token] r (r'.intern token) := by
  obtain ⟨htokens, hsymbols⟩ := nextToken_tokens h
  constructor
  · rw [tokens_intern]
    exact htokens
  · rw [symbols_intern, hsymbols]
    cases hname : token.symbolName? <;> simp [hname]

/-- However a reading ends, it has taken some tokens and interned their names; and if it ends with a
form, that is the meaning of a tree made of the tokens begun and those taken. -/
theorem readFrom_takes (limit : Nat) (stack : List Opening) (r : Reader) {openers : List Opener}
    (hopeners : stack.map (Opening.opener r.naming) = openers) :
    ∃ tokens, Takes tokens r (r.readFrom limit openers).2 ∧
      ∀ v, (r.readFrom limit openers).1 = .ok (.form v) →
        ∃ t : Tree, v = t.form r.naming ∧ t.tokens = Opening.allTokens stack ++ tokens := by
  fun_induction readFrom limit openers r generalizing stack with
  | case1 openers r e r₁ hnext =>
    refine ⟨[], nextToken_takes hnext, ?_⟩
    intro v hv
    cases hv
  | case2 openers r token r₁ hnext _ openers' hfeed ih =>
    -- The token goes to what has been begun, and the reading goes on from there.
    subst hopeners
    have hnaming := naming_of_nextToken hnext
    rw [hnaming] at hfeed
    obtain ⟨stack', hstack', hbegun⟩ := Form.feed_eq_more hfeed
    rw [naming_intern, hnaming] at ih
    obtain ⟨tokens, htakes, hform⟩ := ih stack' hstack'
    refine ⟨token :: tokens, (intern_takes hnext).trans htakes, ?_⟩
    intro v hv
    obtain ⟨t, hvt, ht⟩ := hform v hv
    refine ⟨t, hvt, ?_⟩
    rw [ht, hbegun, List.append_assoc]
    rfl
  | case3 openers r token r₁ hnext _ item hfeed =>
    subst hopeners
    refine ⟨[token], intern_takes hnext, ?_⟩
    intro v hv
    obtain rfl := Except.ok.inj hv
    rw [naming_of_nextToken hnext] at hfeed
    exact Form.feed_eq_done hfeed
  | case4 openers r token r₁ hnext | case5 openers r token r₁ hnext =>
    refine ⟨[token], intern_takes hnext, ?_⟩
    intro v hv
    cases hv

theorem readOne_takes (limit : Nat) (r : Reader) :
    ∃ tokens, Takes tokens r (r.readOne limit).2 ∧ ∀ v, (r.readOne limit).1 = .ok (.form v) →
      ∃ t : Tree, v = t.form r.naming ∧ t.tokens = tokens :=
  readFrom_takes limit [] r rfl

/-- The same at the top level, where closing parentheses may have been taken and skipped before. -/
theorem read_takes (limit : Nat) (r : Reader) :
    ∃ tokens, Takes tokens r (r.read limit).2 ∧ ∀ v, (r.read limit).1 = .ok v →
      ∃ t : Tree, v = t.form r.naming ∧ t.tokens ⊆ tokens := by
  fun_induction read limit r with
  | case1 r v r₁ hone =>
    obtain ⟨tokens, htakes, hform⟩ := readOne_takes limit r.atBoundary
    rw [hone] at htakes hform
    refine ⟨tokens, ⟨htakes.tokens_eq, htakes.symbols_eq⟩, ?_⟩
    intro w hw
    cases hw
    obtain ⟨t, hvt, ht⟩ := hform v rfl
    exact ⟨t, hvt, ht ▸ List.Subset.refl _⟩
  | case2 r r₁ hone _ ih =>
    obtain ⟨skipped, hskipped, -⟩ := readOne_takes limit r.atBoundary
    rw [hone] at hskipped
    rw [naming_skipClose, naming_of_readOne hone] at ih
    obtain ⟨tokens, htakes, hform⟩ := ih
    have hclose : Takes skipped r r₁.skipClose := ⟨hskipped.tokens_eq, hskipped.symbols_eq⟩
    refine ⟨skipped ++ tokens, hclose.trans htakes, ?_⟩
    intro v hv
    obtain ⟨t, hvt, ht⟩ := hform v hv
    exact ⟨t, hvt, List.Subset.trans ht (List.subset_append_right _ _)⟩
  | case3 r e r₁ hone =>
    obtain ⟨tokens, htakes, -⟩ := readOne_takes limit r.atBoundary
    rw [hone] at htakes
    refine ⟨tokens, ⟨htakes.tokens_eq, htakes.symbols_eq⟩, ?_⟩
    intro v hv
    cases hv

end Reader

end PocketLisp

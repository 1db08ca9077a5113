import PocketLisp.Interpreter
import PocketLisp.Proofs.Eval.Coincidence
import PocketLisp.Proofs.Reader.Interning

/-!
# Readers that share a symbol table

A workspace is one symbol table with everything that uses it: readers, each on a console of its own,
and interpreters that bind nothing but the builtins, all of them opened at any time. It is used by
reading with one reader or another, whatever has failed before, and by evaluating what has been read
or computed so far (`Workspace.Action`). Meanwhile symbols are made elsewhere, of any names.

The table is a history of that use and of nothing else (`Workspace.names_of_run`): it holds the
names it had, those that come with the readers and interpreters opened, and the names of the tokens
that readings have taken, those of forms given up included. Evaluation leaves it alone, and never
meets a symbol that the table does not keep. As the table keeps one symbol for a name and gives it
out for ever, symbols with the same name are the same wherever they turn up; and none of them is a
symbol of another table (`Workspace.kept_disjoint`).
-/

namespace PocketLisp

/-! ## Symbols in values -/

/-- The symbols in a value, wherever they stand in it. -/
def Value.symbols : Value → List Symbol
  | symbol s => [s]
  | pair first rest => first.symbols ++ rest.symbols
  | closure params body => params ++ body.symbols
  | _ => []

namespace Value

variable {S T : Set Symbol}

theorem Within.symbols {v : Value} (h : v.Within S) : ∀ s ∈ v.symbols, s ∈ S := by
  induction v with
  | symbol s' =>
    intro s hs
    rw [List.mem_singleton.1 hs]
    exact h
  | pair first rest ihfirst ihrest =>
    intro s hs
    rcases List.mem_append.1 hs with hs | hs
    · exact ihfirst h.1 s hs
    · exact ihrest h.2 s hs
  | closure params body ih =>
    intro s hs
    rcases List.mem_append.1 hs with hs | hs
    · exact h.1 s hs
    · exact ih h.2 s hs
  | _ => nofun

theorem Within.mono (hST : S ⊆ T) {v : Value} (h : v.Within S) : v.Within T := by
  induction v with
  | symbol s => exact hST h
  | pair first rest ihfirst ihrest => exact ⟨ihfirst h.1, ihrest h.2⟩
  | closure params body ih => exact ⟨fun s hs => hST (h.1 s hs), ih h.2⟩
  | native f =>
    cases f with
    | builtin b => exact trivial
    | host id name => exact h.elim
  | _ => exact trivial

end Value

/-- The meaning of a tree has no symbols but the one for quote marks and those that its tokens
name. -/
theorem Tree.form_within {S : Set Symbol} {naming : Naming} (hquote : naming.quote ∈ S) (t : Tree)
    (hnames : ∀ token ∈ t.tokens, ∀ name, token.symbolName? = some name →
      naming.symbolOf name ∈ S) :
    (t.form naming).Within S := by
  induction t with
  | atom text =>
    rw [form]
    split
    · exact trivial
    · next hliteral =>
      have hname : (Token.atom text).symbolName? = some text := by
        simp [Token.symbolName?, hliteral]
      exact hnames (.atom text) (by simp [tokens]) text hname
  | list items ih =>
    rw [form]
    apply Value.ofList_within
    intro v hv
    obtain ⟨t, ht, rfl⟩ := List.mem_map.1 hv
    refine ih t ht fun token htoken => hnames token ?_
    rw [tokens]
    exact List.mem_cons_of_mem _ (List.mem_append_left _ (List.mem_flatMap.2 ⟨t, ht, htoken⟩))
  | quote body ih =>
    rw [form]
    refine ⟨hquote, ih fun token htoken => hnames token ?_, trivial⟩
    rw [tokens]
    exact List.mem_cons_of_mem _ htoken

/-! ## Symbols of an interpreter -/

/-- The symbols that have a meaning of their own. -/
def Basis.symbols (basis : Basis) : List Symbol :=
  basis.nil :: basis.t :: SpecialForm.all.map basis.keyword

namespace Interpreter

/-- The symbols that an interpreter has to know: those with a meaning of their own, and those bound
in its root frame. -/
def known (i : Interpreter) : List Symbol := i.basis.symbols ++ i.root.symbols

/-- A new interpreter knows symbols that it has interned, and no others. -/
theorem known_new (symbols : SymbolTable) (host : Host) {s : Symbol}
    (hs : s ∈ (new symbols host).known) : s ∈ (symbols.insertAll coreNames).entries := by
  have hcore : ∀ name ∈ coreNames,
      symbols.symbolOf name ∈ (symbols.insertAll coreNames).entries := by
    intro name hname
    rw [← symbols.symbolOf_insertAll coreNames]
    exact SymbolTable.symbolOf_mem (SymbolTable.mem_names_insertAll.2 (.inl hname))
  rw [known, basis_new, root_new] at hs
  rcases List.mem_append.1 hs with hs | hs
  · rcases List.mem_cons.1 hs with rfl | hs
    · exact hcore "nil" (by decide)
    rcases List.mem_cons.1 hs with rfl | hs
    · exact hcore "t" (by decide)
    obtain ⟨form, -, rfl⟩ := List.mem_map.1 hs
    exact hcore form.keyword (by cases form <;> decide)
  · obtain ⟨binding, hbinding, rfl⟩ := List.mem_map.1 hs
    obtain ⟨b, -, rfl⟩ := List.mem_map.1 (Frame.mem_ofBindings hbinding)
    exact hcore b.name (by cases b <;> decide)

/-- A new interpreter binds nothing but builtins. -/
theorem root_new_within (symbols : SymbolTable) (host : Host) (S : Set Symbol)
    {binding : Symbol × Value} (h : binding ∈ (new symbols host).root) : binding.2.Within S := by
  rw [root_new] at h
  obtain ⟨b, -, rfl⟩ := List.mem_map.1 (Frame.mem_ofBindings h)
  exact trivial

/-- What an evaluation comes to is made of symbols that were there. -/
theorem evalForm_within {S : Set Symbol} {i : Interpreter}
    (hroot : ∀ binding ∈ i.root, binding.2.Within S) {limit : Nat} {form v : Value}
    (hform : form.Within S) (h : (i.evalForm limit form).2 = .ok v) : v.Within S := by
  have hagree : i.env.AgreeOn S i.env := by
    refine ⟨fun _ _ => rfl, ?_⟩
    intro s _ u hu
    obtain ⟨frame, hframe, hget⟩ := List.exists_of_findSome?_eq_some hu
    rw [List.mem_singleton.1 hframe] at hget
    exact hroot _ (Frame.mem_of_get?_eq_some hget)
  have hgood := (evaluate_coincides i.basis limit i.env i.env form hagree hform).good
  cases hres : (evaluate i.basis limit i.env form).result with
  | ok v' =>
    simp only [evalForm, hres] at h
    cases h
    exact hgood v hres
  | error stop =>
    cases stop with
    | tooDeep =>
      simp only [evalForm, hres] at h
      cases h
      exact trivial
    | violation violation =>
      simp only [evalForm, hres] at h
      cases h

end Interpreter

/-! ## Workspaces -/

/-- A symbol table, the interpreters and readers that intern into it, and the forms read and values
computed so far. -/
structure Workspace where
  symbols : SymbolTable
  interpreters : List Interpreter
  readers : List Reader
  values : List Value

/-- The two ways to read. -/
inductive Reading where
  /-- One top-level form. -/
  | form
  /-- One form or one closing parenthesis. -/
  | item

/-- Reads in one of the two ways. -/
def Reader.readBy (limit : Nat) (r : Reader) : Reading → Except ReadError Item × Reader
  | .form => ((r.read limit).1.map .form, (r.read limit).2)
  | .item => r.readOne limit

/-- The form that a reading has given, if it has. -/
def Reader.formOf : Except ReadError Item → List Value
  | .ok (.form v) => [v]
  | _ => []

/-- However a reading ends, it has taken some tokens and interned their names, and the form that it
has given, if it has, is the meaning of a tree made of such tokens. -/
theorem Reader.readBy_takes (limit : Nat) (r : Reader) (reading : Reading) :
    ∃ tokens, Takes tokens r (r.readBy limit reading).2 ∧
      ∀ v ∈ formOf (r.readBy limit reading).1,
        ∃ t : Tree, v = t.form r.naming ∧ t.tokens ⊆ tokens := by
  cases reading with
  | form =>
    obtain ⟨tokens, htakes, hform⟩ := read_takes limit r
    refine ⟨tokens, htakes, ?_⟩
    simp only [readBy]
    cases hread : (r.read limit).1 with
    | error e => nofun
    | ok v =>
      intro w hw
      obtain rfl := List.mem_singleton.1 hw
      exact hform w hread
  | item =>
    obtain ⟨tokens, htakes, hform⟩ := readOne_takes limit r
    refine ⟨tokens, htakes, ?_⟩
    simp only [readBy]
    intro v hv
    rcases hread : (r.readOne limit).1 with e | w | _ <;> rw [hread] at hv
    · cases hv
    · obtain rfl := List.mem_singleton.1 hv
      obtain ⟨t, hvt, ht⟩ := hform v hread
      exact ⟨t, hvt, ht ▸ List.Subset.refl _⟩
    · cases hv

namespace Reader

/-- A reading keeps the symbol that quote marks stand for. -/
theorem quote_readBy (limit : Nat) (r : Reader) (reading : Reading) :
    (r.readBy limit reading).2.quote = r.quote := by
  cases reading with
  | form => exact congrArg Naming.quote (naming_read limit r)
  | item => exact congrArg Naming.quote (naming_readFrom limit [] r)

/-- For a token that was taken, the symbol read is one that the table keeps. -/
theorem Takes.symbolOf_mem {tokens : List Token} {r r' : Reader} (h : Takes tokens r r')
    {token : Token} (htoken : token ∈ tokens) {name : String}
    (hname : token.symbolName? = some name) : r.naming.symbolOf name ∈ r'.symbols.entries := by
  have hmem := SymbolTable.symbolOf_mem (h.mem_names.2 (.inl ⟨token, htoken, hname⟩))
  rwa [h.symbols_eq, SymbolTable.symbolOf_insertAll, ← h.symbols_eq] at hmem

/-- A form that was read has no symbols but those that the table keeps. -/
theorem readBy_within {limit : Nat} {r : Reader} {reading : Reading}
    (hquote : r.quote ∈ (r.readBy limit reading).2.symbols.entries) :
    ∀ v ∈ formOf (r.readBy limit reading).1,
      v.Within {s | s ∈ (r.readBy limit reading).2.symbols.entries} := by
  obtain ⟨tokens, htakes, hforms⟩ := readBy_takes limit r reading
  intro v hv
  obtain ⟨t, rfl, htokens⟩ := hforms v hv
  apply Tree.form_within hquote
  intro token htoken name hname
  exact htakes.symbolOf_mem (htokens htoken) hname

end Reader

namespace Workspace

/-- A symbol table that nobody uses yet. -/
def new (symbols : SymbolTable) : Workspace where
  symbols := symbols
  interpreters := []
  readers := []
  values := []

/-- What can be done in a workspace, or happen meanwhile. -/
inductive Action where
  /-- Opens one more reader. -/
  | openReader (prompts : Prompts) (console : Console)
  /-- Opens one more interpreter. -/
  | openInterpreter (host : Host)
  /-- Reads with the reader of this number. -/
  | read (k : Nat) (reading : Reading)
  /-- Evaluates the form or value of number `j` by the interpreter of number `i`. -/
  | evaluate (i j : Nat)
  /-- Symbols of these names are made elsewhere. -/
  | makeElsewhere (names : List String)

/-- The workspace after a reading with reader `k`, which has left the reader `r`. -/
def keep (w : Workspace) (k : Nat) (result : Except ReadError Item) (r : Reader) : Workspace :=
  { w with
    symbols := r.symbols
    readers := w.readers.set k r
    values := w.values ++ Reader.formOf result }

/-- Takes an action. One that names a reader, an interpreter or a form that is not there does
nothing. -/
def step (limit : Nat) (w : Workspace) : Action → Workspace
  | .openReader prompts console =>
    let r := Reader.new prompts console w.symbols
    { w with symbols := r.symbols, readers := w.readers ++ [r] }
  | .openInterpreter host =>
    let i := Interpreter.new w.symbols host
    { w with symbols := i.symbols, interpreters := w.interpreters ++ [i] }
  | .read k reading =>
    match w.readers[k]? with
    | none => w
    | some r =>
      -- The reader finds the table as the others have left it.
      let (result, r') := { r with symbols := w.symbols }.readBy limit reading
      w.keep k result r'
  | .evaluate i j =>
    match w.interpreters[i]?, w.values[j]? with
    | some interpreter, some form =>
      match (interpreter.evalForm limit form).2 with
      | .error _ => w
      | .ok v => { w with values := w.values ++ [v] }
    | _, _ => w
  | .makeElsewhere names => { w with symbols := w.symbols.makeElsewhere names }

/-- Takes actions one after the other. -/
def run (limit : Nat) (w : Workspace) (actions : List Action) : Workspace :=
  actions.foldl (step limit) w

/-- The names that come with what an action opens. -/
def Action.opening : Action → List String
  | openReader _ _ => ["quote"]
  | openInterpreter _ => Interpreter.coreNames
  | _ => []

/-- The tokens of the console on which an action opens a reader. -/
def Action.tokens? : Action → Option (List Token)
  | openReader _ console => some (console.pending.flatMap LineEvent.tokens)
  | _ => none

/-- The tokens that reader `k` has left, or will have when one of the actions opens it. -/
def supply (w : Workspace) (actions : List Action) (k : Nat) : List Token :=
  (w.readers.map Reader.tokens ++ actions.filterMap Action.tokens?).getD k []

/-- All symbols that are anywhere in the workspace: those for quote marks, those that its
interpreters know, and those in forms and values. -/
def kept (w : Workspace) : List Symbol :=
  w.readers.map (·.quote) ++ w.interpreters.flatMap Interpreter.known ++
    w.values.flatMap Value.symbols

/-! ## What an action does to the table -/

/-- What was done between `w`, with the actions `before` still to take, and `w'`, with `after` still
to take: reader `k` has taken the tokens `consumed k`, and the table has got their names, and those
that came with what was opened. -/
structure Leads (before after : List Action) (consumed : Nat → List Token) (opened : List String)
    (w w' : Workspace) : Prop where
  supply_eq : ∀ k, w.supply before k = consumed k ++ w'.supply after k
  grows : w.symbols.Grows w'.symbols
  mem_names : ∀ name, name ∈ w'.symbols.names ↔
    name ∈ w.symbols.names ∨ name ∈ opened ∨
      ∃ k, ∃ token ∈ consumed k, token.symbolName? = some name

/-- Where the readers have stayed as they were, and the table has got some names on its own, nothing
was taken. -/
theorem leads_of_opened {before after : List Action} {w w' : Workspace} {opened : List String}
    (hsupply : ∀ k, w.supply before k = w'.supply after k) (hgrows : w.symbols.Grows w'.symbols)
    (hnames : ∀ name, name ∈ w'.symbols.names ↔ name ∈ opened ∨ name ∈ w.symbols.names) :
    Leads before after (fun _ => []) opened w w' where
  supply_eq := hsupply
  grows := hgrows
  mem_names name := by simp [hnames, or_comm]

/-- Where readers and table have stayed as they were, nothing was taken and nothing opened. -/
theorem leads_of_same {before after : List Action} {w w' : Workspace}
    (hbefore : before.filterMap Action.tokens? = after.filterMap Action.tokens?)
    (hreaders : w'.readers = w.readers) (hsymbols : w'.symbols = w.symbols) :
    Leads before after (fun _ => []) [] w w' := by
  apply leads_of_opened
  · intro k
    rw [supply, supply, hbefore, hreaders]
  · rw [hsymbols]
    exact SymbolTable.grows_refl _
  · simp [hsymbols]

theorem Leads.trans {before between after : List Action} {consumed consumed' : Nat → List Token}
    {opened opened' : List String} {w w' w'' : Workspace}
    (h : Leads before between consumed opened w w')
    (h' : Leads between after consumed' opened' w' w'') :
    Leads before after (fun k => consumed k ++ consumed' k) (opened ++ opened') w w'' where
  supply_eq k := by rw [h.supply_eq, h'.supply_eq, List.append_assoc]
  grows := h.grows.trans h'.grows
  mem_names name := by
    rw [h'.mem_names, h.mem_names]
    simp only [List.mem_append, or_and_right, exists_or, or_assoc, or_left_comm]

theorem supply_openReader (limit : Nat) (w : Workspace) (prompts : Prompts) (console : Console)
    (actions : List Action) :
    (w.step limit (.openReader prompts console)).supply actions =
      w.supply (.openReader prompts console :: actions) := by
  have htokens : (Reader.new prompts console w.symbols).tokens =
      console.pending.flatMap LineEvent.tokens := by
    show lex [] ++ _ = _
    rw [lex_nil, List.flatMap_def]
    rfl
  funext k
  simp [supply, step, Action.tokens?, htokens]

theorem step_openInterpreter (limit : Nat) (w : Workspace) (host : Host) :
    w.step limit (.openInterpreter host) =
      { w with
        symbols := w.symbols.insertAll Interpreter.coreNames
        interpreters := w.interpreters ++ [.new w.symbols host] } := by
  rw [step, Interpreter.symbols_new]

/-- Where reader `k` has taken tokens, that is all that the supply has lost. -/
theorem supply_keep {w : Workspace} {k : Nat} {r r' : Reader} {tokens : List Token}
    (hk : w.readers[k]? = some r) (htokens : r.tokens = tokens ++ r'.tokens)
    (result : Except ReadError Item) (actions : List Action) (i : Nat) :
    w.supply actions i =
      (if i = k then tokens else []) ++ (w.keep k result r').supply actions i := by
  obtain ⟨hlt, hget⟩ := List.getElem?_eq_some_iff.1 hk
  by_cases hi : i = k
  · subst hi
    simp [supply, keep, List.getD_eq_getElem?_getD, List.getElem?_append, hlt, hget, htokens]
  · simp [supply, keep, List.getD_eq_getElem?_getD, List.getElem?_append, hi, Ne.symm hi]

/-- Evaluating reads nothing and interns nothing; at most there is one more value. -/
theorem step_evaluate (limit : Nat) (w : Workspace) (i j : Nat) :
    w.step limit (.evaluate i j) = w ∨
      ∃ interpreter ∈ w.interpreters, ∃ form ∈ w.values, ∃ v,
        (interpreter.evalForm limit form).2 = .ok v ∧
          w.step limit (.evaluate i j) = { w with values := w.values ++ [v] } := by
  simp only [step]
  split
  · next interpreter form hi hj =>
    split
    · exact .inl rfl
    · next v hv =>
      exact .inr ⟨interpreter, List.mem_of_getElem? hi, form, List.mem_of_getElem? hj, v, hv, rfl⟩
  · exact .inl rfl

/-- However an action ends, readers have taken what they have left no longer, and the table has just
the names that come of it. -/
theorem step_leads (limit : Nat) (w : Workspace) (action : Action) (actions : List Action) :
    ∃ consumed,
      Leads (action :: actions) actions consumed action.opening w (w.step limit action) := by
  cases action with
  | openReader prompts console =>
    refine ⟨_, leads_of_opened ?_ (SymbolTable.grows_insert _ "quote") ?_⟩
    · intro k
      rw [supply_openReader]
    · intro name
      exact SymbolTable.mem_names_insert.trans (by simp [Action.opening])
  | openInterpreter host =>
    rw [step_openInterpreter]
    refine ⟨_, leads_of_opened ?_ (SymbolTable.grows_insertAll _ _) ?_⟩
    · intro k
      rfl
    · intro name
      exact SymbolTable.mem_names_insertAll
  | read k reading =>
    cases hk : w.readers[k]? with
    | none =>
      simp only [step, hk]
      exact ⟨_, leads_of_same rfl rfl rfl⟩
    | some r =>
      obtain ⟨tokens, htakes, -⟩ :=
        Reader.readBy_takes limit { r with symbols := w.symbols } reading
      simp only [step, hk]
      refine ⟨fun i => if i = k then tokens else [], ?_, htakes.grows, ?_⟩
      · exact supply_keep hk htakes.tokens_eq _ actions
      · intro name
        have hmem : (∃ i, ∃ token ∈ (if i = k then tokens else []), token.symbolName? = some name) ↔
            ∃ token ∈ tokens, token.symbolName? = some name := by
          constructor
          · rintro ⟨i, token, htoken, hname⟩
            split at htoken
            · exact ⟨token, htoken, hname⟩
            · cases htoken
          · rintro ⟨token, htoken, hname⟩
            exact ⟨k, token, by rwa [if_pos rfl], hname⟩
        rw [hmem]
        exact htakes.mem_names.trans (by simp [Action.opening, or_comm])
  | evaluate i j =>
    rcases step_evaluate limit w i j with hstep | ⟨_, -, _, -, _, -, hstep⟩ <;> rw [hstep]
    all_goals exact ⟨_, leads_of_same rfl rfl rfl⟩
  | makeElsewhere names =>
    refine ⟨_, leads_of_opened ?_ (w.symbols.grows_makeElsewhere names) ?_⟩
    · intro k
      rfl
    · intro name
      exact (or_iff_right List.not_mem_nil).symm

/-- Whatever is done in a workspace, readers have taken what they have left no longer, and the table
has just the names that come of it. -/
theorem run_leads (limit : Nat) (w : Workspace) (actions : List Action) :
    ∃ consumed, Leads actions [] consumed (actions.flatMap Action.opening) w
      (w.run limit actions) := by
  induction actions generalizing w with
  | nil => exact ⟨_, leads_of_same rfl rfl rfl⟩
  | cons action actions ih =>
    obtain ⟨consumed, hstep⟩ := step_leads limit w action actions
    obtain ⟨consumed', hrun⟩ := ih (w.step limit action)
    exact ⟨_, hstep.trans hrun⟩

/-! ## Symbols that the table keeps -/

/-- All symbols that are anywhere in the workspace are kept by its table. -/
structure Canonical (w : Workspace) : Prop where
  quote_mem : ∀ r ∈ w.readers, r.quote ∈ w.symbols.entries
  known_mem : ∀ i ∈ w.interpreters, ∀ s ∈ i.known, s ∈ w.symbols.entries
  root_within : ∀ i ∈ w.interpreters, ∀ binding ∈ i.root,
    binding.2.Within {s | s ∈ w.symbols.entries}
  values_within : ∀ v ∈ w.values, v.Within {s | s ∈ w.symbols.entries}

theorem new_canonical (symbols : SymbolTable) : (new symbols).Canonical :=
  ⟨nofun, nofun, nofun, nofun⟩

theorem Canonical.mem_entries {w : Workspace} (h : w.Canonical) {s : Symbol} (hs : s ∈ w.kept) :
    s ∈ w.symbols.entries := by
  rcases List.mem_append.1 hs with hs | hs
  · rcases List.mem_append.1 hs with hs | hs
    · obtain ⟨r, hr, rfl⟩ := List.mem_map.1 hs
      exact h.quote_mem r hr
    · obtain ⟨i, hi, hs⟩ := List.mem_flatMap.1 hs
      exact h.known_mem i hi s hs
  · obtain ⟨v, hv, hs⟩ := List.mem_flatMap.1 hs
    exact (h.values_within v hv).symbols s hs

/-- A table that has grown keeps all that it kept. -/
theorem Canonical.grow {w : Workspace} (h : w.Canonical) {table : SymbolTable}
    (hgrows : w.symbols.Grows table) : { w with symbols := table }.Canonical where
  quote_mem r hr := hgrows.suffix.subset (h.quote_mem r hr)
  known_mem i hi s hs := hgrows.suffix.subset (h.known_mem i hi s hs)
  root_within i hi binding hbinding :=
    (h.root_within i hi binding hbinding).mono fun _ hs => hgrows.suffix.subset hs
  values_within v hv := (h.values_within v hv).mono fun _ hs => hgrows.suffix.subset hs

/-- More values are welcome if all their symbols are kept. -/
theorem Canonical.addValues {w : Workspace} (h : w.Canonical) {vs : List Value}
    (hvs : ∀ v ∈ vs, v.Within {s | s ∈ w.symbols.entries}) :
    { w with values := w.values ++ vs }.Canonical where
  quote_mem := h.quote_mem
  known_mem := h.known_mem
  root_within := h.root_within
  values_within v hv := (List.mem_append.1 hv).elim (h.values_within v) (hvs v)

/-- One more interpreter is welcome if all symbols that it knows are kept. -/
theorem Canonical.addInterpreter {w : Workspace} (h : w.Canonical) {i : Interpreter}
    (hknown : ∀ s ∈ i.known, s ∈ w.symbols.entries)
    (hroot : ∀ binding ∈ i.root, binding.2.Within {s | s ∈ w.symbols.entries}) :
    { w with interpreters := w.interpreters ++ [i] }.Canonical where
  quote_mem := h.quote_mem
  known_mem := by
    intro i' hi' s hs
    rcases List.mem_append.1 hi' with hi' | hi'
    · exact h.known_mem i' hi' s hs
    · rw [List.mem_singleton.1 hi'] at hs
      exact hknown s hs
  root_within := by
    intro i' hi' binding hbinding
    rcases List.mem_append.1 hi' with hi' | hi'
    · exact h.root_within i' hi' binding hbinding
    · rw [List.mem_singleton.1 hi'] at hbinding
      exact hroot binding hbinding
  values_within := h.values_within

/-- Other readers are welcome if the symbols for their quote marks are kept. -/
theorem Canonical.setReaders {w : Workspace} (h : w.Canonical) {readers : List Reader}
    (hquote : ∀ r ∈ readers, r ∈ w.readers ∨ r.quote ∈ w.symbols.entries) :
    { w with readers := readers }.Canonical where
  quote_mem r hr := (hquote r hr).elim (h.quote_mem r) id
  known_mem := h.known_mem
  root_within := h.root_within
  values_within := h.values_within

theorem step_canonical (limit : Nat) {w : Workspace} (h : w.Canonical) (action : Action) :
    (w.step limit action).Canonical := by
  cases action with
  | openReader prompts console =>
    apply (h.grow (w.symbols.grows_insert "quote")).setReaders
    intro r hr
    refine (List.mem_append.1 hr).imp_right fun hr => ?_
    rw [List.mem_singleton.1 hr]
    exact w.symbols.symbolOf_mem_insert "quote"
  | openInterpreter host =>
    rw [step_openInterpreter]
    exact (h.grow (w.symbols.grows_insertAll _)).addInterpreter
      (fun _ hs => Interpreter.known_new w.symbols host hs)
      (fun _ hbinding => Interpreter.root_new_within w.symbols host _ hbinding)
  | read k reading =>
    cases hk : w.readers[k]? with
    | none =>
      simp only [step, hk]
      exact h
    | some r =>
      obtain ⟨_, htakes, -⟩ := Reader.readBy_takes limit { r with symbols := w.symbols } reading
      simp only [step, hk]
      have hgrown := h.grow htakes.grows
      have hquote := hgrown.quote_mem r (List.mem_of_getElem? hk)
      apply (hgrown.addValues (Reader.readBy_within hquote)).setReaders
      intro r' hr'
      refine (List.mem_or_eq_of_mem_set hr').imp_right fun hr' => ?_
      rw [hr', Reader.quote_readBy]
      exact hquote
  | evaluate i j =>
    rcases step_evaluate limit w i j with hstep | ⟨interpreter, hi, form, hform, v, hv, hstep⟩
    · rw [hstep]
      exact h
    · rw [hstep]
      apply h.addValues
      intro u hu
      rw [List.mem_singleton.1 hu]
      exact Interpreter.evalForm_within (h.root_within interpreter hi)
        (h.values_within form hform) hv
  | makeElsewhere names => exact h.grow (w.symbols.grows_makeElsewhere names)

theorem run_canonical (limit : Nat) {w : Workspace} (h : w.Canonical) (actions : List Action) :
    (w.run limit actions).Canonical := by
  induction actions generalizing w with
  | nil => exact h
  | cons action actions ih => exact ih (step_canonical limit h action)

/-- **What a symbol table holds.** Let readers and interpreters that share a table be opened and
used in any order, with whatever failures, let what is read be evaluated in between, and let symbols
be made elsewhere. Each reader has taken some of its tokens, `consumed k`, and has the others left;
and then

* the table holds the names that it held, those that came with what was opened (`quote` for a
  reader), and the names of the tokens taken, and no others;
* its size is the number of these names;
* a name that was there has the symbol that it had, and asking for it adds nothing;
* the symbol of a name that was not there is a new one, made by nobody before;
* any symbol in the workspace, be it in a form read or a value computed, is the one that the table
  gives for its name, so that two of them are the same just if their names are. -/
theorem names_of_run (limit : Nat) (symbols : SymbolTable) (earlier later : List Action) :
    let w := (new symbols).run limit earlier
    let w' := w.run limit later
    ∃ consumed : Nat → List Token,
      (∀ k, w.supply later k = consumed k ++ w'.supply [] k) ∧
      let held : Set String :=
        {name | name ∈ w.symbols.names ∨ (∃ action ∈ later, name ∈ action.opening) ∨
          ∃ k, ∃ token ∈ consumed k, token.symbolName? = some name}
      (∀ name, w'.symbols.contains name = true ↔ name ∈ held) ∧
      w'.symbols.size = held.ncard ∧
      (∀ name, w.symbols.contains name = true →
        w'.symbols.intern name = ((w.symbols.intern name).1, w'.symbols)) ∧
      (∀ s ∈ w'.symbols.entries, w.symbols.contains s.name = false → ¬ w.symbols.HasMade s) ∧
      ∀ s ∈ w'.kept, w'.symbols.intern s.name = (s, w'.symbols) ∧
        ∀ s' ∈ w'.kept, (s = s' ↔ s.name = s'.name) := by
  intro w w'
  obtain ⟨consumed, hleads⟩ := run_leads limit w later
  have hcanonical : w'.Canonical :=
    run_canonical limit (run_canonical limit (new_canonical symbols) earlier) later
  have hheld : ∀ name, name ∈ w'.symbols.names ↔
      name ∈ w.symbols.names ∨ (∃ action ∈ later, name ∈ action.opening) ∨
        ∃ k, ∃ token ∈ consumed k, token.symbolName? = some name := by
    intro name
    rw [hleads.mem_names, List.mem_flatMap]
  refine ⟨consumed, hleads.supply_eq, ?_, SymbolTable.size_eq_ncard hheld, ?_, ?_, ?_⟩
  · intro name
    rw [SymbolTable.contains_eq_true_iff]
    exact hheld name
  · intro name hname
    exact hleads.grows.intern_eq (SymbolTable.contains_eq_true_iff.1 hname)
  · intro s hs hname
    apply hleads.grows.not_hasMade s hs
    intro hold
    have hcontains := SymbolTable.contains_eq_true_iff.2 (SymbolTable.mem_names_of_mem hold)
    rw [hname] at hcontains
    cases hcontains
  · intro s hs
    have hmem := hcanonical.mem_entries hs
    refine ⟨SymbolTable.intern_of_mem hmem, ?_⟩
    intro s' hs'
    exact SymbolTable.eq_iff_name_eq hmem (hcanonical.mem_entries hs')

/-- A form that is given up leaves its names, and a name that two readers meet is there once. -/
example :
    ((new ∅).run 9
      [.openReader {} (.ofLines ["(a b ')"]), .openReader {} (.ofLines ["(c a 7"]), .read 1 .item,
        .read 0 .form]).symbols.names = ["b", "a", "c", "quote"] := by
  decide +kernel

/-- Two tables have no symbol in common: on a table that is opened where another one has made its
symbols, no use whatever brings up one of these, although the names may be the same. -/
theorem kept_disjoint (limit : Nat) (symbols : SymbolTable) (actions actions' : List Action) :
    let w := (new symbols).run limit actions
    let w' := (new (.new w.symbols.made)).run limit actions'
    ∀ s ∈ w.kept, s ∉ w'.kept := by
  intro w w' s hs hs'
  have hcanonical : w.Canonical := run_canonical limit (new_canonical symbols) actions
  have hcanonical' : w'.Canonical := run_canonical limit (new_canonical _) actions'
  obtain ⟨_, hleads⟩ := run_leads limit (new (.new w.symbols.made)) actions'
  exact hleads.grows.not_mem_of_new (hcanonical.mem_entries hs) (hcanonical'.mem_entries hs')

end Workspace

end PocketLisp

/-!
# Symbols and symbol tables

A symbol is known by its identity: making a symbol gives one that was not there before, even if
there are others of its name. The symbols of one name are told apart by the order in which they were
made.

A symbol table gives one symbol for a name. The first time that it is asked for a name it makes a
symbol and keeps it, and from then on it answers with the one it has (`SymbolTable.intern`). So the
answer to a name is settled from the start, whatever other names come between
(`SymbolTable.symbolOf_insert`), and a table and another one never answer with the same symbol.
-/

namespace PocketLisp

/-- A symbol: its name, and how many symbols of that name were made before it. -/
structure Symbol where
  name : String
  serial : Nat
  deriving DecidableEq, Repr, Inhabited

/-- The first symbol of a name. -/
def Symbol.first (name : String) : Symbol := ⟨name, 0⟩

/-- The symbols that a table keeps, the last one in front, no two of one name; and the names of all
symbols that have been made so far, by this table or elsewhere. -/
structure SymbolTable where
  entries : List Symbol
  made : List String
  nodup : (entries.map (·.name)).Nodup
  serial_lt : ∀ s ∈ entries, s.serial < made.count s.name

namespace SymbolTable

/-- A table that keeps nothing, where symbols of these names have been made elsewhere. -/
def new (made : List String) : SymbolTable := ⟨[], made, List.nodup_nil, nofun⟩

/-- The table that keeps nothing, where no symbol has been made at all. -/
def empty : SymbolTable := new []

instance : Inhabited SymbolTable := ⟨empty⟩

instance : EmptyCollection SymbolTable := ⟨empty⟩

/-- The names of the symbols that the table keeps. -/
def names (table : SymbolTable) : List String :=
  table.entries.map (·.name)

/-- Whether a name is interned. -/
def contains (table : SymbolTable) (name : String) : Bool :=
  table.names.contains name

/-- How many names are interned. -/
def size (table : SymbolTable) : Nat :=
  table.entries.length

/-- The symbol that the table keeps for a name. -/
def find? (table : SymbolTable) (name : String) : Option Symbol :=
  table.entries.find? (·.name == name)

/-- Whether a symbol has been made, by this table or elsewhere. -/
def HasMade (table : SymbolTable) (s : Symbol) : Prop :=
  s.serial < table.made.count s.name

/-- A symbol of the name that has not been made before. -/
def fresh (table : SymbolTable) (name : String) : Symbol :=
  ⟨name, table.made.count name⟩

theorem find?_eq_none_iff {table : SymbolTable} {name : String} :
    table.find? name = none ↔ name ∉ table.names := by
  simp [find?, names]

/-- The table that has made a symbol of the name and keeps it. -/
def keep (table : SymbolTable) (name : String) (h : table.find? name = none) : SymbolTable where
  entries := table.fresh name :: table.entries
  made := name :: table.made
  nodup := List.nodup_cons.2 ⟨find?_eq_none_iff.1 h, table.nodup⟩
  serial_lt := by
    intro s hs
    rcases List.mem_cons.1 hs with rfl | hs
    · simp [fresh]
    · exact Nat.lt_of_lt_of_le (table.serial_lt s hs) List.count_le_count_cons

/-- The symbol of a name, which is the one that the table keeps, or a new one that it keeps from
then on. -/
def intern (table : SymbolTable) (name : String) : Symbol × SymbolTable :=
  match h : table.find? name with
  | some s => (s, table)
  | none => (table.fresh name, table.keep name h)

/-- The symbol that the table answers to a name. -/
def symbolOf (table : SymbolTable) (name : String) : Symbol := (table.intern name).1

/-- The table after interning a name. -/
def insert (table : SymbolTable) (name : String) : SymbolTable := (table.intern name).2

/-- The table after interning a list of names in order. -/
def insertAll (table : SymbolTable) (names : List String) : SymbolTable :=
  names.foldl insert table

/-- The table after symbols of these names have been made elsewhere. -/
def makeElsewhere (table : SymbolTable) (names : List String) : SymbolTable where
  entries := table.entries
  made := names ++ table.made
  nodup := table.nodup
  serial_lt s hs := by
    rw [List.count_append]
    exact Nat.lt_of_lt_of_le (table.serial_lt s hs) (Nat.le_add_left _ _)

/-! ## What the table has and what it has not -/

theorem intern_of_some {table : SymbolTable} {name : String} {s : Symbol}
    (h : table.find? name = some s) : table.intern name = (s, table) := by
  unfold intern
  split <;> simp_all

theorem intern_of_none {table : SymbolTable} {name : String} (h : table.find? name = none) :
    table.intern name = (table.fresh name, table.keep name h) := by
  unfold intern
  split
  · simp_all
  · rfl

theorem find?_keep (table : SymbolTable) (name other : String) (h : table.find? name = none) :
    (table.keep name h).find? other =
      if other = name then some (table.fresh name) else table.find? other := by
  by_cases hother : other = name
  · simp [find?, keep, fresh, hother]
  · simp [find?, keep, fresh, hother, Ne.symm hother]

theorem find?_insert (table : SymbolTable) (name other : String) :
    (table.insert name).find? other =
      if other = name then some (table.symbolOf name) else table.find? other := by
  rw [insert, symbolOf]
  cases hfind : table.find? name with
  | none => rw [intern_of_none hfind, find?_keep]
  | some s =>
    rw [intern_of_some hfind]
    split
    · next hother => rw [hother, hfind]
    · rfl

theorem name_of_find?_eq_some {table : SymbolTable} {name : String} {s : Symbol}
    (h : table.find? name = some s) : s.name = name := by
  simpa using List.find?_some h

theorem symbolOf_eq (table : SymbolTable) (name : String) :
    table.symbolOf name = (table.find? name).getD (table.fresh name) := by
  rw [symbolOf]
  cases hfind : table.find? name with
  | none => rw [intern_of_none hfind]; rfl
  | some s => rw [intern_of_some hfind]; rfl

/-- The symbol of a name has that name. -/
@[simp] theorem name_symbolOf (table : SymbolTable) (name : String) :
    (table.symbolOf name).name = name := by
  rw [symbolOf_eq]
  cases hfind : table.find? name with
  | none => rfl
  | some s => exact name_of_find?_eq_some hfind

/-- Where no symbol has been made, the first one of a name is the answer to it. -/
@[simp] theorem symbolOf_empty : empty.symbolOf = Symbol.first := by
  funext name
  rw [symbolOf_eq]
  rfl

/-! ## What stays when names are interned -/

/-- The next symbol of a name is settled by the symbols of that name alone. -/
theorem fresh_insert_of_ne (table : SymbolTable) {name other : String} (h : other ≠ name) :
    (table.insert name).fresh other = table.fresh other := by
  rw [insert]
  cases hfind : table.find? name with
  | none => simp [intern_of_none hfind, keep, fresh, Ne.symm h]
  | some s => rw [intern_of_some hfind]

/-- **Stability.** The symbol of a name does not depend on the names interned before it, nor on
whether it was interned itself. -/
@[simp] theorem symbolOf_insert (table : SymbolTable) (name : String) :
    (table.insert name).symbolOf = table.symbolOf := by
  funext other
  rw [symbolOf_eq, find?_insert]
  by_cases hother : other = name
  · rw [if_pos hother, hother]
    rfl
  · rw [if_neg hother, fresh_insert_of_ne table hother, symbolOf_eq]

@[simp] theorem symbolOf_insertAll (table : SymbolTable) (names : List String) :
    (table.insertAll names).symbolOf = table.symbolOf := by
  induction names generalizing table with
  | nil => rfl
  | cons name names ih => exact (ih (table.insert name)).trans (table.symbolOf_insert name)

/-- A name that is interned changes nothing when it comes again. -/
theorem insert_of_mem {table : SymbolTable} {name : String} (h : name ∈ table.names) :
    table.insert name = table := by
  rw [insert]
  cases hfind : table.find? name with
  | none => exact absurd h (find?_eq_none_iff.1 hfind)
  | some s => rw [intern_of_some hfind]

/-! ## The names after interning -/

theorem names_insert_of_not_mem {table : SymbolTable} {name : String} (h : name ∉ table.names) :
    (table.insert name).names = name :: table.names := by
  rw [insert, intern_of_none (find?_eq_none_iff.2 h)]
  rfl

@[simp] theorem mem_names_insert {table : SymbolTable} {name other : String} :
    other ∈ (table.insert name).names ↔ other = name ∨ other ∈ table.names := by
  by_cases h : name ∈ table.names
  · rw [insert_of_mem h]
    exact ⟨Or.inr, fun ho => ho.elim (fun e => e ▸ h) id⟩
  · rw [names_insert_of_not_mem h]
    exact List.mem_cons

theorem contains_eq_true_iff {table : SymbolTable} {name : String} :
    table.contains name = true ↔ name ∈ table.names := by
  simp [contains]

@[simp] theorem insertAll_nil (table : SymbolTable) : table.insertAll [] = table := rfl

theorem insertAll_cons (table : SymbolTable) (name : String) (names : List String) :
    table.insertAll (name :: names) = (table.insert name).insertAll names := rfl

theorem insertAll_append (table : SymbolTable) (names names' : List String) :
    table.insertAll (names ++ names') = (table.insertAll names).insertAll names' :=
  List.foldl_append

theorem mem_names_insertAll {table : SymbolTable} {names : List String} {other : String} :
    other ∈ (table.insertAll names).names ↔ other ∈ names ∨ other ∈ table.names := by
  induction names generalizing table with
  | nil => simp
  | cons name names ih =>
    rw [insertAll_cons, ih, mem_names_insert, List.mem_cons]
    constructor
    · rintro (h | h | h)
      · exact .inl (.inr h)
      · exact .inl (.inl h)
      · exact .inr h
    · rintro ((h | h) | h)
      · exact .inr (.inl h)
      · exact .inl h
      · exact .inr (.inr h)

-- Tables that have got names one by one are compared by lemmas, never by working the names off.
attribute [irreducible] insertAll

end SymbolTable

end PocketLisp

import PocketLisp.Proofs.Reader.TokenLines

/-!
# Other symbols for the same names

Reading puts a symbol where a name stands, and never looks at it again. Readers that have the same
tokens and give other symbols to the names therefore come to the same, but for the symbols
(`Form.run_rename`): the same lists and quotations of the same integers, and the same failures with
the same tokens left.
-/

namespace PocketLisp

/-- The value with another symbol in the place of each. -/
def Value.rename (f : Symbol → Symbol) : Value → Value
  | symbol s => symbol (f s)
  | pair first rest => pair (first.rename f) (rest.rename f)
  | closure params body => closure (params.map f) (body.rename f)
  | v => v

/-- The naming with another symbol in the place of each. -/
def Naming.rename (f : Symbol → Symbol) (naming : Naming) : Naming where
  symbolOf name := f (naming.symbolOf name)
  quote := f naming.quote

/-- The item with another symbol in the place of each. -/
def Item.rename (f : Symbol → Symbol) : Item → Item
  | form v => form (v.rename f)
  | close => close

/-- The opener with another symbol in the place of each. -/
def Opener.rename (f : Symbol → Symbol) : Opener → Opener
  | list items => list (items.map (Value.rename f))
  | quote => quote

/-- The progress with another symbol in the place of each. -/
def Progress.rename (f : Symbol → Symbol) : Progress → Progress
  | more openers => more (openers.map (Opener.rename f))
  | done item => done (item.rename f)
  | unexpectedClose => unexpectedClose
  | tooDeep => tooDeep

@[simp] theorem Value.rename_id (v : Value) : v.rename id = v := by
  induction v with
  | pair first rest ihfirst ihrest => rw [rename, ihfirst, ihrest]
  | closure params body ih => rw [rename, ih, List.map_id]
  | _ => rfl

@[simp] theorem Item.rename_id (item : Item) : item.rename id = item := by
  cases item with
  | form v => rw [rename, Value.rename_id]
  | close => rfl

@[simp] theorem Naming.rename_id (naming : Naming) : naming.rename id = naming := rfl

/-- The symbols of one table, renamed by what another one says to their names, are the symbols of
the other. -/
theorem SymbolTable.naming_rename (table table' : SymbolTable) :
    table.naming.rename (fun s => table'.symbolOf s.name) = table'.naming := by
  simp [naming, Naming.rename]

variable (f : Symbol → Symbol)

@[simp] theorem Value.rename_ofList (vs : List Value) :
    (ofList vs).rename f = ofList (vs.map (rename f)) := by
  induction vs with
  | nil => rfl
  | cons v vs ih =>
    show pair (v.rename f) ((ofList vs).rename f) = _
    rw [ih]
    rfl

theorem Progress.outcome_rename (progress : Progress) :
    (progress.rename f).outcome = progress.outcome.map (Item.rename f) := by
  cases progress <;> rfl

namespace Form

variable (naming : Naming) (limit : Nat)

theorem ofAtom_rename (text : String) :
    ofAtom (naming.rename f) text = (ofAtom naming text).rename f := by
  unfold ofAtom
  split <;> rfl

theorem accept_rename (openers : List Opener) (v : Value) :
    accept (naming.rename f) (openers.map (Opener.rename f)) (v.rename f) =
      (accept naming openers v).rename f := by
  induction openers generalizing v with
  | nil => rfl
  | cons opener openers ih =>
    cases opener with
    | list items => rfl
    | quote => exact ih (quote naming v)

theorem push_rename (openers : List Opener) (opener : Opener) :
    push limit (openers.map (Opener.rename f)) (opener.rename f) =
      (push limit openers opener).rename f := by
  unfold push
  rw [List.length_map]
  split <;> rfl

/-- A token does the same to what has been begun, whatever the symbols are. -/
theorem feed_rename (openers : List Opener) (token : Token) :
    feed (naming.rename f) limit (openers.map (Opener.rename f)) token =
      (feed naming limit openers token).rename f := by
  cases token with
  | atom text =>
    rw [feed, ofAtom_rename]
    exact accept_rename f naming openers _
  | lparen => exact push_rename f limit openers (.list [])
  | tick => exact push_rename f limit openers .quote
  | rparen =>
    cases openers with
    | nil => rfl
    | cons opener openers =>
      cases opener with
      | quote => rfl
      | list items =>
        have hlist : Value.ofList (items.map (Value.rename f)).reverse =
            (Value.ofList items.reverse).rename f := by
          rw [Value.rename_ofList, List.map_reverse]
        show accept (naming.rename f) (openers.map (Opener.rename f)) _ = _
        rw [hlist]
        exact accept_rename f naming openers _

theorem run_rename (openers : List Opener) (tokens : List Token) :
    run (naming.rename f) limit (openers.map (Opener.rename f)) tokens =
      ((run naming limit openers tokens).1.rename f, (run naming limit openers tokens).2) := by
  induction tokens generalizing openers with
  | nil => rfl
  | cons token tokens ih =>
    rw [run_cons, run_cons, feed_rename]
    cases feed naming limit openers token with
    | more openers' => exact ih openers'
    | _ => rfl

end Form

end PocketLisp

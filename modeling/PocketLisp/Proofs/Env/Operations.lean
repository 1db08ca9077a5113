import PocketLisp.Env.Store
import PocketLisp.Proofs.Eval.Rules

/-!
# Operations on a store of environments

A store grows by new environments and by extensions of environments that are there, and changes
where names are bound (`Store.Operation`). What an operation gives is said by a function to a new
store or a violation (`Store.attempt`). Where environments are shared it is done in place
(`Store.perform`): an extension puts an empty environment into the store and then binds in it, name
by name, so that a failure comes when some names are bound already.

The two agree on the store and on the violation (`Store.attempt_eq_perform`), and an operation fails
with the first of its names that is no symbol (`Store.perform_fst`). Names are bound in one
environment at a time, so what does not depend on its frame is kept (`Store.bindAll_induction`).
-/

namespace PocketLisp

/-! ## Binding in a frame -/

namespace Frame

/-- A symbol that is bound again keeps its place, and a new one comes last. -/
theorem symbols_set (frame : Frame) (s : Symbol) (v : Value) :
    (frame.set s v).symbols = frame.symbols ++ if s ∈ frame.symbols then [] else [s] := by
  induction frame with
  | nil => rfl
  | cons b frame ih =>
    obtain ⟨t, w⟩ := b
    by_cases ht : t = s
    · simp [set, symbols, ht]
    · have hmem : s ∈ symbols ((t, w) :: frame) ↔ s ∈ symbols frame := by
        simp [symbols, Ne.symm ht]
      rw [set, if_neg ht]
      show t :: symbols (set frame s v) = t :: (symbols frame ++ _)
      simp only [ih, hmem]

/-- The frame with names given as values bound one after the other. -/
def defineAll (frame : Frame) (bindings : List (Value × Value)) : Except Violation Frame :=
  bindings.foldlM (fun frame (name, v) => frame.define name v) frame

theorem ofNames_eq (names values : List Value) :
    ofNames names values = defineAll [] (names.zip values) := rfl

theorem defineAll_symbol (frame : Frame) (s : Symbol) (v : Value)
    (bindings : List (Value × Value)) :
    frame.defineAll ((.symbol s, v) :: bindings) = (frame.set s v).defineAll bindings := rfl

/-- The last one of the bindings of a symbol counts, and without one what the symbol was bound to
before. -/
theorem get?_of_defineAll {bindings : List (Value × Value)} {frame frame' : Frame}
    (h : frame.defineAll bindings = .ok frame') (s : Symbol) :
    frame'.get? s = (bindings.reverse.lookup (.symbol s)).or (frame.get? s) := by
  induction bindings generalizing frame with
  | nil =>
    cases h
    rfl
  | cons b bindings ih =>
    obtain ⟨name, v⟩ := b
    cases name with
    | symbol t =>
      rw [defineAll_symbol] at h
      rw [ih h, List.reverse_cons, List.lookup_append, Option.or_assoc]
      -- What is left is what the first of the bindings does.
      congr 1
      by_cases hs : s = t
      · subst hs
        simp
      · have hne : (Value.symbol s == Value.symbol t) = false := by simp [hs]
        simp [List.lookup_cons, hs, hne]
    | _ => cases h

end Frame

namespace Store

variable {store store' : Store}

/-! ## Cells -/

/-- The environment around environment `i`, if there is one. -/
def outer? (store : Store) (i : Nat) : Option Nat := store.cells[i]?.bind (·.outer)

/-- The store in which environment `i` has the given frame. -/
def withFrame (store : Store) (i : Nat) (frame : Frame) : Store :=
  ⟨store.cells.modify i fun cell => { cell with frame := frame }⟩

theorem exists_cell {k : Nat} (hk : k < store.size) : ∃ cell, store.cells[k]? = some cell :=
  ⟨_, List.getElem?_eq_getElem hk⟩

theorem lt_size_of_outer? {i o : Nat} (h : store.outer? i = some o) : i < store.size := by
  obtain ⟨cell, hcell, -⟩ := Option.bind_eq_some_iff.1 h
  exact (List.getElem?_eq_some_iff.1 hcell).1

section WithFrame

variable (store) (i : Nat) (frame : Frame)

@[simp] theorem size_withFrame : (store.withFrame i frame).size = store.size :=
  List.length_modify ..

theorem cells_withFrame_of_ne {k : Nat} (hk : k ≠ i) :
    (store.withFrame i frame).cells[k]? = store.cells[k]? := by
  simp [withFrame, Ne.symm hk]

@[simp] theorem outer?_withFrame (k : Nat) :
    (store.withFrame i frame).outer? k = store.outer? k := by
  simp only [outer?, withFrame, List.getElem?_modify]
  cases store.cells[k]? with
  | none => rfl
  | some cell =>
    by_cases hk : i = k
    · simp [hk]
    · simp [hk]

theorem frame_withFrame_self (hi : i < store.size) :
    (store.withFrame i frame).frame i = frame := by
  obtain ⟨cell, hcell⟩ := exists_cell hi
  simp [Store.frame, withFrame, hcell]

theorem frame_withFrame_of_ne {k : Nat} (hk : k ≠ i) :
    (store.withFrame i frame).frame k = store.frame k := by
  rw [Store.frame, cells_withFrame_of_ne store i frame hk, Store.frame]

/-- Of two frames given to an environment, the later counts. -/
theorem withFrame_withFrame : (store.withFrame i frame).withFrame i = store.withFrame i := by
  funext frame'
  simp only [withFrame, List.modify_modify_eq]
  rfl

theorem withFrame_frame : store.withFrame i (store.frame i) = store := by
  obtain ⟨cells⟩ := store
  rw [withFrame, mk.injEq]
  apply List.ext_getElem?
  intro k
  by_cases hk : i = k
  · subst hk
    cases hcell : cells[i]? with
    | none => simp [hcell]
    | some cell => simp [Store.frame, hcell]
  · simp [hk]

end WithFrame

section Push

variable (store) (frame : Frame) (outer : Option Nat)

@[simp] theorem size_push : (store.push frame outer).size = store.size + 1 := by
  simp [size, push]

theorem cells_push_of_lt {k : Nat} (hk : k < store.size) :
    (store.push frame outer).cells[k]? = store.cells[k]? :=
  List.getElem?_append_left hk

theorem cells_push_size : (store.push frame outer).cells[store.size]? = some ⟨frame, outer⟩ := by
  simp [push, size]

/-- A frame given to the newest environment is the frame that it could have been made with. -/
theorem withFrame_push (frame' : Frame) :
    (store.push frame outer).withFrame store.size frame' = store.push frame' outer := by
  rw [withFrame, push, push, size, mk.injEq]
  exact List.modifyTailIdx_add _ 0 store.cells [⟨frame, outer⟩]

end Push

/-! ## Operations -/

/-- What can be done to a store. -/
inductive Operation where
  | new (outer : Option Nat)
  | extend (i : Nat) (names values : List Value)
  | define (i : Nat) (name v : Value)

/-- The environments that an operation names are there. -/
def Operation.Within (store : Store) : Operation → Prop
  | .new outer => ∀ o ∈ outer, o < store.size
  | .extend i _ _ => i < store.size
  | .define i _ _ => i < store.size

instance (store : Store) : (op : Operation) → Decidable (op.Within store)
  | .new outer => inferInstanceAs (Decidable (∀ o ∈ outer, o < store.size))
  | .extend i _ _ => inferInstanceAs (Decidable (i < store.size))
  | .define i _ _ => inferInstanceAs (Decidable (i < store.size))

/-- The names that an operation is to bind, with their values. -/
def Operation.bindings : Operation → List (Value × Value)
  | .new _ => []
  | .extend _ names values => names.zip values
  | .define _ name v => [(name, v)]

/-- The first of the names that an operation is to bind that cannot be bound. -/
def Operation.refused? (op : Operation) : Option Value :=
  (op.bindings.map (·.1)).find? (!·.isSymbol)

/-- The store that an operation gives, unless it fails. -/
def attempt (store : Store) : Operation → Except Violation Store
  | .new outer => .ok (store.new outer)
  | .extend i names values => store.extend i names values
  | .define i name v => store.define i name v

/-- Binds names in environment `i`, one after the other, up to the first one that is no symbol. What
is bound before that stays bound. -/
def bindAll (store : Store) (i : Nat) : List (Value × Value) → Except Violation Unit × Store
  | [] => (.ok (), store)
  | (name, v) :: bindings =>
    match store.define i name v with
    | .ok store' => store'.bindAll i bindings
    | .error violation => (.error violation, store)

/-- Does an operation in place. An extension makes its environment first and then binds in it; if
that fails, the environment stays in the store, but nobody is told its number. -/
def perform (store : Store) : Operation → Except Violation Unit × Store
  | .new outer => (.ok (), store.new outer)
  | .extend i names values => (store.new (some i)).bindAll store.size (names.zip values)
  | .define i name v => store.bindAll i [(name, v)]

/-- The stores that come from the empty one by operations on environments that are there, done in
place, whether they succeed or fail. -/
inductive Reachable : Store → Prop where
  | empty : Reachable .empty
  | perform {store : Store} (hstore : Reachable store) (op : Operation) (hop : op.Within store) :
      Reachable (store.perform op).2

/-! ### Binding one name after the other -/

theorem bindAll_symbol (store : Store) (i : Nat) (s : Symbol) (v : Value)
    (bindings : List (Value × Value)) :
    store.bindAll i ((.symbol s, v) :: bindings) =
      (store.withFrame i ((store.frame i).set s v)).bindAll i bindings := rfl

/-- Binding ends well if all names are symbols, and else with the first that is none. -/
theorem bindAll_fst (store : Store) (i : Nat) (bindings : List (Value × Value)) :
    (store.bindAll i bindings).1 =
      match (bindings.map (·.1)).find? (!·.isSymbol) with
      | none => .ok ()
      | some name => .error (.cannotBind name) := by
  induction bindings generalizing store with
  | nil => rfl
  | cons b bindings ih =>
    obtain ⟨name, v⟩ := b
    cases name with
    | symbol s =>
      rw [bindAll_symbol, ih]
      rfl
    | _ => rfl

/-- Binding in place does to the frame what binding in the frame does. -/
theorem map_bindAll {i : Nat} (hi : i < store.size) (bindings : List (Value × Value)) :
    (store.bindAll i bindings).1.map (fun () => (store.bindAll i bindings).2) =
      ((store.frame i).defineAll bindings).map (store.withFrame i) := by
  induction bindings generalizing store with
  | nil => exact congrArg Except.ok (withFrame_frame store i).symm
  | cons b bindings ih =>
    obtain ⟨name, v⟩ := b
    cases name with
    | symbol s =>
      rw [bindAll_symbol, Frame.defineAll_symbol, ih (by rwa [size_withFrame]),
        frame_withFrame_self _ _ _ hi, withFrame_withFrame]
    | _ => rfl

/-- An operation fails if and only if it is to bind something that is no symbol. -/
theorem perform_fst (store : Store) (op : Operation) :
    (store.perform op).1 =
      match op.refused? with
      | none => .ok ()
      | some name => .error (.cannotBind name) := by
  cases op with
  | new outer => rfl
  | extend i names values => exact bindAll_fst _ _ _
  | define i name v => exact bindAll_fst _ _ _

/-- Done in place, an operation gives the same store or fails in the same way. -/
theorem attempt_eq_perform (op : Operation) (hop : op.Within store) :
    store.attempt op = (store.perform op).1.map fun () => (store.perform op).2 := by
  cases op with
  | new outer => rfl
  | extend i names values =>
    have hsize : store.size < (store.new (some i)).size := by simp [new]
    have hempty : (store.new (some i)).frame store.size = [] := by
      rw [new, frame, cells_push_size]
    have hpush : (store.new (some i)).withFrame store.size = (store.push · (some i)) := by
      funext frame
      exact withFrame_push store [] (some i) frame
    rw [perform, map_bindAll hsize, hempty, hpush, attempt, extend, Frame.ofNames_eq]
  | define i name v =>
    rw [perform, map_bindAll hop]
    cases name <;> rfl

/-- What is kept when environment `i` gets another frame is kept when names are bound there, however
that ends. -/
theorem bindAll_induction {P : Store → Prop} {i : Nat}
    (hframe : ∀ store frame, P store → P (store.withFrame i frame)) (h : P store)
    (bindings : List (Value × Value)) : P (store.bindAll i bindings).2 := by
  induction bindings generalizing store with
  | nil => exact h
  | cons b bindings ih =>
    obtain ⟨name, v⟩ := b
    cases name with
    | symbol s =>
      rw [bindAll_symbol]
      exact ih (hframe store _ h)
    | _ => exact h

theorem size_bindAll (store : Store) (i : Nat) (bindings : List (Value × Value)) :
    (store.bindAll i bindings).2.size = store.size :=
  bindAll_induction (P := fun other => other.size = store.size)
    (fun other frame h => by rw [size_withFrame, h]) rfl bindings

theorem cells_bindAll_of_ne (store : Store) {i k : Nat} (hk : k ≠ i)
    (bindings : List (Value × Value)) :
    (store.bindAll i bindings).2.cells[k]? = store.cells[k]? :=
  bindAll_induction (P := fun other => other.cells[k]? = store.cells[k]?)
    (fun other frame h => by rw [cells_withFrame_of_ne other i frame hk, h]) rfl bindings

end Store

end PocketLisp

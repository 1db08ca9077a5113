import PocketLisp.Proofs.Env.Operations

/-!
# Environments that share frames

The laws of scope for every store that comes from the empty one by operations done in place,
whatever of that has failed on the way (`Store.Reachable`).

* **Chains.** The walk outwards from an environment is a relation that follows the links wherever
  they lead (`Store.Path`). In a reachable store links lead to earlier environments only
  (`Store.WellLinked`), so the walk ends, and looking up and counting frames follow it to its end
  (`Store.WellLinked.chain_eq`).
* **Failing** leaves all environments that were there as they were
  (`Store.WellLinked.keptIn_perform`).
* **Binding** a name in one environment is seen from all environments between which and it no frame
  binds that name (`Store.Exposes`), and from nowhere else (`Store.WellLinked.exists_define`).
* **Extending** an environment leaves all others as they are, and the last value given to a name
  counts (`Store.WellLinked.grown_extend`).
-/

namespace PocketLisp

namespace Store

variable {store store' : Store}

/-! ## Chains -/

/-- Walking outwards from environment `i`, one comes by these environments, and the last one has
none around it. -/
inductive Path (store : Store) : Nat → List Nat → Prop where
  | last {i : Nat} (hi : i < store.size) (houter : store.outer? i = none) : Path store i [i]
  | link {i o : Nat} {path : List Nat} (houter : store.outer? i = some o)
      (hpath : Path store o path) : Path store i (i :: path)

/-- Every environment was made after the one around it. -/
def WellLinked (store : Store) : Prop :=
  ∀ i o, store.outer? i = some o → o < i

/-- There is one way outwards. -/
theorem Path.unique {i : Nat} {path path' : List Nat} (h : store.Path i path)
    (h' : store.Path i path') : path' = path := by
  induction h generalizing path' with
  | last _ houter =>
    cases h' with
    | last => rfl
    | link houter' => rw [houter] at houter'; cases houter'
  | link houter _ ih =>
    cases h' with
    | last _ houter' => rw [houter] at houter'; cases houter'
    | link houter' hpath' =>
      rw [houter] at houter'
      cases houter'
      rw [ih hpath']

/-- A walk can be made wherever the links are the same. -/
theorem Path.mono (hsize : store.size ≤ store'.size)
    (houter : ∀ k < store.size, store'.outer? k = store.outer? k) {i : Nat} {path : List Nat}
    (h : store.Path i path) : store'.Path i path := by
  induction h with
  | last hi hnone => exact .last (by omega) (by rw [houter _ hi, hnone])
  | link hsome _ ih => exact .link (by rw [houter _ (lt_size_of_outer? hsome), hsome]) ih

/-- The chain of an environment begins with its own frame, and goes on with the chain of the one
around it. -/
theorem chain_cons (hlinked : store.WellLinked) {i : Nat} (hi : i < store.size) :
    store.chain i = store.frame i :: ((store.outer? i).map store.chain).getD [] := by
  obtain ⟨cell, hcell⟩ := exists_cell hi
  have houter : store.outer? i = cell.outer := by rw [outer?, hcell, Option.bind_some]
  rw [chain, frame, houter]
  simp only [hcell]
  cases ho : cell.outer with
  | none => rfl
  | some o =>
    have hlt : o < i := hlinked i o (by rw [houter, ho])
    simp [hlt]

namespace WellLinked

variable (hlinked : store.WellLinked)
include hlinked

theorem lt_size_of_outer? {i o : Nat} (h : store.outer? i = some o) : o < store.size :=
  Nat.lt_trans (hlinked i o h) (Store.lt_size_of_outer? h)

/-- The walk outwards ends. -/
theorem exists_path {i : Nat} (hi : i < store.size) : ∃ path, store.Path i path := by
  induction i using Nat.strongRecOn with
  | ind i ih =>
    cases houter : store.outer? i with
    | none => exact ⟨[i], .last hi houter⟩
    | some o =>
      obtain ⟨path, hpath⟩ := ih o (hlinked i o houter) (hlinked.lt_size_of_outer? houter)
      exact ⟨i :: path, .link houter hpath⟩

/-- On the walk outwards each environment is earlier than all before it. -/
theorem pairwise_path {i : Nat} {path : List Nat} (h : store.Path i path) :
    path.Pairwise (· > ·) ∧ ∀ k ∈ path, k ≤ i := by
  induction h with
  | last => simp
  | @link i o path houter _ ih =>
    obtain ⟨hpairwise, hle⟩ := ih
    have hlt := hlinked i o houter
    have hbelow : ∀ k ∈ path, k < i := fun k hk => Nat.lt_of_le_of_lt (hle k hk) hlt
    refine ⟨List.pairwise_cons.2 ⟨hbelow, hpairwise⟩, ?_⟩
    intro k hk
    rcases List.mem_cons.1 hk with rfl | hk
    · exact Nat.le_refl k
    · exact Nat.le_of_lt (hbelow k hk)

/-- The chain of an environment is made of the frames that one comes by. -/
theorem chain_eq {i : Nat} {path : List Nat} (h : store.Path i path) :
    store.chain i = path.map store.frame := by
  induction h with
  | last hi houter =>
    rw [chain_cons hlinked hi, houter]
    rfl
  | link houter _ ih =>
    rw [chain_cons hlinked (Store.lt_size_of_outer? houter), houter, List.map_cons, ← ih]
    rfl

theorem depth_eq {i : Nat} {path : List Nat} (h : store.Path i path) :
    store.depth i = path.length := by
  rw [depth, Env.depth, hlinked.chain_eq h, List.length_map]

theorem lookup_eq {i : Nat} {path : List Nat} (h : store.Path i path) (s : Symbol) :
    store.lookup i (.symbol s) = path.findSome? fun k => (store.frame k).get? s := by
  rw [lookup, hlinked.chain_eq h, Env.lookup, List.findSome?_map]
  rfl

/-! ### Every operation links well -/

theorem withFrame (i : Nat) (frame : Frame) : (store.withFrame i frame).WellLinked := by
  intro k o houter
  exact hlinked k o (by rwa [outer?_withFrame] at houter)

theorem bindAll (i : Nat) (bindings : List (Value × Value)) :
    (store.bindAll i bindings).2.WellLinked :=
  bindAll_induction (fun _ frame h => h.withFrame i frame) hlinked bindings

theorem push {outer : Option Nat} (houter : ∀ o ∈ outer, o < store.size) (frame : Frame) :
    (store.push frame outer).WellLinked := by
  intro k o hk
  have hlt := Store.lt_size_of_outer? hk
  rw [size_push] at hlt
  rcases Nat.lt_succ_iff_lt_or_eq.1 hlt with hlt | rfl
  · rw [outer?, cells_push_of_lt _ _ _ hlt] at hk
    exact hlinked k o hk
  · rw [outer?, cells_push_size] at hk
    exact houter o hk

theorem perform {op : Operation} (hop : op.Within store) : (store.perform op).2.WellLinked := by
  cases op with
  | new outer => exact hlinked.push hop []
  | extend i names values =>
    have houter : ∀ o ∈ some i, o < store.size := by
      rintro o ⟨⟩
      exact hop
    exact (hlinked.push houter []).bindAll store.size (names.zip values)
  | define i name v => exact hlinked.bindAll i [(name, v)]

end WellLinked

theorem Reachable.wellLinked (h : store.Reachable) : store.WellLinked := by
  induction h with
  | empty => nofun
  | perform _ op hop ih => exact ih.perform hop

/-! ## Environments that stay as they are -/

/-- Every environment of the store is as it was in another one, however one looks at it. -/
structure KeptIn (store store' : Store) : Prop where
  cells : ∀ k < store.size, store'.cells[k]? = store.cells[k]?
  path : ∀ k < store.size, ∀ path, store'.Path k path ↔ store.Path k path
  lookup : ∀ k < store.size, ∀ name, store'.lookup k name = store.lookup k name
  depth : ∀ k < store.size, store'.depth k = store.depth k

/-- With the cells, everything is kept. -/
theorem WellLinked.keptIn (hlinked : store.WellLinked) (hlinked' : store'.WellLinked)
    (hsize : store.size ≤ store'.size)
    (hcells : ∀ k < store.size, store'.cells[k]? = store.cells[k]?) : store.KeptIn store' := by
  have houter : ∀ k < store.size, store'.outer? k = store.outer? k := by
    intro k hk
    rw [outer?, hcells k hk, outer?]
  have hchain : ∀ k < store.size, store'.chain k = store.chain k := by
    intro k hk
    obtain ⟨path, hpath⟩ := hlinked.exists_path hk
    rw [hlinked.chain_eq hpath, hlinked'.chain_eq (hpath.mono hsize houter), List.map_inj_left]
    intro m hm
    have hm : m < store.size := Nat.lt_of_le_of_lt ((hlinked.pairwise_path hpath).2 m hm) hk
    rw [frame, hcells m hm, frame]
  refine ⟨hcells, ?_, ?_, ?_⟩
  · intro k hk path
    obtain ⟨path₀, hpath₀⟩ := hlinked.exists_path hk
    constructor
    · intro hpath
      rwa [(hpath₀.mono hsize houter).unique hpath]
    · exact fun hpath => hpath.mono hsize houter
  · intro k hk name
    cases name with
    | symbol s => rw [lookup, hchain k hk, lookup]
    | _ => rfl
  · intro k hk
    rw [depth, hchain k hk, depth]

/-- An operation that fails leaves all environments as they were, wherever it has failed. -/
theorem WellLinked.keptIn_perform (hlinked : store.WellLinked) {op : Operation}
    (hop : op.Within store) {violation : Violation}
    (h : (store.perform op).1 = .error violation) : store.KeptIn (store.perform op).2 := by
  cases op with
  | new outer => cases h
  | extend i names values =>
    have hsize : (store.perform (.extend i names values)).2.size = store.size + 1 := by
      rw [Store.perform, size_bindAll, new, size_push]
    refine hlinked.keptIn (hlinked.perform hop) (by omega) ?_
    -- Everything is bound in the new environment, which has a number of its own.
    intro k hk
    rw [Store.perform, cells_bindAll_of_ne _ (Nat.ne_of_lt hk), new, cells_push_of_lt _ _ _ hk]
  | define i name v =>
    have hsame : (store.perform (.define i name v)).2 = store := by
      cases name with
      | symbol s => cases h
      | _ => rfl
    rw [hsame]
    exact hlinked.keptIn hlinked (Nat.le_refl _) fun _ _ => rfl

/-! ## Binding a name -/

/-- What environment `i` binds `name` to can be seen from environment `j`: one comes by `i` on the
walk outwards from `j`, and by no frame before that binds the name. -/
def Exposes (store : Store) (i : Nat) (name : Symbol) (j : Nat) : Prop :=
  ∃ before after, store.Path j (before ++ i :: after) ∧
    ∀ k ∈ before, (store.frame k).get? name = none

/-- How a store is after `name` was bound to `v` in environment `i`. -/
structure Rebound (store : Store) (i : Nat) (name : Symbol) (v : Value) (store' : Store) : Prop
    where
  size : store'.size = store.size
  path : ∀ j path, store'.Path j path ↔ store.Path j path
  depth : ∀ j < store.size, store'.depth j = store.depth j
  lookup_exposed : ∀ j, store.Exposes i name j → store'.lookup j (.symbol name) = some v
  lookup_other : ∀ j < store.size, ∀ s, ¬ (s = name ∧ store.Exposes i name j) →
    store'.lookup j (.symbol s) = store.lookup j (.symbol s)
  frame_other : ∀ k, k ≠ i → store'.frame k = store.frame k
  /-- The symbols of a frame keep their order, and a new one comes last. -/
  symbols : ∀ k, (store'.frame k).symbols =
    (store.frame k).symbols ++ if k = i ∧ name ∉ (store.frame k).symbols then [name] else []

section Rebinding

variable {i : Nat} {name : Symbol} {v : Value} {frame frame' : Nat → Frame}
  (hself : frame' i = (frame i).set name v) (hne : ∀ k, k ≠ i → frame' k = frame k)
include hself hne

theorem findSome?_exposed {before : List Nat} (hbefore : ∀ k ∈ before, (frame k).get? name = none)
    (after : List Nat) :
    (before ++ i :: after).findSome? (fun k => (frame' k).get? name) = some v := by
  induction before with
  | nil => simp [hself]
  | cons k before ih =>
    have ih := ih fun m hm => hbefore m (List.mem_cons_of_mem k hm)
    rw [List.cons_append, List.findSome?_cons]
    by_cases hk : k = i
    · simp [hk, hself]
    · rw [hne k hk, hbefore k List.mem_cons_self]
      exact ih

theorem findSome?_hidden {path : List Nat}
    (hhidden : ¬ ∃ before after, path = before ++ i :: after ∧
      ∀ k ∈ before, (frame k).get? name = none) :
    path.findSome? (fun k => (frame' k).get? name) =
      path.findSome? (fun k => (frame k).get? name) := by
  induction path with
  | nil => rfl
  | cons k path ih =>
    have hk : k ≠ i := by
      rintro rfl
      exact hhidden ⟨[], path, rfl, nofun⟩
    rw [List.findSome?_cons, List.findSome?_cons, hne k hk]
    -- A frame that binds the name settles both sides. One that does not hides nothing.
    cases hget : (frame k).get? name with
    | some w => rfl
    | none =>
      refine ih ?_
      rintro ⟨before, after, rfl, hbefore⟩
      exact hhidden ⟨k :: before, after, rfl, List.forall_mem_cons.2 ⟨hget, hbefore⟩⟩

theorem get?_of_ne {s : Symbol} (hs : s ≠ name) (k : Nat) :
    (frame' k).get? s = (frame k).get? s := by
  by_cases hk : k = i
  · rw [hk, hself, Frame.get?_set_of_ne _ _ hs]
  · rw [hne k hk]

end Rebinding

/-- Only the links and the frames decide how a store looks. -/
theorem WellLinked.rebound_of_frames (hlinked : store.WellLinked) (hlinked' : store'.WellLinked)
    (hsize : store'.size = store.size) (houter : ∀ k, store'.outer? k = store.outer? k) {i : Nat}
    {name : Symbol} {v : Value} (hself : store'.frame i = (store.frame i).set name v)
    (hne : ∀ k, k ≠ i → store'.frame k = store.frame k) : store.Rebound i name v store' := by
  have hpath : ∀ j path, store'.Path j path ↔ store.Path j path := by
    intro j path
    exact ⟨Path.mono (Nat.le_of_eq hsize) fun k _ => (houter k).symm,
      Path.mono (Nat.le_of_eq hsize.symm) fun k _ => houter k⟩
  refine ⟨hsize, hpath, ?_, ?_, ?_, hne, ?_⟩
  · intro j hj
    obtain ⟨path, hj⟩ := hlinked.exists_path hj
    rw [hlinked.depth_eq hj, hlinked'.depth_eq ((hpath j path).2 hj)]
  · rintro j ⟨before, after, hj, hbefore⟩
    rw [hlinked'.lookup_eq ((hpath j _).2 hj)]
    exact findSome?_exposed hself hne hbefore after
  · intro j hj s hother
    obtain ⟨path, hj⟩ := hlinked.exists_path hj
    rw [hlinked.lookup_eq hj, hlinked'.lookup_eq ((hpath j path).2 hj)]
    by_cases hs : s = name
    · subst hs
      apply findSome?_hidden hself hne
      rintro ⟨before, after, rfl, hbefore⟩
      exact hother ⟨rfl, before, after, hj, hbefore⟩
    · simp only [get?_of_ne hself hne hs]
  · intro k
    by_cases hk : k = i
    · rw [hk, hself, Frame.symbols_set]
      by_cases hmem : name ∈ (store.frame i).symbols
      · simp [hmem]
      · simp [hmem]
    · simp [hne k hk, hk]

/-- A symbol can always be bound. -/
theorem WellLinked.exists_define (hlinked : store.WellLinked) {i : Nat} (hi : i < store.size)
    (name : Symbol) (v : Value) :
    ∃ store', store.define i (.symbol name) v = .ok store' ∧ store.Rebound i name v store' := by
  refine ⟨store.withFrame i ((store.frame i).set name v), rfl, ?_⟩
  exact hlinked.rebound_of_frames (hlinked.withFrame i _) (size_withFrame store i _)
    (outer?_withFrame store i _) (frame_withFrame_self store i _ hi)
    fun k hk => frame_withFrame_of_ne store i _ hk

/-! ## Extending -/

/-- How a store is after environment `i` was extended by bindings: there is one environment more. -/
structure Grown (store : Store) (i : Nat) (bindings : List (Value × Value)) (store' : Store) : Prop
    where
  size : store'.size = store.size + 1
  kept : store.KeptIn store'
  path : ∀ path, store.Path i path → store'.Path store.size (store.size :: path)
  depth : store'.depth store.size = store.depth i + 1
  /-- The last value given to a symbol counts. -/
  lookup : ∀ s, store'.lookup store.size (.symbol s) =
    (bindings.reverse.lookup (.symbol s)).or (store.lookup i (.symbol s))

theorem WellLinked.grown_push (hlinked : store.WellLinked) {i : Nat} (hi : i < store.size)
    {bindings : List (Value × Value)} {frame : Frame}
    (hframe : Frame.defineAll [] bindings = .ok frame) :
    store.Grown i bindings (store.push frame (some i)) := by
  have hlinked' : (store.push frame (some i)).WellLinked := by
    refine hlinked.push ?_ frame
    rintro o ⟨⟩
    exact hi
  have hsize := size_push store frame (some i)
  have hkept : store.KeptIn (store.push frame (some i)) :=
    hlinked.keptIn hlinked' (by omega) fun k => cells_push_of_lt store frame (some i)
  have hcell := cells_push_size store frame (some i)
  have houter : (store.push frame (some i)).outer? store.size = some i := by
    rw [outer?, hcell, Option.bind_some]
  have hchain : (store.push frame (some i)).chain store.size =
      frame :: (store.push frame (some i)).chain i := by
    rw [chain_cons hlinked' (by omega), houter, Store.frame, hcell]
    rfl
  refine ⟨hsize, hkept, ?_, ?_, ?_⟩
  · intro path hpath
    exact .link houter ((hkept.path i hi path).2 hpath)
  · rw [← hkept.depth i hi, depth, hchain]
    rfl
  · intro s
    rw [← hkept.lookup i hi, lookup, hchain, Env.lookup_cons, Frame.get?_of_defineAll hframe]
    simp [Frame.get?, lookup]

theorem WellLinked.grown_extend (hlinked : store.WellLinked) {i : Nat} (hi : i < store.size)
    {names values : List Value} (h : store.extend i names values = .ok store') :
    store.Grown i (names.zip values) store' := by
  rw [extend, Frame.ofNames_eq] at h
  cases hframe : Frame.defineAll [] (names.zip values) with
  | error violation =>
    rw [hframe] at h
    cases h
  | ok frame =>
    rw [hframe] at h
    cases h
    exact hlinked.grown_push hi hframe

/-! ## The laws together -/

/-- In a reachable store:

* the walk outwards from an environment is finite, leads to ever earlier environments, and is what
  looking up and counting frames go by;
* binding a symbol succeeds, is seen where it is exposed, and changes nothing else;
* extending an environment makes one more and leaves the others alone;
* an operation does in place what it is said to give, fails if and only if it is to bind something
  that is no symbol, with the first such name, and if it fails it leaves all environments as they
  were. -/
theorem Reachable.scoping (h : store.Reachable) :
    (∀ i < store.size, ∃ path, (∀ path', store.Path i path' ↔ path' = path) ∧
      path.Pairwise (· > ·) ∧ store.depth i = path.length ∧
      ∀ s, store.lookup i (.symbol s) = path.findSome? fun k => (store.frame k).get? s) ∧
    (∀ i < store.size, ∀ name v, ∃ store',
      store.define i (.symbol name) v = .ok store' ∧ store.Rebound i name v store') ∧
    (∀ i < store.size, ∀ names values store',
      store.extend i names values = .ok store' → store.Grown i (names.zip values) store') ∧
    ∀ op, Operation.Within store op →
      store.attempt op = (store.perform op).1.map (fun () => (store.perform op).2) ∧
      ((store.perform op).1 = match op.refused? with
        | none => .ok ()
        | some name => .error (.cannotBind name)) ∧
      ∀ violation, (store.perform op).1 = .error violation →
        store.KeptIn (store.perform op).2 := by
  have hlinked := h.wellLinked
  refine ⟨?_, ?_, ?_, ?_⟩
  · intro i hi
    obtain ⟨path, hpath⟩ := hlinked.exists_path hi
    refine ⟨path, ?_, (hlinked.pairwise_path hpath).1, hlinked.depth_eq hpath,
      hlinked.lookup_eq hpath⟩
    intro path'
    exact ⟨hpath.unique, fun heq => heq ▸ hpath⟩
  · exact fun i hi name v => hlinked.exists_define hi name v
  · exact fun i hi names values store' => hlinked.grown_extend hi
  · exact fun op hop => ⟨attempt_eq_perform op hop, perform_fst store op,
      fun violation => hlinked.keptIn_perform hop⟩

/-- A root that binds `x`, an environment in front of it that binds `x` anew, one that does not,
and one in front of the first of these. -/
def shadowedRoot : Store :=
  ⟨[⟨[(.first "x", .int 1)], none⟩, ⟨[(.first "x", .int 2)], some 0⟩,
    ⟨[(.first "y", .int 3)], some 0⟩, ⟨[], some 1⟩]⟩

theorem Reachable.scoping_shadowedRoot :
    shadowedRoot.Reachable ∧
    (∃ store', shadowedRoot.define 0 (.sym "x") (.int 7) = .ok store' ∧
      store'.lookup 2 (.sym "x") = some (.int 7) ∧ store'.lookup 3 (.sym "x") = some (.int 2)) ∧
    shadowedRoot.KeptIn
      (shadowedRoot.perform (.extend 3 [.sym "x", .int 5] [.nil, .nil])).2 := by
  have hreach : shadowedRoot.Reachable :=
    ((((Reachable.empty.perform (.new none) (by decide)).perform
      (.define 0 (.sym "x") (.int 1)) (by decide)).perform
      (.extend 0 [.sym "x", .sym "x"] [.nil, .int 2]) (by decide)).perform
      (.extend 0 [.sym "y"] [.int 3]) (by decide)).perform (.new (some 1)) (by decide)
  obtain ⟨-, hdefine, -, hop⟩ := Reachable.scoping hreach
  refine ⟨hreach, ?_, (hop _ (by decide)).2.2 _ rfl⟩
  obtain ⟨store', hstore', hrebound⟩ := hdefine 0 (by decide) (.first "x") (.int 7)
  refine ⟨store', hstore', ?_, ?_⟩
  · exact hrebound.lookup_exposed 2 ⟨[2], [], .link rfl (.last (by decide) rfl), by decide⟩
  · rw [Value.sym, hrebound.lookup_other 3 (by decide)]
    · decide +kernel
    · rintro ⟨-, before, after, hpath, hbefore⟩
      -- The one way outwards from 3 comes by 1, which binds `x`, before it comes by 0.
      have hway : shadowedRoot.Path 3 [3, 1, 0] := .link rfl (.link rfl (.last (by decide) rfl))
      have hsplit := hway.unique hpath
      have hmem : 1 ∈ before := by
        rcases before with _ | ⟨a, _ | ⟨b, before⟩⟩ <;> simp_all
      exact absurd (hbefore 1 hmem) (by decide)

end Store

end PocketLisp

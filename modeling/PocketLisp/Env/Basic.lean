import PocketLisp.Violation

/-!
# Environments

A frame binds symbols to values and keeps them in the order in which they were first bound. An
environment is a chain of frames, innermost first; a symbol means what the first frame that binds it
says. A call puts one frame in front of the chain that is in force where the call is made, so scope
is dynamic.
-/

namespace PocketLisp

/-- Symbols and their values, in the order of first binding. -/
abbrev Frame := List (Symbol × Value)

namespace Frame

/-- The value of a symbol in this frame. -/
def get? (frame : Frame) (s : Symbol) : Option Value :=
  match frame with
  | [] => none
  | (s', v) :: frame => if s' = s then some v else get? frame s

/-- The frame with a symbol bound to a value. A symbol bound before keeps its place. -/
def set (frame : Frame) (s : Symbol) (v : Value) : Frame :=
  match frame with
  | [] => [(s, v)]
  | (s', v') :: frame => if s' = s then (s', v) :: frame else (s', v') :: set frame s v

/-- The frame that makes the given bindings one after the other, so that the last one of a symbol
counts. -/
def ofBindings (bindings : List (Symbol × Value)) : Frame :=
  bindings.foldl (fun frame (s, v) => frame.set s v) []

/-- The symbols bound in a frame, in the order of first binding. -/
def symbols (frame : Frame) : List Symbol := frame.map (·.1)

/-- Binds a name given as a value, which has to be a symbol. -/
def define (frame : Frame) : (name v : Value) → Except Violation Frame
  | .symbol s, v => .ok (frame.set s v)
  | name, _ => .error (.cannotBind name)

/-- The frame that binds names to values position by position, up to the end of the shorter list. -/
def ofNames (names values : List Value) : Except Violation Frame :=
  (names.zip values).foldlM (fun frame (name, v) => frame.define name v) []

/-- The frame of a session that has not begun: every builtin under the symbol of its name. -/
def builtins (symbolOf : String → Symbol) : Frame :=
  ofBindings (Builtin.all.map fun b => (symbolOf b.name, .native (.builtin b)))

/-! ## Looking up what was bound -/

@[simp] theorem get?_set_self (frame : Frame) (s : Symbol) (v : Value) :
    (frame.set s v).get? s = some v := by
  induction frame with
  | nil => simp [set, get?]
  | cons b frame ih =>
    obtain ⟨s', v'⟩ := b
    by_cases h : s' = s
    · simp [set, get?, h]
    · simpa [set, get?, h] using ih

@[simp] theorem get?_set_of_ne (frame : Frame) {s s' : Symbol} (v : Value) (h : s' ≠ s) :
    (frame.set s v).get? s' = frame.get? s' := by
  induction frame with
  | nil => simp [set, get?, Ne.symm h]
  | cons b frame ih =>
    obtain ⟨t, w⟩ := b
    by_cases ht : t = s
    · subst ht
      simp [set, get?, Ne.symm h]
    · -- The binding in front stays, and either answers or is passed by.
      rw [set, if_neg ht, get?, get?]
      by_cases ht' : t = s'
      · rw [if_pos ht', if_pos ht']
      · rw [if_neg ht', if_neg ht', ih]

/-! ## Where what is bound comes from -/

theorem mem_of_get?_eq_some {frame : Frame} {s : Symbol} {v : Value}
    (h : frame.get? s = some v) : (s, v) ∈ frame := by
  induction frame with
  | nil => cases h
  | cons b frame ih =>
    obtain ⟨s', v'⟩ := b
    rw [get?] at h
    split at h
    · next hs =>
      cases h
      rw [hs]
      exact List.mem_cons_self
    · exact List.mem_cons_of_mem _ (ih h)

theorem mem_set {frame : Frame} {s : Symbol} {v : Value} {b : Symbol × Value}
    (h : b ∈ frame.set s v) : b = (s, v) ∨ b ∈ frame := by
  induction frame with
  | nil => exact .inl (List.mem_singleton.1 h)
  | cons b' frame ih =>
    obtain ⟨s', v'⟩ := b'
    rw [set] at h
    split at h
    · next hs =>
      rcases List.mem_cons.1 h with rfl | h
      · exact .inl (by rw [hs])
      · exact .inr (List.mem_cons_of_mem _ h)
    · rcases List.mem_cons.1 h with rfl | h
      · exact .inr List.mem_cons_self
      · exact (ih h).imp_right (List.mem_cons_of_mem _)

theorem mem_ofBindings {bindings : List (Symbol × Value)} {b : Symbol × Value}
    (h : b ∈ ofBindings bindings) : b ∈ bindings := by
  -- What is in the frame at any point of the fold was put there by a binding.
  have hfold : ∀ frame : Frame, ∀ b ∈ bindings.foldl (fun frame (s, v) => frame.set s v) frame,
      b ∈ frame ∨ b ∈ bindings := by
    clear h
    induction bindings with
    | nil => exact fun frame b hb => .inl hb
    | cons b' bindings ih =>
      intro frame b hb
      rcases ih (frame.set b'.1 b'.2) b hb with hb | hb
      · rcases mem_set hb with rfl | hb
        · exact .inr List.mem_cons_self
        · exact .inl hb
      · exact .inr (List.mem_cons_of_mem _ hb)
  exact (hfold [] b h).resolve_left List.not_mem_nil

end Frame

/-- A chain of frames, innermost first. -/
abbrev Env := List Frame

namespace Env

/-- The value of a symbol in the innermost frame that binds it. -/
def lookup (env : Env) (s : Symbol) : Option Value :=
  env.findSome? (·.get? s)

/-- The environment of a call: one frame that binds the parameters to the arguments. -/
def call (env : Env) (params : List Symbol) (arguments : List Value) : Env :=
  Frame.ofBindings (params.zip arguments) :: env

/-- One more frame, which binds names given as values. -/
def extend (env : Env) (names values : List Value) : Except Violation Env :=
  (Frame.ofNames names values).map (· :: env)

theorem lookup_cons (frame : Frame) (env : Env) (s : Symbol) :
    lookup (frame :: env) s = (frame.get? s).or (env.lookup s) := by
  rw [lookup, List.findSome?_cons]
  cases frame.get? s <;> rfl

/-- In a call, a symbol means one of the arguments or what it means outside. -/
theorem lookup_call {env : Env} {params : List Symbol} {arguments : List Value} {s : Symbol}
    {v : Value} (h : (env.call params arguments).lookup s = some v) :
    v ∈ arguments ∨ env.lookup s = some v := by
  rw [call, lookup_cons, Option.or_eq_some_iff] at h
  rcases h with h | ⟨-, h⟩
  · exact .inl (List.of_mem_zip (Frame.mem_ofBindings (Frame.mem_of_get?_eq_some h))).2
  · exact .inr h

/-- How many frames there are. -/
def depth (env : Env) : Nat := env.length

/-- The description of an environment: the names bound in its innermost frame, and its depth. -/
def describe (env : Env) : String :=
  "<Environment (" ++ Symbol.joinNames (env.headD []).symbols ++ ") depth=" ++
    toString env.depth ++ ">"

end Env

end PocketLisp

import PocketLisp.Value.Basic

/-!
# Parts of values

The parts of a value are the value itself and all that it is made of; the body of a closure counts
as a part of it (`Value.parts`). The depth of a value is counted along `first`, as printing nests
(`Value.firstDepth`): no part is deeper than the whole, and unless there is no depth at all, some
pair is as deep.
-/

namespace PocketLisp.Value

/-- The value itself and all that it is made of, the bodies of closures included. -/
def parts : Value → List Value
  | pair first rest => pair first rest :: (first.parts ++ rest.parts)
  | closure params body => closure params body :: body.parts
  | v => [v]

theorem mem_parts_self (v : Value) : v ∈ v.parts := by
  cases v <;> exact List.mem_cons_self

/-- All parts of the value have the property. -/
def All (P : Value → Prop) (v : Value) : Prop := ∀ p ∈ v.parts, P p

variable {P : Value → Prop}

theorem All.self {v : Value} (h : v.All P) : P v := h v v.mem_parts_self

/-- For a value that is its only part there is nothing else to show. -/
theorem all_of_parts_eq {v : Value} (hparts : v.parts = [v]) (h : P v) : v.All P := by
  intro p hp
  rw [hparts] at hp
  rw [List.mem_singleton.1 hp]
  exact h

theorem All.first {first rest : Value} (h : (pair first rest).All P) : first.All P := by
  intro p hp
  exact h p (List.mem_cons_of_mem _ (List.mem_append_left _ hp))

theorem All.rest {first rest : Value} (h : (pair first rest).All P) : rest.All P := by
  intro p hp
  exact h p (List.mem_cons_of_mem _ (List.mem_append_right _ hp))

theorem All.body {params : List Symbol} {body : Value} (h : (closure params body).All P) :
    body.All P := by
  intro p hp
  exact h p (List.mem_cons_of_mem _ hp)

theorem all_closure {params : List Symbol} {body : Value} (hself : P (closure params body))
    (hbody : body.All P) : (closure params body).All P := by
  intro p hp
  rcases List.mem_cons.1 hp with rfl | hp
  · exact hself
  · exact hbody p hp

/-! ## Depth -/

/-- How often `first` is taken on the way to the deepest part of the value. -/
def firstDepth : Value → Nat
  | pair first rest => max (first.firstDepth + 1) rest.firstDepth
  | closure _ body => body.firstDepth
  | _ => 0

/-- How deep printing the value nests: along `first` only, and not into functions. -/
def printNesting : Value → Nat
  | pair first rest => max (first.printNesting + 1) rest.printNesting
  | _ => 0

theorem printNesting_le_firstDepth (v : Value) : v.printNesting ≤ v.firstDepth := by
  induction v with
  | pair first rest ihfirst ihrest =>
    simp only [printNesting, firstDepth]
    omega
  | _ => exact Nat.zero_le _

theorem firstDepth_le_of_mem_parts {p v : Value} (h : p ∈ v.parts) :
    p.firstDepth ≤ v.firstDepth := by
  induction v with
  | pair first rest ihfirst ihrest =>
    rcases List.mem_cons.1 h with rfl | h
    · exact Nat.le_refl _
    · rw [firstDepth]
      rcases List.mem_append.1 h with h | h
      · have := ihfirst h
        omega
      · have := ihrest h
        omega
  | closure params body ih =>
    rcases List.mem_cons.1 h with rfl | h
    · exact Nat.le_refl _
    · exact ih h
  | _ => exact Nat.le_of_eq (congrArg firstDepth (List.mem_singleton.1 h))

/-- Only pairs have depth, so there is one that is as deep as the whole. -/
theorem exists_pair_of_firstDepth_pos {v : Value} (h : 0 < v.firstDepth) :
    ∃ first rest, pair first rest ∈ v.parts ∧ v.firstDepth ≤ (pair first rest).firstDepth := by
  induction v with
  | pair first rest _ _ => exact ⟨first, rest, mem_parts_self _, Nat.le_refl _⟩
  | closure params body ih =>
    obtain ⟨first, rest, hmem, hle⟩ := ih h
    exact ⟨first, rest, List.mem_cons_of_mem _ hmem, hle⟩
  | _ => exact absurd h (Nat.lt_irrefl 0)

/-- A value whose pairs are all parts of given ones is not deeper than all of these. -/
theorem exists_firstDepth_le {v w : Value} {given : List Value} (hw : w ∈ given)
    (hpairs : ∀ first rest, pair first rest ∈ v.parts →
      ∃ w ∈ given, pair first rest ∈ w.parts) :
    ∃ w ∈ given, v.firstDepth ≤ w.firstDepth := by
  by_cases hdepth : 0 < v.firstDepth
  · obtain ⟨first, rest, hmem, hle⟩ := exists_pair_of_firstDepth_pos hdepth
    obtain ⟨w, hw, hpart⟩ := hpairs first rest hmem
    exact ⟨w, hw, Nat.le_trans hle (firstDepth_le_of_mem_parts hpart)⟩
  · exact ⟨w, hw, by omega⟩

end PocketLisp.Value

import PocketLisp.Proofs.Value.Dotted

/-!
# Foreign objects in values

A foreign object has no text, so a value cannot be printed if printing comes to one. Where something
stands in a value is said by the way to it, which takes one part of a pair after the other
(`Value.at?`); no way leads into a function. Where two ways part, the one that goes on to `first` is
to the left of the one that goes on to `rest`.

* A value is printable just if no way leads to a foreign object (`printable_iff`).
* Otherwise one of these ways is to the left of all others (`exists_leftmost`), and it leads to the
  object at which printing breaks off (`printOnto_of_leftmost`).
* What the bodies of functions hold makes no difference (`printOnto_mapBodies`).
-/

namespace PocketLisp.Value

/-! ## Ways through pairs -/

/-- One of the two parts of a pair. -/
inductive Side where
  | first
  | rest
  deriving DecidableEq, Repr

/-- A way through pairs, from the outside inwards. -/
abbrev Way := List Side

/-- The value to which a way leads, if there are pairs all along. -/
def at? : Value → Way → Option Value
  | v, [] => some v
  | pair first rest, side :: way =>
    match side with
    | .first => first.at? way
    | .rest => rest.at? way
  | _, _ :: _ => none

/-- The first way turns to `first` where the second one turns to `rest`. -/
inductive Way.LeftOf : Way → Way → Prop where
  | parting {way way' : Way} : LeftOf (.first :: way) (.rest :: way')
  | along {side : Side} {way way' : Way} (h : LeftOf way way') :
      LeftOf (side :: way) (side :: way')

/-- A step that two ways have in common does not matter. -/
theorem Way.eq_or_leftOf_cons {side : Side} {way way' : Way} :
    side :: way' = side :: way ∨ LeftOf (side :: way) (side :: way') ↔
      way' = way ∨ LeftOf way way' := by
  constructor
  · rintro (heq | hleft)
    · exact .inl (List.cons.inj heq).2
    · cases hleft with
      | along h => exact .inr h
  · exact Or.imp (congrArg _) .along

/-- The way leads to the foreign object, and it is to the left of all others that lead to one. -/
structure LeftmostForeign (v : Value) (way : Way) (object : Foreign) : Prop where
  stands : v.at? way = some (.foreign object)
  leftOf : ∀ way' object', v.at? way' = some (.foreign object') → way' = way ∨ way.LeftOf way'

theorem printable_iff {v : Value} :
    v.Printable ↔ ∀ way object, v.at? way ≠ some (.foreign object) := by
  induction v with
  | pair first rest ihfirst ihrest =>
    rw [Printable, ihfirst, ihrest]
    constructor
    · rintro ⟨hfirst, hrest⟩ way object
      cases way with
      | nil => exact nofun
      | cons side way =>
        cases side with
        | first => exact hfirst way object
        | rest => exact hrest way object
    · intro h
      exact ⟨fun way => h (.first :: way), fun way => h (.rest :: way)⟩
  | foreign object => exact ⟨False.elim, fun h => h [] object rfl⟩
  | _ =>
    refine ⟨fun _ way object => ?_, fun _ => trivial⟩
    cases way <;> exact nofun

/-! ## The leftmost foreign object -/

section

variable {first rest : Value} {way : Way} {object : Foreign}

/-- Going on to `first`, the way is leftmost just if it is so from there: all that lies in `rest` is
to its right. -/
theorem leftmostForeign_first_iff :
    (pair first rest).LeftmostForeign (.first :: way) object ↔
      first.LeftmostForeign way object := by
  constructor
  · intro h
    refine ⟨h.stands, ?_⟩
    intro way' object' hstands
    exact Way.eq_or_leftOf_cons.1 (h.leftOf (.first :: way') object' hstands)
  · intro h
    refine ⟨h.stands, ?_⟩
    intro way' object' hstands
    cases way' with
    | nil => cases hstands
    | cons side way' =>
      cases side with
      | first => exact Way.eq_or_leftOf_cons.2 (h.leftOf way' object' hstands)
      | rest => exact .inr .parting

/-- Going on to `rest`, the way is leftmost just if it is so from there and there is nothing in
`first`, which would be further left. -/
theorem leftmostForeign_rest_iff :
    (pair first rest).LeftmostForeign (.rest :: way) object ↔
      first.Printable ∧ rest.LeftmostForeign way object := by
  constructor
  · intro h
    refine ⟨printable_iff.2 ?_, h.stands, ?_⟩
    · intro way' object' hstands
      rcases h.leftOf (.first :: way') object' hstands with heq | hleft
      · cases heq
      · cases hleft
    · intro way' object' hstands
      exact Way.eq_or_leftOf_cons.1 (h.leftOf (.rest :: way') object' hstands)
  · rintro ⟨hfirst, h⟩
    refine ⟨h.stands, ?_⟩
    intro way' object' hstands
    cases way' with
    | nil => cases hstands
    | cons side way' =>
      cases side with
      | first => exact absurd hstands (printable_iff.1 hfirst way' object')
      | rest => exact Way.eq_or_leftOf_cons.2 (h.leftOf way' object' hstands)

end

theorem exists_leftmost {v : Value} (h : ¬ v.Printable) :
    ∃ way object, v.LeftmostForeign way object := by
  induction v with
  | pair first rest ihfirst ihrest =>
    by_cases hfirst : first.Printable
    · obtain ⟨way, object, hleftmost⟩ := ihrest fun hrest => h ⟨hfirst, hrest⟩
      exact ⟨_, _, leftmostForeign_rest_iff.2 ⟨hfirst, hleftmost⟩⟩
    · obtain ⟨way, object, hleftmost⟩ := ihfirst hfirst
      exact ⟨_, _, leftmostForeign_first_iff.2 hleftmost⟩
  | foreign object =>
    refine ⟨[], object, rfl, ?_⟩
    intro way' object' hstands
    cases way' with
    | nil => exact .inl rfl
    | cons side way' => cases hstands
  | _ => exact absurd trivial h

/-- Printing takes `first` before `rest`, so it breaks off at the leftmost foreign object, whatever
has been written and however many parentheses are pending. -/
theorem printOnto_of_leftmost {v : Value} {way : Way} {object : Foreign}
    (h : v.LeftmostForeign way object) (closers : Nat) (out : String) :
    v.printOnto closers out = .error (.cannotPrint object.kind) := by
  induction v generalizing way closers out with
  | pair first rest ihfirst ihrest =>
    rw [printOnto]
    cases way with
    | nil => cases h.stands
    | cons side way =>
      cases side with
      | first => rw [ihfirst (leftmostForeign_first_iff.1 h)]
      | rest =>
        obtain ⟨hfirst, hrest⟩ := leftmostForeign_rest_iff.1 h
        rw [printOnto_of_printable hfirst]
        exact ihrest hrest _ _
  | foreign object' =>
    have hstands := h.stands
    cases way with
    | nil =>
      cases hstands
      rfl
    | cons side way => cases hstands
  | _ =>
    have hstands := h.stands
    cases way <;> cases hstands

theorem print_of_leftmost {v : Value} {way : Way} {object : Foreign}
    (h : v.LeftmostForeign way object) : v.print = .error (.cannotPrint object.kind) :=
  printOnto_of_leftmost h 0 ""

/-! ## Functions are not looked into -/

/-- The value with the bodies changed of all functions to which a way leads. -/
def mapBodies (change : Value → Value) : Value → Value
  | pair first rest => pair (first.mapBodies change) (rest.mapBodies change)
  | closure params body => closure params (change body)
  | v => v

theorem printOnto_mapBodies (change : Value → Value) (v : Value) (closers : Nat) (out : String) :
    (v.mapBodies change).printOnto closers out = v.printOnto closers out := by
  induction v generalizing closers out with
  | pair first rest ihfirst ihrest =>
    rw [mapBodies, printOnto, printOnto, ihfirst]
    cases first.printOnto 0 (out ++ "(") with
    | error violation => rfl
    | ok out => exact ihrest _ _
  | _ => rfl

end PocketLisp.Value

import PocketLisp.Proofs.Session.Batch
import PocketLisp.Proofs.Value.Foreign

/-!
# What printing comes to

Printing runs along the `rest` of a pair, counts the parentheses still to be closed, and appends to
the text written so far. Seen from outside it does what a recursion over the value says: it gives
the dotted notation, or it breaks off at the leftmost foreign object (`print_dotted_or_leftmost`).
The text is complete before anything of it is written, so a session that breaks off in printing has
written nothing of the result (`run_of_unprintable`).
-/

namespace PocketLisp

/-- A session ends where the result of a form cannot be printed, and all that was written is what
had been written before the form was read. -/
theorem Session.run_of_unprintable {limit : Nat} {s : Session} {form v : Value}
    {violation : Violation} (hread : (s.reader.read limit).1 = .ok form)
    (hresult : (s.interpreter.evalForm limit form).2 = .ok v)
    (hprint : v.print = .error violation) :
    (s.run limit).1 = .error violation ∧
      (s.run limit).2.reader.console.output = s.reader.console.output := by
  have hbind : (s.interpreter.evalForm limit form).2.bind Value.print = .error violation := by
    rw [hresult]
    exact hprint
  have hturn : s.turn limit = .finished (.error violation)
      { s with reader := s.evaluated limit (s.reader.read limit).2 form } := by
    rw [turn, hread, proceed_of_violation hbind]
  rw [run_of_finished hturn]
  refine ⟨rfl, ?_⟩
  show (s.evaluated limit (s.reader.read limit).2 form).console.output = _
  rw [evaluated, Console.output_recordAll, Interpreter.join_text_evalForm, String.append_empty,
    Reader.output_read]

/-- **Printing is dotted notation.** If no way through pairs leads to a foreign object, the printed
text of a value is its dotted notation. If some do, printing breaks off at the leftmost of them,
where `first` comes before `rest`. Functions are not looked into: with other bodies in their place
the value prints the same, or breaks off the same. And wherever in a session a form comes to a value
that cannot be printed, the session ends with that violation and nothing is written for the form. -/
theorem Value.print_dotted_or_leftmost (v : Value) :
    ((∀ way object, v.at? way ≠ some (.foreign object)) → v.print = .ok v.dotted) ∧
    ((∃ way object, v.at? way = some (.foreign object)) →
      ∃ way object, v.LeftmostForeign way object ∧ v.print = .error (.cannotPrint object.kind)) ∧
    (∀ change, (v.mapBodies change).print = v.print) ∧
    ∀ (limit : Nat) (s : Session) (form : Value) (violation : Violation),
      (s.reader.read limit).1 = .ok form → (s.interpreter.evalForm limit form).2 = .ok v →
      v.print = .error violation →
      (s.run limit).1 = .error violation ∧
        (s.run limit).2.reader.console.output = s.reader.console.output := by
  refine ⟨?_, ?_, ?_, ?_⟩
  · intro h
    exact print_of_printable (printable_iff.2 h)
  · rintro ⟨way, object, hstands⟩
    have hnot : ¬ v.Printable := fun h => printable_iff.1 h way object hstands
    obtain ⟨way, object, hleftmost⟩ := exists_leftmost hnot
    exact ⟨way, object, hleftmost, print_of_leftmost hleftmost⟩
  · intro change
    exact printOnto_mapBodies change v 0 ""
  · intro limit s form violation hread hresult hprint
    exact Session.run_of_unprintable hread hresult hprint

/-- In `((1 . [function]) . ((2 . file) . socket))`, where the function holds another foreign
object, the file is leftmost, and a session that evaluates `x` to this value writes nothing. -/
theorem Value.print_dotted_or_leftmost_two_objects :
    let file : Foreign := ⟨"file", "a"⟩
    let socket : Foreign := ⟨"socket", "b"⟩
    let v : Value := pair (pair (int 1) (closure [] (foreign socket)))
      (pair (pair (int 2) (foreign file)) (foreign socket))
    let i : Interpreter := { Interpreter.new ∅ .none with root := [(.first "x", v)] }
    let s := Session.start i {} (.ofLines ["x 1"])
    v.at? [.rest, .rest] = some (.foreign socket) ∧
    (∃ way object, v.LeftmostForeign way object ∧ v.print = .error (.cannotPrint object.kind)) ∧
    v.print = .error (.cannotPrint "file") ∧
    (s.run 1).1 = .error (.cannotPrint "file") ∧ (s.run 1).2.reader.console.output = "" ∧
    (v.mapBodies fun _ => nil).print = .error (.cannotPrint "file") ∧
    (pair (int 1) (closure [] (foreign socket))).print = .ok "(1 . [function])" := by
  intro file socket v i s
  have hstands : v.at? [.rest, .rest] = some (.foreign socket) := rfl
  have hprint : v.print = .error (.cannotPrint "file") := rfl
  have hform : (s.reader.read 1).1.toOption = some (sym "x") := by decide +kernel
  have hread : (s.reader.read 1).1 = .ok (sym "x") := by
    cases hres : (s.reader.read 1).1 with
    | error e => simp [hres, Except.toOption] at hform
    | ok form => simpa [hres, Except.toOption] using hform
  obtain ⟨-, hleftmost, hbodies, hsession⟩ := print_dotted_or_leftmost v
  have hresult : (s.interpreter.evalForm 1 (sym "x")).2 = .ok v := by with_unfolding_all rfl
  obtain ⟨hviolation, houtput⟩ := hsession 1 s (sym "x") _ hread hresult hprint
  have hfunction : ∀ way object,
      (pair (int 1) (closure [] (foreign socket))).at? way ≠ some (.foreign object) :=
    printable_iff.1 ⟨trivial, trivial⟩
  refine ⟨hstands, hleftmost ⟨_, _, hstands⟩, hprint, hviolation, houtput, ?_, ?_⟩
  · rw [hbodies, hprint]
  · rw [(print_dotted_or_leftmost _).1 hfunction]
    exact congrArg Except.ok (by decide +kernel)

end PocketLisp

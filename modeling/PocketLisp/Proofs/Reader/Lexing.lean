import PocketLisp.Proofs.Reader.TokenLines

/-!
# Tokens at the beginning of a text

What the first characters of a text make of it, with the rest of the text left open: a space makes
nothing (`lex_space_cons`), a delimiter makes a token all by itself (`lex_delimiter_cons`), and a
run of other characters makes one atom as long as the rest does not go on with such a character
(`lex_atom_append`). A text that is put together from these three has the tokens that are put
together in the same way.
-/

namespace PocketLisp

namespace Token

theorem ofDelimiter?_of_isAtomChar {c : Char} (h : isAtomChar c = true) :
    ofDelimiter? c = none ∧ c ≠ ' ' := by
  simpa [isAtomChar] using h

/-- The first character of an atom is neither a delimiter nor a space. -/
theorem next?_cons_of_isAtomChar {c : Char} (h : isAtomChar c = true) (cs : List Char) :
    next? (c :: cs) =
      some (atom (String.ofList (c :: cs.takeWhile isAtomChar)), cs.dropWhile isAtomChar) := by
  obtain ⟨hdelimiter, hspace⟩ := ofDelimiter?_of_isAtomChar h
  have hdrop : (c :: cs).dropWhile (· == ' ') = c :: cs := by simp [hspace]
  simp only [next?, hdrop, hdelimiter]

theorem next?_cons_of_delimiter {c : Char} {token : Token} (h : ofDelimiter? c = some token)
    (cs : List Char) : next? (c :: cs) = some (token, cs) := by
  have hspace : c ≠ ' ' := by
    rintro rfl
    cases h
  have hdrop : (c :: cs).dropWhile (· == ' ') = c :: cs := by simp [hspace]
  simp only [next?, hdrop, h]

/-- The text does not go on with a character of an atom: it ends, or a delimiter or a space is
next. -/
def Breaks (cs : List Char) : Prop := ∀ c, cs.head? = some c → isAtomChar c = false

theorem breaks_nil : Breaks [] := nofun

theorem breaks_cons {c : Char} (h : isAtomChar c = false) (cs : List Char) : Breaks (c :: cs) := by
  intro c' hc'
  cases hc'
  exact h

theorem Breaks.takeWhile_eq {cs : List Char} (h : Breaks cs) : cs.takeWhile isAtomChar = [] := by
  cases cs with
  | nil => rfl
  | cons c cs => simp [h c rfl]

theorem Breaks.dropWhile_eq {cs : List Char} (h : Breaks cs) : cs.dropWhile isAtomChar = cs := by
  cases cs with
  | nil => rfl
  | cons c cs => simp [h c rfl]

end Token

open Token

theorem lex_space_cons (cs : List Char) : lex (' ' :: cs) = lex cs := by
  have hnext : next? (' ' :: cs) = next? cs := rfl
  cases h : next? cs with
  | none => rw [lex_of_next?_eq_none h, lex_of_next?_eq_none (hnext.trans h)]
  | some found => rw [lex_of_next?_eq_some h, lex_of_next?_eq_some (hnext.trans h)]

theorem lex_delimiter_cons {c : Char} {token : Token} (h : ofDelimiter? c = some token)
    (cs : List Char) : lex (c :: cs) = token :: lex cs :=
  lex_of_next?_eq_some (next?_cons_of_delimiter h cs)

/-- A run of atom characters is one atom if the rest does not make it longer. -/
theorem lex_atom_append {run rest : List Char} (hne : run ≠ [])
    (hrun : ∀ c ∈ run, isAtomChar c = true) (hrest : Breaks rest) :
    lex (run ++ rest) = .atom (String.ofList run) :: lex rest := by
  cases run with
  | nil => exact absurd rfl hne
  | cons c cs =>
    have hcs : ∀ c ∈ cs, isAtomChar c = true := fun c hc => hrun c (List.mem_cons_of_mem _ hc)
    have hnext := next?_cons_of_isAtomChar (hrun c List.mem_cons_self) (cs ++ rest)
    rw [List.takeWhile_append_of_pos hcs, List.dropWhile_append_of_pos hcs, hrest.takeWhile_eq,
      hrest.dropWhile_eq, List.append_nil] at hnext
    exact lex_of_next?_eq_some hnext

end PocketLisp

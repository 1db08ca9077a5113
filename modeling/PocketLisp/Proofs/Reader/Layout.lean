import PocketLisp.Proofs.Reader.Lexing
import PocketLisp.Text.Lines

/-!
# Where the tokens of a text stand

A text with given tokens is a layout of them: delimiters and atoms one after the other, with any
number of spaces between them, and at least one between two atoms (`Laid`). Lexing finds the tokens
of which a text is a layout, and there are no others (`lex_eq_iff_laid`).

Hence a text can be cut anywhere but inside an atom without a change to its tokens, and there it
cannot (`lex_append_iff`). Each token has its place, with the tokens before it in front and those
after it behind (`exists_place`).

Texts are taken apart as lexing does, by `textInduction`: a space, a delimiter, or an atom up to
where it breaks off.
-/

namespace PocketLisp

open Token

/-! ## Characters -/

namespace Token

theorem isAtomChar_iff {c : Char} :
    isAtomChar c = true ↔ c ∉ ['(', ')', Text.singleQuote, ' '] := by
  have hothers : ['(', ')', Text.singleQuote, ' '].all (!isAtomChar ·) = true := by decide
  constructor
  · intro hatom hmem
    have hnot := List.all_eq_true.1 hothers c hmem
    rw [hatom] at hnot
    cases hnot
  · intro hmem
    simp only [List.mem_cons, List.not_mem_nil, or_false, not_or] at hmem
    obtain ⟨hopen, hclose, htick, hspace⟩ := hmem
    simp [isAtomChar, ofDelimiter?, hopen, hclose, htick, hspace]

/-- The tokens made by a single character. -/
theorem ofDelimiter?_cases {c : Char} {token : Token} (h : ofDelimiter? c = some token) :
    (c = '(' ∧ token = .lparen) ∨ (c = ')' ∧ token = .rparen) ∨
      (c = Text.singleQuote ∧ token = .tick) := by
  unfold ofDelimiter? at h
  split at h
  · next hc => exact .inl ⟨hc, (Option.some.inj h).symm⟩
  · split at h
    · next hc => exact .inr (.inl ⟨hc, (Option.some.inj h).symm⟩)
    · split at h
      · next hc => exact .inr (.inr ⟨hc, (Option.some.inj h).symm⟩)
      · cases h

/-- Such a token is written as that character. -/
theorem text_of_ofDelimiter? {c : Char} {token : Token} (h : ofDelimiter? c = some token) :
    token.text.toList = [c] := by
  rcases ofDelimiter?_cases h with ⟨rfl, rfl⟩ | ⟨rfl, rfl⟩ | ⟨rfl, rfl⟩ <;> rfl

theorem mem_delimiters {c : Char} {token : Token} (h : ofDelimiter? c = some token) :
    c ∈ ['(', ')', Text.singleQuote] := by
  rcases ofDelimiter?_cases h with ⟨rfl, -⟩ | ⟨rfl, -⟩ | ⟨rfl, -⟩ <;> simp

theorem not_isAtomChar_of_ofDelimiter? {c : Char} {token : Token}
    (h : ofDelimiter? c = some token) : isAtomChar c = false := by
  simp [isAtomChar, h]

theorem ne_space_of_ofDelimiter? {c : Char} {token : Token} (h : ofDelimiter? c = some token) :
    c ≠ ' ' := by
  rintro rfl
  cases h

theorem ofDelimiter?_ne_atom (c : Char) (text : String) : ofDelimiter? c ≠ some (.atom text) := by
  intro h
  rcases ofDelimiter?_cases h with ⟨-, h⟩ | ⟨-, h⟩ | ⟨-, h⟩ <;> cases h

theorem breaks_dropWhile (cs : List Char) : Breaks (cs.dropWhile isAtomChar) := by
  intro c hc
  have hnot := List.head?_dropWhile_not isAtomChar cs
  rw [hc] at hnot
  exact hnot

end Token

/-! ## Layouts -/

/-- The text is a layout of the tokens, with `gap` characters between them. There may be any number
of them everywhere but inside an atom, and an atom ends where a gap, a delimiter or the end of the
text comes, so that between two atoms there is at least one. -/
inductive Laid (gap : Char → Prop) : List Token → List Char → Prop where
  | done : Laid gap [] []
  | gap {c : Char} {tokens : List Token} {rest : List Char} (hc : gap c)
      (hrest : Laid gap tokens rest) : Laid gap tokens (c :: rest)
  | delimiter {c : Char} {token : Token} {tokens : List Token} {rest : List Char}
      (hc : ofDelimiter? c = some token) (hrest : Laid gap tokens rest) :
      Laid gap (token :: tokens) (c :: rest)
  | atom {run : List Char} {tokens : List Token} {rest : List Char} (hne : run ≠ [])
      (hrun : ∀ c ∈ run, isAtomChar c = true ∧ ¬ gap c)
      (hends : ∀ c, rest.head? = some c → isAtomChar c = true → gap c)
      (hrest : Laid gap tokens rest) : Laid gap (.atom (String.ofList run) :: tokens) (run ++ rest)

/-- Every text is a layout of some tokens, as long as spaces are gaps. -/
theorem exists_laid (gap : Char → Prop) (hspace : gap ' ') (cs : List Char) :
    ∃ tokens, Laid gap tokens cs := by
  classical
  induction hn : cs.length using Nat.strongRecOn generalizing cs with
  | ind n ih =>
    subst hn
    cases cs with
    | nil => exact ⟨[], .done⟩
    | cons c cs =>
      have hshorter : ∀ rest : List Char, rest.length ≤ cs.length →
          ∃ tokens, Laid gap tokens rest :=
        fun rest hrest => ih rest.length (by rw [List.length_cons]; omega) rest rfl
      by_cases hc : gap c
      · obtain ⟨tokens, hrest⟩ := hshorter cs (Nat.le_refl _)
        exact ⟨tokens, .gap hc hrest⟩
      · cases hdelimiter : ofDelimiter? c with
        | some token =>
          obtain ⟨tokens, hrest⟩ := hshorter cs (Nat.le_refl _)
          exact ⟨token :: tokens, .delimiter hdelimiter hrest⟩
        | none =>
          -- The atom that begins here goes on as far as there are characters for it.
          let inAtom : Char → Bool := fun d => isAtomChar d && !decide (gap d)
          have hin {d : Char} (hd : inAtom d = true) : isAtomChar d = true ∧ ¬ gap d := by
            simpa [inAtom] using hd
          have hsplit : c :: cs = (c :: cs.takeWhile inAtom) ++ cs.dropWhile inAtom := by
            rw [List.cons_append, List.takeWhile_append_dropWhile]
          have hrun : ∀ d ∈ c :: cs.takeWhile inAtom, isAtomChar d = true ∧ ¬ gap d := by
            intro d hd
            rcases List.mem_cons.1 hd with rfl | hd
            · have hne : d ≠ ' ' := fun heq => hc (heq ▸ hspace)
              exact ⟨by simp [isAtomChar, hdelimiter, hne], hc⟩
            · exact hin (List.all_eq_true.1 List.all_takeWhile d hd)
          have hends : ∀ d, (cs.dropWhile inAtom).head? = some d → isAtomChar d = true → gap d := by
            intro d hd hatom
            have hnot := List.head?_dropWhile_not inAtom cs
            rw [hd] at hnot
            simpa [inAtom, hatom] using hnot
          obtain ⟨tokens, hrest⟩ := hshorter _ (List.dropWhile_sublist inAtom).length_le
          rw [hsplit]
          exact ⟨_, .atom (by simp) hrun hends hrest⟩

/-- Behind an atom of a layout with spaces, the text breaks off. -/
theorem breaks_of_ends {rest : List Char}
    (hends : ∀ c, rest.head? = some c → isAtomChar c = true → c = ' ') : Breaks rest := by
  intro c hc
  cases hatom : isAtomChar c with
  | false => rfl
  | true => exact absurd (hends c hc hatom) (ofDelimiter?_of_isAtomChar hatom).2

/-- Induction over a text as lexing goes through it. -/
@[elab_as_elim]
theorem textInduction {P : List Char → Prop} (nil : P [])
    (space : ∀ cs, P cs → P (' ' :: cs))
    (delimiter : ∀ c token cs, ofDelimiter? c = some token → P cs → P (c :: cs))
    (atom : ∀ run rest, run ≠ [] → (∀ c ∈ run, isAtomChar c = true) → Breaks rest → P rest →
      P (run ++ rest))
    (cs : List Char) : P cs := by
  obtain ⟨tokens, h⟩ := exists_laid (· = ' ') rfl cs
  induction h with
  | done => exact nil
  | gap hc _ ih => exact hc ▸ space _ ih
  | delimiter hc _ ih => exact delimiter _ _ _ hc ih
  | atom hne hrun hends _ ih =>
    exact atom _ _ hne (fun c hc => (hrun c hc).1) (breaks_of_ends hends) ih

/-! ## Cutting a text -/

/-- The last character of the text belongs to an atom. -/
def EndsInAtom (cs : List Char) : Prop := ∃ c, cs.getLast? = some c ∧ isAtomChar c = true

/-- The first character of the text belongs to an atom. -/
def BeginsWithAtom (cs : List Char) : Prop := ∃ c, cs.head? = some c ∧ isAtomChar c = true

theorem breaks_of_not_beginsWithAtom {cs : List Char} (h : ¬ BeginsWithAtom cs) : Breaks cs := by
  intro c hc
  cases hatom : isAtomChar c with
  | false => rfl
  | true => exact absurd ⟨c, hc, hatom⟩ h

theorem BeginsWithAtom.exists_run {cs : List Char} (h : BeginsWithAtom cs) :
    ∃ run rest, cs = run ++ rest ∧ run ≠ [] ∧ (∀ c ∈ run, isAtomChar c = true) ∧ Breaks rest := by
  obtain ⟨c, hc, hatom⟩ := h
  refine ⟨cs.takeWhile isAtomChar, cs.dropWhile isAtomChar,
    List.takeWhile_append_dropWhile.symm, ?_,
    fun d hd => List.all_eq_true.1 List.all_takeWhile d hd, breaks_dropWhile cs⟩
  cases cs with
  | nil => cases hc
  | cons d cs =>
    obtain rfl := Option.some.inj hc
    simp [hatom]

theorem BeginsWithAtom.append {cs : List Char} (h : BeginsWithAtom cs) (rest : List Char) :
    BeginsWithAtom (cs ++ rest) := by
  obtain ⟨c, hc, hatom⟩ := h
  exact ⟨c, by rw [List.head?_append, hc]; rfl, hatom⟩

theorem beginsWithAtom_of_run {run : List Char} (hne : run ≠ [])
    (hrun : ∀ c ∈ run, isAtomChar c = true) : BeginsWithAtom run :=
  ⟨run.head hne, List.head?_eq_some_head hne, hrun _ (List.head_mem hne)⟩

theorem endsInAtom_of_run {run : List Char} (hne : run ≠ [])
    (hrun : ∀ c ∈ run, isAtomChar c = true) : EndsInAtom run :=
  ⟨run.getLast hne, List.getLast?_eq_some_getLast hne, hrun _ (List.getLast_mem hne)⟩

theorem not_endsInAtom_delimiter {c : Char} {token : Token} (h : ofDelimiter? c = some token) :
    ¬ EndsInAtom [c] := by
  rintro ⟨d, hd, hatom⟩
  obtain rfl : c = d := Option.some.inj hd
  rw [not_isAtomChar_of_ofDelimiter? h] at hatom
  cases hatom

/-- What a text ends in, it ends in with anything put in front. -/
theorem EndsInAtom.append {cs : List Char} (h : EndsInAtom cs) (front : List Char) :
    EndsInAtom (front ++ cs) := by
  obtain ⟨c, hc, hatom⟩ := h
  exact ⟨c, by rw [List.getLast?_append, hc]; rfl, hatom⟩

/-- What is put in front of a text that is not empty does not change what it ends in. -/
theorem EndsInAtom.of_append (front : List Char) {cs : List Char} (hne : cs ≠ [])
    (h : EndsInAtom (front ++ cs)) : EndsInAtom cs := by
  obtain ⟨c, hc, hatom⟩ := h
  rw [List.getLast?_append, List.getLast?_eq_some_getLast hne] at hc
  exact ⟨c, (List.getLast?_eq_some_getLast hne).trans hc, hatom⟩

/-- Behind a text that does not end in an atom, or before one that does not begin with one, nothing
is joined. -/
theorem lex_append_of_apart {s t : List Char} (h : ¬ (EndsInAtom s ∧ BeginsWithAtom t)) :
    lex (s ++ t) = lex s ++ lex t := by
  induction s using textInduction with
  | nil => rw [lex_nil, List.nil_append, List.nil_append]
  | space cs ih =>
    rw [List.cons_append, lex_space_cons, lex_space_cons]
    exact ih fun hjoined => h ⟨hjoined.1.append [' '], hjoined.2⟩
  | delimiter c token cs hc ih =>
    rw [List.cons_append, lex_delimiter_cons hc, lex_delimiter_cons hc, List.cons_append]
    rw [ih fun hjoined => h ⟨hjoined.1.append [c], hjoined.2⟩]
  | atom run rest hne hrun hrest ih =>
    have hbreaks : Breaks (rest ++ t) := by
      cases rest with
      | nil =>
        have hends : EndsInAtom (run ++ []) := by
          rw [List.append_nil]
          exact endsInAtom_of_run hne hrun
        exact breaks_of_not_beginsWithAtom fun ht => h ⟨hends, ht⟩
      | cons c rest => exact breaks_cons (hrest c rfl) _
    rw [List.append_assoc, lex_atom_append hne hrun hbreaks, lex_atom_append hne hrun hrest,
      List.cons_append, ih fun hjoined => h ⟨hjoined.1.append run, hjoined.2⟩]

/-- Two texts that meet inside an atom have one token less together than each by itself. -/
theorem length_lex_append_of_joined {s t : List Char} (hs : EndsInAtom s)
    (ht : BeginsWithAtom t) :
    (lex (s ++ t)).length + 1 = (lex s).length + (lex t).length := by
  induction s using textInduction with
  | nil =>
    obtain ⟨c, hc, -⟩ := hs
    cases hc
  | space cs ih =>
    have hne : cs ≠ [] := by
      rintro rfl
      obtain ⟨c, hc, hatom⟩ := hs
      cases hc
      cases hatom
    rw [List.cons_append, lex_space_cons, lex_space_cons]
    exact ih (EndsInAtom.of_append [' '] hne hs)
  | delimiter c token cs hc ih =>
    have hne : cs ≠ [] := by
      rintro rfl
      exact not_endsInAtom_delimiter hc hs
    have hrest := ih (EndsInAtom.of_append [c] hne hs)
    rw [List.cons_append, lex_delimiter_cons hc, lex_delimiter_cons hc, List.length_cons,
      List.length_cons]
    omega
  | atom run rest hne hrun hrest ih =>
    cases rest with
    | nil =>
      -- Here the two texts meet, and both runs are one atom.
      obtain ⟨run', rest', rfl, hne', hrun', hrest'⟩ := ht.exists_run
      have hboth : ∀ c ∈ run ++ run', isAtomChar c = true := by
        intro c hc
        rcases List.mem_append.1 hc with hc | hc
        · exact hrun c hc
        · exact hrun' c hc
      rw [List.append_nil, ← List.append_assoc, lex_atom_append (by simp [hne]) hboth hrest',
        lex_atom_append hne' hrun' hrest', ← List.append_nil run,
        lex_atom_append hne hrun breaks_nil, lex_nil]
      simp only [List.length_cons, List.length_nil]
      omega
    | cons c rest =>
      have hlater := ih (EndsInAtom.of_append run (by simp) hs)
      have hbreaks : Breaks (c :: rest ++ t) := breaks_cons (hrest c rfl) _
      rw [List.append_assoc, lex_atom_append hne hrun hbreaks, lex_atom_append hne hrun hrest,
        List.length_cons, List.length_cons]
      omega

theorem lex_append_iff (s t : List Char) :
    lex (s ++ t) = lex s ++ lex t ↔ ¬ (EndsInAtom s ∧ BeginsWithAtom t) := by
  constructor
  · rintro h ⟨hs, ht⟩
    have hlength := length_lex_append_of_joined hs ht
    rw [h, List.length_append] at hlength
    omega
  · exact lex_append_of_apart

/-! ## The tokens of a layout -/

/-- The tokens of a layout are those laid out. -/
theorem Laid.lex_eq {tokens : List Token} {cs : List Char} (h : Laid (· = ' ') tokens cs) :
    lex cs = tokens := by
  induction h with
  | done => exact lex_nil
  | gap hc _ ih => rw [hc, lex_space_cons, ih]
  | delimiter hc _ ih => rw [lex_delimiter_cons hc, ih]
  | atom hne hrun hends _ ih =>
    rw [lex_atom_append hne (fun c hc => (hrun c hc).1) (breaks_of_ends hends), ih]

/-- Lexing finds the tokens of which the text is a layout, and there are no others. -/
theorem lex_eq_iff_laid {tokens : List Token} {cs : List Char} :
    lex cs = tokens ↔ Laid (· = ' ') tokens cs := by
  constructor
  · rintro rfl
    obtain ⟨tokens, h⟩ := exists_laid (· = ' ') rfl cs
    rwa [h.lex_eq]
  · exact Laid.lex_eq

/-! ## The place of a token -/

/-- The piece of text is the token: its delimiter, or for an atom a run of characters that is not
empty. -/
inductive Token.Spells : Token → List Char → Prop where
  | delimiter {c : Char} {token : Token} (hc : ofDelimiter? c = some token) : Spells token [c]
  | atom {run : List Char} (hne : run ≠ []) (hrun : ∀ c ∈ run, isAtomChar c = true) :
      Spells (.atom (String.ofList run)) run

theorem Token.Spells.text_eq {token : Token} {piece : List Char} (h : token.Spells piece) :
    token.text.toList = piece := by
  cases h with
  | delimiter hc => exact text_of_ofDelimiter? hc
  | atom hne hrun => exact String.toList_ofList

theorem lex_eq_nil_iff {cs : List Char} : lex cs = [] ↔ ∀ c ∈ cs, c = ' ' := by
  induction cs using textInduction with
  | nil => simp [lex_nil]
  | space cs ih => simp [lex_space_cons, ih]
  | delimiter c token cs hc ih => simp [lex_delimiter_cons hc, ne_space_of_ofDelimiter? hc]
  | atom run rest hne hrun hrest ih =>
    rw [lex_atom_append hne hrun hrest]
    obtain ⟨c, cs, rfl⟩ := List.exists_cons_of_ne_nil hne
    have hspace := (ofDelimiter?_of_isAtomChar (hrun c List.mem_cons_self)).2
    simp [hspace]

theorem not_endsInAtom_of_blank {cs : List Char} (h : ∀ c ∈ cs, c = ' ') : ¬ EndsInAtom cs := by
  rintro ⟨c, hc, hatom⟩
  rw [h c (List.mem_of_getLast? hc)] at hatom
  cases hatom

/-- The first token of a text stands behind nothing but spaces, and the rest does not make it
longer. -/
theorem exists_first {cs : List Char} {token : Token} {after : List Token}
    (h : lex cs = token :: after) :
    ∃ gap piece post, cs = gap ++ (piece ++ post) ∧ (∀ c ∈ gap, c = ' ') ∧ token.Spells piece ∧
      lex post = after ∧ ¬ (EndsInAtom piece ∧ BeginsWithAtom post) := by
  induction cs using textInduction with
  | nil =>
    rw [lex_nil] at h
    cases h
  | space cs ih =>
    rw [lex_space_cons] at h
    obtain ⟨gap, piece, post, rfl, hgap, hrest⟩ := ih h
    exact ⟨' ' :: gap, piece, post, rfl, List.forall_mem_cons.2 ⟨rfl, hgap⟩, hrest⟩
  | delimiter c token' cs hc _ =>
    rw [lex_delimiter_cons hc] at h
    obtain ⟨rfl, rfl⟩ := List.cons.inj h
    exact ⟨[], [c], cs, rfl, by simp, .delimiter hc, rfl,
      fun hjoined => not_endsInAtom_delimiter hc hjoined.1⟩
  | atom run rest hne hrun hrest _ =>
    rw [lex_atom_append hne hrun hrest] at h
    obtain ⟨rfl, rfl⟩ := List.cons.inj h
    refine ⟨[], run, rest, rfl, by simp, .atom hne hrun, rfl, ?_⟩
    rintro ⟨-, c, hc, hatom⟩
    rw [hrest c hc] at hatom
    cases hatom

theorem Token.Spells.lex_eq {token : Token} {piece : List Char} (h : token.Spells piece) :
    lex piece = [token] := by
  cases h with
  | delimiter hc => rw [lex_delimiter_cons hc, lex_nil]
  | @atom run hne hrun =>
    have hlex := lex_atom_append hne hrun breaks_nil
    rwa [List.append_nil, lex_nil] at hlex

/-- Every token of a text has its place, with the tokens before it in front of that and the tokens
after it behind. -/
theorem exists_place {cs : List Char} {before after : List Token} {token : Token}
    (h : lex cs = before ++ token :: after) :
    ∃ pre piece post, cs = pre ++ (piece ++ post) ∧ lex pre = before ∧ token.Spells piece ∧
      lex post = after ∧ ¬ (EndsInAtom piece ∧ BeginsWithAtom post) := by
  induction before generalizing cs with
  | nil =>
    obtain ⟨gap, piece, post, hcs, hgap, hplace⟩ := exists_first h
    exact ⟨gap, piece, post, hcs, lex_eq_nil_iff.2 hgap, hplace⟩
  | cons first before ih =>
    obtain ⟨gap, front, rest, rfl, hgap, hfront, hrest, hapart⟩ := exists_first h
    obtain ⟨pre, piece, post, rfl, hpre, hplace⟩ := ih hrest
    refine ⟨gap ++ (front ++ pre), piece, post, by simp, ?_, hplace⟩
    -- The pieces in front are as far apart as they were with the rest behind them.
    have hfrontPre : ¬ (EndsInAtom front ∧ BeginsWithAtom pre) := fun hjoined =>
      hapart ⟨hjoined.1, hjoined.2.append _⟩
    rw [lex_append_of_apart fun hjoined => not_endsInAtom_of_blank hgap hjoined.1,
      lex_eq_nil_iff.2 hgap, lex_append_of_apart hfrontPre, hfront.lex_eq, hpre]
    rfl

/-- Between an atom and the next there is nothing but spaces, and at least one. -/
theorem exists_gap {cs : List Char} {before after : List Token} {a b : String}
    (h : lex cs = before ++ .atom a :: .atom b :: after) :
    ∃ pre gap post, cs = pre ++ a.toList ++ gap ++ b.toList ++ post ∧ lex pre = before ∧
      lex post = after ∧ gap ≠ [] ∧ ∀ c ∈ gap, c = ' ' := by
  obtain ⟨pre, piece, rest, rfl, hpre, hpiece, hrest, hapart⟩ := exists_place h
  obtain ⟨gap, piece', post, rfl, hgap, hpiece', hpost, -⟩ := exists_first hrest
  refine ⟨pre, gap, post, ?_, hpre, hpost, ?_, hgap⟩
  · have ha : a.toList = piece := hpiece.text_eq
    have hb : b.toList = piece' := hpiece'.text_eq
    rw [ha, hb]
    simp only [List.append_assoc]
  · rintro rfl
    apply hapart
    cases hpiece with
    | delimiter hc => exact absurd hc (ofDelimiter?_ne_atom _ _)
    | atom hne hrun =>
      cases hpiece' with
      | delimiter hc => exact absurd hc (ofDelimiter?_ne_atom _ _)
      | atom hne' hrun' =>
        exact ⟨endsInAtom_of_run hne hrun, (beginsWithAtom_of_run hne' hrun').append post⟩

/-- The tokens of a text, written one after the other, are the text without its spaces. -/
theorem flatMap_text_lex (cs : List Char) :
    (lex cs).flatMap (fun token => token.text.toList) = cs.filter (· ≠ ' ') := by
  induction cs using textInduction with
  | nil => rw [lex_nil]; rfl
  | space cs ih => simpa [lex_space_cons] using ih
  | delimiter c token cs hc ih =>
    rw [lex_delimiter_cons hc, List.flatMap_cons, text_of_ofDelimiter? hc, ih]
    simp [ne_space_of_ofDelimiter? hc]
  | atom run rest hne hrun hrest ih =>
    have hkeep : run.filter (· ≠ ' ') = run := by
      rw [List.filter_eq_self]
      intro c hc
      exact decide_eq_true (ofDelimiter?_of_isAtomChar (hrun c hc)).2
    rw [lex_atom_append hne hrun hrest, List.flatMap_cons, ih, List.filter_append, hkeep]
    show (String.ofList run).toList ++ _ = _
    rw [String.toList_ofList]

/-- **Lexing, by its places.** Two texts have the tokens of both, one after the other, exactly if
they do not meet inside an atom. A text has the tokens of which it is a layout, and no others: put
one after the other they are the text without its spaces; each of them is a delimiter or a run of
atom characters, and stands in the text behind the tokens before it and in front of those after it;
and between two atoms in a row there are spaces, at least one, and nothing else. All characters but
the delimiters and the space belong to atoms. -/
theorem lex_by_places :
    (∀ s t : List Char, lex (s ++ t) = lex s ++ lex t ↔ ¬ (EndsInAtom s ∧ BeginsWithAtom t)) ∧
    (∀ (s : List Char) (tokens : List Token), lex s = tokens ↔ Laid (· = ' ') tokens s) ∧
    (∀ s : List Char, (lex s).flatMap (fun token => token.text.toList) = s.filter (· ≠ ' ')) ∧
    (∀ (s : List Char) (before : List Token) (token : Token) (after : List Token),
      lex s = before ++ token :: after →
      ∃ pre piece post, s = pre ++ piece ++ post ∧ token.Spells piece ∧
        token.text.toList = piece ∧ lex pre = before ∧ lex post = after) ∧
    (∀ (s : List Char) (before : List Token) (a b : String) (after : List Token),
      lex s = before ++ .atom a :: .atom b :: after →
      ∃ pre gap post, s = pre ++ a.toList ++ gap ++ b.toList ++ post ∧ lex pre = before ∧
        lex post = after ∧ gap ≠ [] ∧ ∀ c ∈ gap, c = ' ') ∧
    ∀ c : Char, isAtomChar c = true ↔ c ∉ ['(', ')', Text.singleQuote, ' '] := by
  refine ⟨lex_append_iff, fun s tokens => lex_eq_iff_laid, flatMap_text_lex, ?_, ?_,
    fun c => isAtomChar_iff⟩
  · intro s before token after h
    obtain ⟨pre, piece, post, hs, hpre, hpiece, hpost, -⟩ := exists_place h
    exact ⟨pre, piece, post, by rw [hs, List.append_assoc], hpiece, hpiece.text_eq, hpre, hpost⟩
  · intro s before a b after h
    exact exists_gap h

/-- In `(a⇥b  c'` the tab belongs to the first atom, the two spaces end it, and another text can
follow the quote mark but not an atom. -/
theorem lex_by_places_tab_and_tick :
    let s := "(a\tb  c'".toList
    lex s = [.lparen] ++ .atom "a\tb" :: .atom "c" :: [.tick] ∧
    (∃ pre gap post, s = pre ++ "a\tb".toList ++ gap ++ "c".toList ++ post ∧
      lex pre = [.lparen] ∧ lex post = [.tick] ∧ gap ≠ [] ∧ ∀ c ∈ gap, c = ' ') ∧
    lex (s ++ ['d']) = lex s ++ lex ['d'] ∧ lex (['c'] ++ ['d']) ≠ lex ['c'] ++ lex ['d'] := by
  intro s
  have hlex : lex s = [.lparen] ++ .atom "a\tb" :: .atom "c" :: [.tick] := by decide +kernel
  obtain ⟨hcut, -, -, -, hgap, -⟩ := lex_by_places
  refine ⟨hlex, hgap s _ _ _ _ hlex, (hcut s ['d']).2 ?_, ?_⟩
  · rintro ⟨⟨c, hc, hatom⟩, -⟩
    have htick : s.getLast? = some Text.singleQuote := by decide +kernel
    rw [htick] at hc
    cases hc
    cases hatom
  · intro hsame
    exact (hcut ['c'] ['d']).1 hsame ⟨⟨'c', rfl, rfl⟩, ⟨'d', rfl, rfl⟩⟩

/-! ## Layouts over several lines -/

/-- What separates the tokens of a program text: spaces, and the ends of lines. -/
def Text.Separates (c : Char) : Prop := c = ' ' ∨ Text.isLineBoundary c = true

open Text

/-- The tokens of the lines of what remains of a program text, where `line` holds the characters of
the current line, last one first. -/
def lineTokens (line cs : List Char) : List Token :=
  (splitLinesFrom line cs).flatMap fun text => lex text.toList

theorem lineTokens_nil (line : List Char) : lineTokens line [] = lex line.reverse := by
  cases line with
  | nil => simp [lineTokens, splitLinesFrom, lex_nil]
  | cons c line => simp [lineTokens, splitLinesFrom]

theorem lineTokens_of_plain {c : Char} (hc : isLineBoundary c = false) (line cs : List Char) :
    lineTokens line (c :: cs) = lineTokens (c :: line) cs := by
  have hreturn : c ≠ '\r' := by
    rintro rfl
    cases hc
  simp [lineTokens, splitLinesFrom, hc, hreturn]

/-- A line boundary ends the current line. With a line feed behind a carriage return it is the same
as if that ended an empty line. -/
theorem lineTokens_of_boundary {c : Char} (hc : isLineBoundary c = true) (line cs : List Char) :
    lineTokens line (c :: cs) = lex line.reverse ++ lineTokens [] cs := by
  have hsingle (line : List Char) {c : Char} (hc : isLineBoundary c = true) (cs : List Char)
      (hpair : ∀ ds, c = '\r' → cs = '\n' :: ds → False) :
      lineTokens line (c :: cs) = lex line.reverse ++ lineTokens [] cs := by
    simp [lineTokens, splitLinesFrom, hc]
  by_cases hpair : c = '\r' ∧ ∃ ds, cs = '\n' :: ds
  · obtain ⟨rfl, ds, rfl⟩ := hpair
    rw [hsingle [] (c := '\n') rfl ds (by simp)]
    simp [lineTokens, splitLinesFrom, lex_nil]
  · exact hsingle line hc cs fun ds hreturn hcs => hpair ⟨hreturn, ds, hcs⟩

/-- What is on the current line joins the first line of the rest, and no other. -/
theorem exists_first_line (cs : List Char) :
    ∃ first more, (∀ line, lineTokens line cs = lex (line.reverse ++ first) ++ more) ∧
      ∀ c, first.head? = some c → cs.head? = some c ∧ isLineBoundary c = false := by
  induction cs with
  | nil => exact ⟨[], [], fun line => by simp [lineTokens_nil], nofun⟩
  | cons c cs ih =>
    cases hc : isLineBoundary c with
    | true =>
      refine ⟨[], lineTokens [] cs, fun line => ?_, nofun⟩
      rw [lineTokens_of_boundary hc, List.append_nil]
    | false =>
      obtain ⟨first, more, hfirst, -⟩ := ih
      refine ⟨c :: first, more, fun line => ?_, fun d hd => ?_⟩
      · rw [lineTokens_of_plain hc, hfirst]
        simp
      · cases hd
        exact ⟨rfl, hc⟩

/-- A piece of one line has its own tokens, if the rest does not make its last one longer. -/
theorem lineTokens_append (piece cs : List Char) (hpiece : ∀ c ∈ piece, isLineBoundary c = false)
    (hapart : EndsInAtom piece → ∀ c, cs.head? = some c → isAtomChar c = true →
      isLineBoundary c = true) :
    lineTokens [] (piece ++ cs) = lex piece ++ lineTokens [] cs := by
  have hline : ∀ line, lineTokens line (piece ++ cs) = lineTokens (piece.reverse ++ line) cs := by
    clear hapart
    induction piece with
    | nil => exact fun line => rfl
    | cons c piece ih =>
      intro line
      have hrest := ih fun d hd => hpiece d (List.mem_cons_of_mem c hd)
      rw [List.cons_append, lineTokens_of_plain (hpiece c List.mem_cons_self), hrest]
      simp
  obtain ⟨first, more, hfirst, hhead⟩ := exists_first_line cs
  have hjoin : ¬ (EndsInAtom piece ∧ BeginsWithAtom first) := by
    rintro ⟨hends, c, hc, hatom⟩
    obtain ⟨hcs, hplain⟩ := hhead c hc
    rw [hapart hends c hcs hatom] at hplain
    cases hplain
  rw [hline, hfirst, hfirst []]
  simp [lex_append_of_apart hjoin]

/-- The tokens of a text laid out over several lines are those laid out. -/
theorem Laid.lineTokens_eq {tokens : List Token} {cs : List Char}
    (h : Laid Text.Separates tokens cs) : lineTokens [] cs = tokens := by
  induction h with
  | done => rw [lineTokens_nil, List.reverse_nil, lex_nil]
  | @gap c tokens rest hc _ ih =>
    rcases hc with rfl | hc
    · have hspace : ¬ EndsInAtom [' '] := not_endsInAtom_of_blank (by simp)
      rw [← List.singleton_append, lineTokens_append [' '] rest (by simp; rfl)
        (fun hends => absurd hends hspace), lex_space_cons, lex_nil, ih, List.nil_append]
    · rw [lineTokens_of_boundary hc, List.reverse_nil, lex_nil, ih, List.nil_append]
  | @delimiter c token tokens rest hc _ ih =>
    have hplain : ∀ d ∈ [c], isLineBoundary d = false := by
      have hall : ['(', ')', singleQuote].all (!isLineBoundary ·) = true := by decide
      intro d hd
      rw [List.mem_singleton.1 hd]
      simpa using List.all_eq_true.1 hall c (mem_delimiters hc)
    rw [← List.singleton_append, lineTokens_append [c] rest hplain
      (fun hends => absurd hends (not_endsInAtom_delimiter hc)), (Spells.delimiter hc).lex_eq, ih,
      List.singleton_append]
  | @atom run tokens rest hne hrun hends _ ih =>
    have hplain : ∀ c ∈ run, isLineBoundary c = false := by
      intro c hc
      exact Bool.eq_false_iff.2 fun hboundary => (hrun c hc).2 (.inr hboundary)
    have hapart : ∀ c, rest.head? = some c → isAtomChar c = true → isLineBoundary c = true := by
      intro c hc hatom
      exact (hends c hc hatom).resolve_left (ofDelimiter?_of_isAtomChar hatom).2
    have hspells : Token.Spells (.atom (String.ofList run)) run :=
      .atom hne fun c hc => (hrun c hc).1
    rw [lineTokens_append run rest hplain fun _ => hapart, hspells.lex_eq, ih,
      List.singleton_append]

/-- The tokens of the lines of a program text are those of which it is a layout. -/
theorem lineTokens_eq_iff_laid {tokens : List Token} {cs : List Char} :
    lineTokens [] cs = tokens ↔ Laid Text.Separates tokens cs := by
  constructor
  · rintro rfl
    obtain ⟨tokens, h⟩ := exists_laid Text.Separates (.inl rfl) cs
    rwa [h.lineTokens_eq]
  · exact Laid.lineTokens_eq

end PocketLisp

import PocketLisp.Proofs.Literal.Digits
import PocketLisp.Proofs.Reader.Grammar
import PocketLisp.Proofs.Reader.Lexing
import PocketLisp.Proofs.Value.Dotted

/-!
# Reading what was printed

The printed text of data can be read again. It does not give the same value: the language has no
dotted pairs to read, so a pair comes back as a list of three with a point in the middle, and the
empty list as the symbol of its text (`Value.reread`). Nothing else changes, and nothing is left
over. Since the change can be undone where no symbol has the name of the empty list's text, the text
of such data tells which value was printed.

The text of a value is the writing of a tree (`Value.tree`). That the two have the same tokens
(`lex_dotted`) is shown with an arbitrary continuation behind the text; it then remains to use what
is known about reading a tree.
-/

namespace PocketLisp

open Token

/-! ## Data -/

/-- A text that is read as the symbol of that name: an atom that is no integer. -/
structure Symbol.IsName (name : String) : Prop where
  nonempty : name ≠ ""
  plain : ∀ c ∈ name.toList, c ∉ ['(', ')', Text.singleQuote, ' ']
  notLiteral : Literal.parse? name = none

/-- Whether a text is a name can be decided, character by character. -/
instance (name : String) : Decidable (Symbol.IsName name) :=
  let isPlain (c : Char) : Bool := c ∉ ['(', ')', Text.singleQuote, ' ']
  decidable_of_iff (name ≠ "" ∧ name.toList.all isPlain = true ∧ Literal.parse? name = none)
    ⟨fun ⟨hne, hplain, hliteral⟩ =>
      ⟨hne, fun c hc => of_decide_eq_true (List.all_eq_true.1 hplain c hc), hliteral⟩,
    fun ⟨hne, hplain, hliteral⟩ =>
      ⟨hne, List.all_eq_true.2 fun c hc => decide_eq_true (hplain c hc), hliteral⟩⟩

theorem Symbol.IsName.isAtomChar {name : String} (h : IsName name) {c : Char}
    (hc : c ∈ name.toList) : isAtomChar c = true := by
  have hplain := h.plain c hc
  simp only [List.mem_cons, List.not_mem_nil, or_false, not_or] at hplain
  obtain ⟨hopen, hclose, htick, hspace⟩ := hplain
  simp [Token.isAtomChar, ofDelimiter?, hopen, hclose, htick, hspace]

namespace Value

/-- Made by pairs, proper lists or not, from the empty list, integers and symbols with names that
read as such. A symbol has to be interned, that is, to be the one that the table has for its
name. -/
def IsData (symbols : SymbolTable) : Value → Prop
  | nil => True
  | int _ => True
  | symbol s => symbols.symbolOf s.name = s ∧ Symbol.IsName s.name
  | pair first rest => first.IsData symbols ∧ rest.IsData symbols
  | _ => False

/-- No symbol in the data has this name. -/
def Avoids (name : String) : Value → Prop
  | symbol s => s.name ≠ name
  | pair first rest => first.Avoids name ∧ rest.Avoids name
  | _ => True

/-- How deep the parentheses of the text nest, where the text outside all of them counts as one. -/
def nesting : Value → Nat
  | pair first rest => max first.nesting rest.nesting + 1
  | _ => 1

/-- What is read from the printed text of data. -/
def reread (symbols : SymbolTable) : Value → Value
  | nil => symbol (symbols.symbolOf "NIL")
  | pair first rest =>
    ofList [first.reread symbols, symbol (symbols.symbolOf "."), rest.reread symbols]
  | v => v

variable {symbols : SymbolTable}

theorem IsData.printable {v : Value} (h : v.IsData symbols) : v.Printable := by
  induction v with
  | pair first rest ihfirst ihrest => exact ⟨ihfirst h.1, ihrest h.2⟩
  | foreign object => exact h.elim
  | _ => exact trivial

/-! ## The tree that is printed -/

/-- The tree whose writing is the text of the data. -/
def tree : Value → Tree
  | pair first rest => .list [first.tree, .atom ".", rest.tree]
  | v => .atom v.dotted

theorem depth_tree (v : Value) : v.tree.depth = v.nesting := by
  induction v with
  | pair first rest ihfirst ihrest =>
    have hfirst := first.tree.depth_pos
    have hrest := rest.tree.depth_pos
    simp only [tree, nesting, Tree.depth, List.map_cons, List.map_nil, List.foldr_cons,
      List.foldr_nil, ← ihfirst, ← ihrest]
    omega
  | _ => simp only [tree, nesting, Tree.depth]

/-- A text that is no integer means the symbol of its name. -/
theorem form_atom_of_not_literal {name : String} (h : Literal.parse? name = none) :
    (Tree.atom name).form symbols.naming = symbol (symbols.symbolOf name) := by
  rw [Tree.form, h]
  rfl

theorem form_tree {v : Value} (h : v.IsData symbols) :
    v.tree.form symbols.naming = v.reread symbols := by
  induction v with
  | nil => exact form_atom_of_not_literal (by decide +kernel)
  | int n =>
    show (Tree.atom (toString n)).form symbols.naming = int n
    rw [Tree.form, Literal.parse?_toString]
  | symbol s =>
    obtain ⟨hinterned, hname⟩ := h
    have hform := @form_atom_of_not_literal symbols s.name hname.notLiteral
    rw [hinterned] at hform
    exact hform
  | pair first rest ihfirst ihrest =>
    have hpoint : (Tree.atom ".").form symbols.naming = symbol (symbols.symbolOf ".") :=
      form_atom_of_not_literal (by decide +kernel)
    simp only [tree, reread, Tree.form, List.map_cons, List.map_nil, ihfirst h.1, ihrest h.2]
    rw [← hpoint, Tree.form]
  | _ => exact h.elim

/-! ## The tokens of the text -/

theorem isAtomChar_of_isDigit {c : Char} (h : c.isDigit = true) : isAtomChar c = true := by
  have hne : ∀ other : Char, other.isDigit = false → c ≠ other := by
    rintro other hother rfl
    rw [h] at hother
    cases hother
  simp [Token.isAtomChar, ofDelimiter?, hne '(' rfl, hne ')' rfl, hne Text.singleQuote rfl,
    hne ' ' rfl]

/-- The text of data that is no pair is a single atom. -/
theorem lex_dotted_atom {text : String} (hne : text ≠ "")
    (htext : ∀ c ∈ text.toList, isAtomChar c = true) {rest : List Char} (hrest : Breaks rest) :
    lex (text.toList ++ rest) = (Tree.atom text).tokens ++ lex rest := by
  have hchars : text.toList ≠ [] := by simpa using hne
  rw [lex_atom_append hchars htext hrest, String.ofList_toList, Tree.tokens]
  rfl

theorem lex_dotted {v : Value} (h : v.IsData symbols) {rest : List Char} (hrest : Breaks rest) :
    lex (v.dotted.toList ++ rest) = v.tree.tokens ++ lex rest := by
  induction v generalizing rest with
  | nil =>
    refine lex_dotted_atom (by decide) ?_ hrest
    exact List.all_eq_true.1 rfl
  | int n =>
    refine lex_dotted_atom ?_ ?_ hrest
    · intro hempty
      have hparse := Literal.parse?_toString n
      rw [show toString n = "" from hempty] at hparse
      cases hparse
    · intro c hc
      rcases Literal.isDigit_or_minus_of_mem_toString hc with hdigit | rfl
      · exact isAtomChar_of_isDigit hdigit
      · rfl
  | symbol s => exact lex_dotted_atom h.2.nonempty (fun c hc => h.2.isAtomChar hc) hrest
  | pair first rest' ihfirst ihrest =>
    -- Each part is followed by a space or by a parenthesis, so neither grows into what is next.
    have htext : (pair first rest').dotted.toList ++ rest = '(' :: (first.dotted.toList ++
        ' ' :: (['.'] ++ ' ' :: (rest'.dotted.toList ++ ')' :: rest))) := by
      simp [dotted]
    have hspace : ∀ cs, Breaks (' ' :: cs) := breaks_cons rfl
    have hpoint : ∀ c ∈ ['.'], isAtomChar c = true := List.all_eq_true.1 rfl
    rw [htext, lex_delimiter_cons rfl, ihfirst h.1 (hspace _), lex_space_cons,
      lex_atom_append (by simp) hpoint (hspace _), lex_space_cons,
      ihrest h.2 (breaks_cons rfl _), lex_delimiter_cons rfl]
    simp [tree, Tree.tokens]
  | _ => exact h.elim

/-! ## Reading the text -/

/-- A reader of the text of data and nothing else reads the data's tree, and then has read all. -/
theorem read_dotted {limit : Nat} {v : Value} (h : v.IsData symbols)
    (hnesting : v.nesting ≤ limit) (prompts : Prompts) :
    let r := Reader.new prompts (.ofLines [v.dotted]) symbols
    (r.read limit).1 = .ok (v.reread symbols) ∧ (r.read limit).2.HasLeft [] := by
  intro r
  have htokens : (TokenLines.ofLines [v.dotted]).all = v.tree.tokens := by
    rw [TokenLines.all_ofLines, List.flatMap_singleton, ← List.append_nil v.dotted.toList,
      lex_dotted h breaks_nil, lex_nil, List.append_nil]
  have hleft : r.HasLeft (v.tree.tokens ++ []) := by
    rw [List.append_nil]
    exact htokens ▸ (Reader.new_shows prompts symbols _).hasLeft
  have hdepth : v.tree.depth ≤ limit := by rwa [depth_tree]
  obtain ⟨r', hread, hrest⟩ := Reader.read_of_tree hleft hdepth
  rw [hread, Reader.naming_new, form_tree h]
  exact ⟨rfl, hrest⟩

/-! ## Undoing what reading changes -/

/-- The value of which a value is what is read. -/
def unread : Value → Value
  | symbol s => if s.name = "NIL" then nil else symbol s
  | pair first (pair _ (pair rest _)) => pair first.unread rest.unread
  | v => v

theorem unread_reread {v : Value} (h : v.IsData symbols) (hnil : v.Avoids "NIL") :
    (v.reread symbols).unread = v := by
  induction v with
  | nil => exact if_pos (symbols.name_symbolOf "NIL")
  | int n => rfl
  | symbol s => exact if_neg hnil
  | pair first rest ihfirst ihrest =>
    show pair (first.reread symbols).unread (rest.reread symbols).unread = pair first rest
    rw [ihfirst h.1 hnil.1, ihrest h.2 hnil.2]
  | _ => exact h.elim

/-- **Printing and reading fit together.** The text of data is read as the data with every pair made
a list of three around a point and the empty list made the symbol of its text, given room for the
parentheses of the text; and then no token is left. So data in which no symbol has the name of the
empty list's text is told apart by its printed text. All symbols are interned in one table, which is
the reader's. -/
theorem read_print_data :
    (∀ (limit : Nat) (prompts : Prompts) (symbols : SymbolTable) (v : Value),
      v.IsData symbols → v.nesting ≤ limit →
      ∃ text, v.print = .ok text ∧
        let after := (Reader.new prompts (.ofLines [text]) symbols).read limit
        after.1 = .ok (v.reread symbols) ∧ after.2.tokens = [] ∧
          after.2.nextToken.1 = .error .endOfInput) ∧
    ∀ (symbols : SymbolTable) (v w : Value), v.IsData symbols → w.IsData symbols →
      v.Avoids "NIL" → w.Avoids "NIL" → v.print = w.print → v = w := by
  refine ⟨?_, ?_⟩
  · intro limit prompts symbols v hv hnesting
    refine ⟨v.dotted, print_of_printable hv.printable, ?_⟩
    obtain ⟨hres, hleft⟩ := read_dotted hv hnesting prompts
    obtain ⟨r, hnext, -⟩ := Reader.nextToken_of_nil hleft
    exact ⟨hres, hleft.tokens_eq, congrArg Prod.fst hnext⟩
  · intro symbols v w hv hw hvnil hwnil hprint
    rw [print_of_printable hv.printable, print_of_printable hw.printable] at hprint
    -- One text, read with room for both, gives one value.
    have hread := (read_dotted hv (Nat.le_max_left _ w.nesting) {}).1
    rw [Except.ok.inj hprint, (read_dotted hw (Nat.le_max_right _ _) {}).1] at hread
    rw [← unread_reread hv hvnil, ← unread_reread hw hwnil, Except.ok.inj hread]

/-- `((-5 . -) . (NIL . x))` is read within three levels, and the text of `(1 . (2 . NIL))` is not
that of `(1 . (2 . nil))`. -/
theorem read_print_data_dotted_pairs :
    let v : Value := pair (pair (int (-5)) (sym "-")) (pair nil (sym "x"))
    let after := (Reader.new {} (.ofLines ["((-5 . -) . (NIL . x))"]) ∅).read 3
    v.print = .ok "((-5 . -) . (NIL . x))" ∧
    after.1 = .ok (ofList [ofList [int (-5), sym ".", sym "-"], sym ".",
      ofList [sym "NIL", sym ".", sym "x"]]) ∧
    after.2.tokens = [] ∧
    (ofList [int 1, int 2]).print ≠ (chain [int 1, int 2] (sym "nil")).print := by
  intro v after
  have hname : ∀ name ∈ ["-", "x", "nil"], Symbol.IsName name := by decide +kernel
  have hdata : v.IsData ∅ :=
    ⟨⟨trivial, rfl, hname "-" (by decide)⟩, trivial, rfl, hname "x" (by decide)⟩
  have hdotted : v.dotted = "((-5 . -) . (NIL . x))" := by decide +kernel
  have hprint : v.print = .ok "((-5 . -) . (NIL . x))" :=
    hdotted ▸ print_of_printable hdata.printable
  obtain ⟨text, htext, hread, htokens, -⟩ := read_print_data.1 3 {} ∅ v hdata (by decide)
  obtain rfl : text = "((-5 . -) . (NIL . x))" := Except.ok.inj (htext.symm.trans hprint)
  refine ⟨hprint, hread, htokens, ?_⟩
  intro hsame
  have heq := read_print_data.2 ∅ (ofList [int 1, int 2]) (chain [int 1, int 2] (sym "nil"))
    ⟨trivial, trivial, trivial⟩ ⟨trivial, trivial, rfl, hname "nil" (by decide)⟩
    ⟨trivial, trivial, trivial⟩ ⟨trivial, trivial, show "nil" ≠ "NIL" by decide⟩ hsame
  exact absurd heq (by decide)

end Value

end PocketLisp

import PocketLisp.Interpreter
import PocketLisp.Proofs.Eval.Sums
import PocketLisp.Proofs.Literal.Grammar
import PocketLisp.Proofs.Reader.Grammar
import PocketLisp.Proofs.Reader.Layout

/-!
# Addition, from text to text

A program text that adds up integers passes through every layer: it is cut into lines and tokens, a
tree is read from the tokens, the head is looked up, the arguments are evaluated and handed to the
builtin as a new list, and the sum is printed. Each layer is described elsewhere for what it is
given in general. Here the descriptions are put together for one kind of form (`eval_sum`): whatever
the literals and whatever the layout, the result is the sum.
-/

namespace PocketLisp

/-! ## Adding up integers -/

theorem evalArguments_ints {eval : Value → Trace Value}
    (heval : ∀ n, eval (.int n) = .pure (.int n)) (ns : List Int) :
    evalArguments eval (.ofList (ns.map .int)) = .pure (.ok (ns.map .int)) := by
  induction ns with
  | nil => rfl
  | cons n ns ih =>
    show (eval (.int n)).bind _ = _
    rw [heval, Trace.pure_bind]
    show (evalArguments eval (.ofList (ns.map .int))).bind _ = _
    rw [ih, Trace.pure_bind]
    rfl

/-- Where a symbol named `+` means the builtin, a sum of integers takes two levels and one call. -/
theorem evaluate_sum (basis : Basis) {limit : Nat} (hlimit : 2 ≤ limit) (env : Env) {plus : Symbol}
    (hname : plus.name = "+") (hplus : env.lookup plus = some (.native (.builtin .add)))
    (ns : List Int) :
    evaluate basis limit env (.addition plus (ns.map .int)) =
      ⟨[⟨.builtin .add, .ofList (ns.map .int)⟩], .ok (.int ns.sum)⟩ := by
  obtain ⟨limit, rfl⟩ : ∃ k, limit = k + 2 := ⟨limit - 2, by omega⟩
  have hhead : evaluate basis (limit + 1) env (.symbol plus) = .pure (.native (.builtin .add)) := by
    show Trace.pure (evalSymbol basis env plus) = _
    rw [evalSymbol_of_name basis env (by simp [hname]) (by simp [hname]), hplus]
    rfl
  have hints : ∀ n, evaluate basis (limit + 1) env (.int n) = .pure (.int n) := fun n => rfl
  have hplusHead : .symbol plus ∉ basis.heads := plus_not_mem_heads hname
  have hkeyword := SpecialForm.ofHead?_eq_none_iff.2 hplusHead
  show evaluateForm basis (evaluate basis (limit + 1)) env
    (.pair (.symbol plus) (.ofList (ns.map .int))) = _
  simp only [evaluateForm, hkeyword]
  rw [applyForm, hhead]
  show (evalArguments (evaluate basis (limit + 1) env) _).bind _ = _
  rw [evalArguments_ints hints, Trace.pure_bind]
  show (⟨_, (Builtin.add.call (.ofList (ns.map .int))).mapError .violation⟩ : Trace Value) = _
  rw [Builtin.call_add, Value.total_ints]
  rfl

/-- In the frame of the builtins, the symbol of a table for the name of a builtin means that
builtin, because no two of them have the same name. -/
theorem Frame.get?_builtins (symbols : SymbolTable) (b : Builtin) :
    (builtins symbols.symbolOf).get? (symbols.symbolOf b.name) = some (.native (.builtin b)) := by
  have hinj : ∀ name name', symbols.symbolOf name = symbols.symbolOf name' ↔ name = name' := by
    intro name name'
    refine ⟨fun h => ?_, fun h => h ▸ rfl⟩
    rw [← symbols.name_symbolOf name, h, symbols.name_symbolOf]
  cases b <;> simp [builtins, Builtin.all, ofBindings, set, get?, hinj, Builtin.name]

/-! ## A program text of one form -/

/-- A reader that has a tree left and nothing else reads that tree as all there is. -/
theorem Reader.readAll_of_tree {limit : Nat} {r : Reader} {t : Tree} (h : r.HasLeft t.tokens)
    (hdepth : t.depth ≤ limit) : ∃ r', r.readAll limit = (.ok [t.form r.naming], r') := by
  rw [← List.append_nil t.tokens] at h
  obtain ⟨r', hread, hleft⟩ := read_of_tree h hdepth
  obtain ⟨r'', hnext, -⟩ := nextToken_of_nil hleft.atBoundary
  have hend : r'.read limit = (.error .endOfInput, r'') := read_of_error (readFrom_of_error hnext)
  refine ⟨r'', ?_⟩
  rw [readAll, readAllFrom]
  split
  · next v r₁ hone =>
    rw [hread] at hone
    cases hone
    rw [readAllFrom]
    split <;> simp_all
  · next hone => simp_all
  · next hone => simp_all

/-- A program text laid out as a tree, and nothing else, is read as that tree. -/
theorem Interpreter.readAll_of_laid {limit : Nat} (i : Interpreter) {t : Tree} {code : String}
    (hcode : Laid Text.Separates t.tokens code.toList) (hdepth : t.depth ≤ limit) :
    ∃ r, i.readAll limit code = (.ok [t.form i.symbols.naming], r) := by
  have htokens : (TokenLines.ofLines (Text.splitLines code)).all = t.tokens := by
    rw [TokenLines.all_ofLines]
    exact hcode.lineTokens_eq
  have hread := Reader.readAll_of_tree (htokens ▸ (Reader.new_shows {} i.symbols _).hasLeft) hdepth
  rwa [Reader.naming_new] at hread

/-! ## The tree of a sum -/

/-- The tree of a form that applies `+` to the given atoms. -/
def Tree.sum (literals : List String) : Tree := .list (.atom "+" :: literals.map .atom)

namespace Tree

theorem tokens_sum (literals : List String) :
    (sum literals).tokens = .lparen :: .atom "+" :: (literals.map .atom ++ [.rparen]) := by
  have hatoms : (literals.map Tree.atom).flatMap tokens = literals.map Token.atom := by
    simp only [List.flatMap_map, tokens, ← List.map_eq_flatMap]
  rw [sum, tokens, List.flatMap_cons, hatoms, tokens]
  rfl

theorem depth_sum (literals : List String) : (sum literals).depth = 2 := by
  have hatoms : ((literals.map Tree.atom).map depth).foldr max 1 = 1 := by
    induction literals with
    | nil => rfl
    | cons text literals ih =>
      rw [List.map_cons, List.map_cons, List.foldr_cons, ih, depth]
      rfl
  rw [sum, depth, List.map_cons, List.foldr_cons, hatoms, depth]
  rfl

theorem form_sum (naming : Naming) {literals : List String} {ns : List Int}
    (h : List.Forall₂ (fun text n => ∃ radix, Literal.Denotes radix text.toList n) literals ns) :
    (sum literals).form naming = .addition (naming.symbolOf "+") (ns.map .int) := by
  have hplus : (Tree.atom "+").form naming = .symbol (naming.symbolOf "+") := by
    rw [form, show Literal.parse? "+" = none by decide +kernel]
  have hints : (literals.map Tree.atom).map (form naming) = ns.map .int := by
    induction h with
    | nil => rfl
    | @cons text n literals ns hn _ ih =>
      have hread : Literal.parse? text = some n := Literal.integer?_eq_some_iff.2 hn
      rw [List.map_cons, List.map_cons, List.map_cons, ih, form, hread]
  rw [sum, form, List.map_cons, hplus, hints, Value.addition]

end Tree

/-- **Addition from text to text.** Take any list of integers and for each of them any literal that
denotes it. However the form that adds them up is laid out, over however many lines and with however
many spaces, as long as atoms are kept apart, the program text has exactly one result, which is
their sum; and that is printed as its decimal text, which is again a literal of it. -/
theorem Interpreter.eval_sum {limit : Nat} (hlimit : 2 ≤ limit) (symbols : SymbolTable)
    (host : Host) {literals : List String} {ns : List Int}
    (hliterals : List.Forall₂ (fun text n => ∃ radix, Literal.Denotes radix text.toList n)
      literals ns)
    {code : String}
    (hcode : Laid Text.Separates (.lparen :: .atom "+" :: (literals.map .atom ++ [.rparen]))
      code.toList) :
    ((Interpreter.new symbols host).eval limit code).1 = .ok [.int ns.sum] ∧
    (Value.int ns.sum).print = .ok (toString ns.sum) ∧
    Literal.parse? (toString ns.sum) = some ns.sum := by
  refine ⟨?_, Value.print_of_printable (v := .int ns.sum) trivial, Literal.parse?_toString _⟩
  rw [← Tree.tokens_sum] at hcode
  have hdepth : (Tree.sum literals).depth ≤ limit := by rwa [Tree.depth_sum]
  obtain ⟨r, hread⟩ := (Interpreter.new symbols host).readAll_of_laid hcode hdepth
  have hnaming : (Interpreter.new symbols host).symbols.naming.symbolOf = symbols.symbolOf := by
    rw [SymbolTable.naming, Interpreter.symbols_new, SymbolTable.symbolOf_insertAll]
  rw [Tree.form_sum _ hliterals, hnaming] at hread
  have hplus : (Interpreter.new symbols host).env.lookup (symbols.symbolOf "+") =
      some (.native (.builtin .add)) := by
    rw [Interpreter.env, Interpreter.root_new, Env.lookup_cons]
    rw [show "+" = Builtin.add.name from rfl, Frame.get?_builtins]
    rfl
  have hsum := evaluate_sum (Interpreter.new symbols host).basis hlimit _
    (symbols.name_symbolOf "+") hplus ns
  have hform : ((Interpreter.new symbols host).evalForm limit
      (.addition (symbols.symbolOf "+") (ns.map .int))).2 = .ok (.int ns.sum) := by
    simp only [evalForm]
    rw [hsum]
  simp only [eval, hread, evalForms, hform]
  rfl

/-- Over three lines, in all four notations: `(+ 0x1F`, `-017 0b` and ` 5 )` add up to 21. -/
theorem Interpreter.eval_sum_three_lines :
    let literals := ["0x1F", "-017", "0b", "5"]
    let code := "(+ 0x1F\r\n-017 0b\n 5 )"
    List.Forall₂ (fun text n => ∃ radix, Literal.Denotes radix text.toList n) literals
      [31, -15, 0, 5] ∧
    Laid Text.Separates (.lparen :: .atom "+" :: (literals.map .atom ++ [.rparen])) code.toList ∧
    ((Interpreter.new ∅ .none).eval 2 code).1 = .ok [.int 21] := by
  intro literals code
  have hliteral (text : String) (n : Int) (h : Literal.parse? text = some n) :
      ∃ radix, Literal.Denotes radix text.toList n :=
    Literal.integer?_eq_some_iff.1 h
  have hliterals : List.Forall₂ (fun text n => ∃ radix, Literal.Denotes radix text.toList n)
      literals [31, -15, 0, 5] :=
    .cons (hliteral _ _ (by decide +kernel)) <| .cons (hliteral _ _ (by decide +kernel)) <|
      .cons (hliteral _ _ (by decide +kernel)) <| .cons (hliteral _ _ (by decide +kernel)) .nil
  have hcode : Laid Text.Separates
      (.lparen :: .atom "+" :: (literals.map .atom ++ [.rparen])) code.toList :=
    lineTokens_eq_iff_laid.1 (by decide +kernel)
  exact ⟨hliterals, hcode, (Interpreter.eval_sum (Nat.le_refl 2) ∅ .none hliterals hcode).1⟩

end PocketLisp

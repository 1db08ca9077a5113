import PocketLisp.TextStream

/-!
# A text read as a stream and cut as a whole

A stream is cut at line feeds, and its lines lose the carriage returns at their ends; a program text
is cut at every line boundary. The two agree where the only boundaries are line feeds, alone or
behind a carriage return (`streamLinesFrom_eq`).

What a stream hands out are the lines into which it is cut, one for each request
(`TextStream.readLine_lines`), and then nothing (`TextStream.readLines_fst`). Put together: whoever
asks a stream for lines gets those of the program text (`TextStream.readLines_eq_splitLines`).
-/

namespace PocketLisp

namespace Text

/-! ## Two ways to cut a text -/

/-- Every line boundary in the text is a line feed, or a carriage return with a line feed right
behind it. -/
def FeedsOnly : List Char → Prop
  | [] => True
  | c :: cs =>
    (isLineBoundary c = true → c = '\n' ∨ c = '\r' ∧ cs.head? = some '\n') ∧ FeedsOnly cs

instance decidableFeedsOnly : (cs : List Char) → Decidable (FeedsOnly cs)
  | [] => inferInstanceAs (Decidable True)
  | c :: cs =>
    have := decidableFeedsOnly cs
    inferInstanceAs (Decidable (
      (isLineBoundary c = true → c = '\n' ∨ c = '\r' ∧ cs.head? = some '\n') ∧ FeedsOnly cs))

theorem streamLine_feed (line : List Char) : streamLine ('\n' :: line) = streamLine line := by
  simp [streamLine]

theorem streamLine_return (line : List Char) : streamLine ('\r' :: line) = streamLine line := by
  simp [streamLine]

/-- A line that ends in something else loses nothing. -/
theorem streamLine_of_plain {c : Char} (hc : isLineBoundary c = false) (line : List Char) :
    streamLine (c :: line) = String.ofList (c :: line).reverse := by
  have hfeed : c ≠ '\n' := by
    rintro rfl
    cases hc
  have hreturn : c ≠ '\r' := by
    rintro rfl
    cases hc
  simp [streamLine, hfeed, hreturn]

/-- The current line is one that loses nothing, as both ways to cut begin with an empty one and add
to it no boundary that does not end it. -/
theorem streamLinesFrom_eq {cs : List Char} (h : FeedsOnly cs) (line : List Char)
    (hline : streamLine line = String.ofList line.reverse) :
    streamLinesFrom line cs = splitLinesFrom line cs := by
  fun_induction splitLinesFrom line cs with
  | case1 line hempty => simp [streamLinesFrom, hempty]
  | case2 line hne => simp [streamLinesFrom, hne, hline]
  | case3 line cs ih =>
    simp [streamLinesFrom, streamLine_return, hline, ih h.2.2 rfl]
  | case4 line c cs hpair hc ih =>
    obtain rfl | ⟨rfl, hhead⟩ := h.1 hc
    · simp [streamLinesFrom, hline, ih h.2 rfl]
    · obtain ⟨ds, rfl⟩ := List.head?_eq_some_iff.1 hhead
      exact (hpair ds rfl rfl).elim
  | case5 line c cs hpair hc ih =>
    have hplain : isLineBoundary c = false := by simpa using hc
    have hfeed : c ≠ '\n' := by
      rintro rfl
      cases hplain
    simp [streamLinesFrom, hfeed, ih h.2 (streamLine_of_plain hplain line)]

theorem streamLines_eq_splitLines {text : String} (h : FeedsOnly text.toList) :
    streamLines text = splitLines text :=
  streamLinesFrom_eq h [] rfl

end Text

namespace TextStream

open Text

/-! ## One request -/

/-- Cutting behind the first line feed takes the first line off. -/
theorem streamLinesFrom_cut {line cs : List Char} (h : line ++ cs ≠ []) :
    streamLinesFrom line cs =
      streamLine ((cut cs).1.reverse ++ line) :: streamLinesFrom [] (cut cs).2 := by
  induction cs generalizing line with
  | nil => simp_all [streamLinesFrom, cut]
  | cons c cs ih =>
    by_cases hc : c = '\n'
    · subst hc
      simp [streamLinesFrom, cut, streamLine_feed]
    · simp [streamLinesFrom, cut, hc, ih]

theorem cut_fst_eq_nil_iff {cs : List Char} : (cut cs).1 = [] ↔ cs = [] := by
  cases cs with
  | nil => simp [cut]
  | cons c cs =>
    rw [cut]
    split <;> simp

@[simp] theorem unread_showPrompt (stream : TextStream) (prompt : String) :
    (stream.showPrompt prompt).unread = stream.unread := by
  rw [showPrompt]
  split <;> rfl

theorem readLine_of_nil {stream : TextStream} (h : stream.unread = []) (prompt : String) :
    stream.readLine prompt = (none, stream.showPrompt prompt) := by
  simp [readLine, h, cut]

theorem readLine_of_ne_nil {stream : TextStream} (h : stream.unread ≠ []) (prompt : String) :
    stream.readLine prompt = (some (streamLine (cut stream.unread).1.reverse),
      { stream.showPrompt prompt with unread := (cut stream.unread).2 }) := by
  have hline : (cut stream.unread).1 ≠ [] := mt cut_fst_eq_nil_iff.1 h
  rw [readLine, unread_showPrompt]
  rcases hcut : cut stream.unread with ⟨line, rest⟩
  cases line with
  | nil => simp [hcut] at hline
  | cons c line => rfl

/-- The lines that the stream has yet to hand out. -/
def lines (stream : TextStream) : List String := streamLinesFrom [] stream.unread

/-- A request is answered with the next line, if there is one, and that line is then gone. -/
theorem readLine_lines (stream : TextStream) (prompt : String) :
    (stream.readLine prompt).1 = stream.lines.head? ∧
      (stream.readLine prompt).2.lines = stream.lines.tail := by
  by_cases h : stream.unread = []
  · rw [readLine_of_nil h]
    simp [lines, h, streamLinesFrom]
  · have hlines : stream.lines = streamLine (cut stream.unread).1.reverse ::
        streamLinesFrom [] (cut stream.unread).2 := by
      rw [lines, streamLinesFrom_cut (by simpa using h), List.append_nil]
    rw [readLine_of_ne_nil h, hlines]
    exact ⟨rfl, rfl⟩

theorem shown_showPrompt (stream : TextStream) (prompt : String) :
    (stream.showPrompt prompt).shown = stream.shown.map (· ++ [prompt].filter (· ≠ "")) := by
  by_cases h : prompt = "" <;> simp [showPrompt, h]

/-- The prompt is shown for a line and for none. -/
theorem shown_readLine (stream : TextStream) (prompt : String) :
    (stream.readLine prompt).2.shown = stream.shown.map (· ++ [prompt].filter (· ≠ "")) := by
  rw [← shown_showPrompt]
  by_cases h : stream.unread = []
  · rw [readLine_of_nil h]
  · rw [readLine_of_ne_nil h]

/-! ## One request after the other -/

/-- The answers are the lines that are left, and then nothing. -/
theorem readLines_fst (stream : TextStream) (prompts : List String) :
    (stream.readLines prompts).1 = (List.range prompts.length).map (stream.lines[·]?) := by
  induction prompts generalizing stream with
  | nil => rfl
  | cons prompt prompts ih =>
    obtain ⟨hanswer, hrest⟩ := stream.readLine_lines prompt
    rw [List.length_cons, List.range_succ_eq_map, List.map_cons, List.map_map]
    simp only [readLines, ih, hanswer, hrest]
    simp [Function.comp_def, List.head?_eq_getElem?]

theorem shown_readLines (stream : TextStream) (prompts : List String) :
    (stream.readLines prompts).2.shown = stream.shown.map (· ++ prompts.filter (· ≠ "")) := by
  induction prompts generalizing stream with
  | nil => simp [readLines]
  | cons prompt prompts ih =>
    have happend : (prompt :: prompts).filter (· ≠ "") =
        [prompt].filter (· ≠ "") ++ prompts.filter (· ≠ "") := by
      rw [← List.filter_append, List.singleton_append]
    simp only [readLines, ih, shown_readLine, Option.map_map, Function.comp_def, happend,
      List.append_assoc]

/-- **Streams and program texts have the same lines.** Take a text in which the only line boundaries
are line feeds, some of them perhaps behind a carriage return. Cut as a stream it has the lines that
it has when cut as a whole. Whoever asks the stream for lines gets these, in order: the answer to
each request is the line at that place, or nothing if there is no such line, and a blank line is an
answer like any other. And if there is something to show prompts on, exactly the prompts that are
not empty are shown, in order, those of requests without an answer among them. -/
theorem readLines_eq_splitLines (text : String) (h : FeedsOnly text.toList) :
    streamLines text = splitLines text ∧
    ∀ (showsPrompts : Bool) (prompts : List String),
      ((ofText text showsPrompts).readLines prompts).1 =
        (List.range prompts.length).map ((splitLines text)[·]?) ∧
      ((ofText text showsPrompts).readLines prompts).2.shown =
        if showsPrompts then some (prompts.filter (· ≠ "")) else none := by
  have hlines := streamLines_eq_splitLines h
  refine ⟨hlines, ?_⟩
  intro showsPrompts prompts
  constructor
  · rw [← hlines]
    exact readLines_fst _ prompts
  · rw [shown_readLines]
    cases showsPrompts <;> rfl

/-- Of `"(+ 1\r\n\n2)"` three lines are handed out, one of them blank, and five requests show three
prompts. -/
theorem readLines_eq_splitLines_blank_line :
    let text := "(+ 1\r\n\n2)"
    let prompts := ["* ", "", "> ", "* ", ""]
    FeedsOnly text.toList ∧
    ((ofText text true).readLines prompts).1 = [some "(+ 1", some "", some "2)", none, none] ∧
    ((ofText text true).readLines prompts).2.shown = some ["* ", "> ", "* "] := by
  intro text prompts
  have hfeeds : FeedsOnly text.toList := by decide +kernel
  have hsplit : splitLines text = ["(+ 1", "", "2)"] := by decide +kernel
  obtain ⟨hanswers, hshown⟩ := (readLines_eq_splitLines text hfeeds).2 true prompts
  refine ⟨hfeeds, ?_, ?_⟩
  · rw [hanswers, hsplit]
    rfl
  · rw [hshown]
    simp [prompts]

end TextStream

end PocketLisp

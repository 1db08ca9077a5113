import PocketLisp.Program

/-!
# How programs start

Which settings a program starts with, and what it makes of the others. Settings are unusable if the
limit is no integer, or one that cannot be set, or if there is no level of the given name
(`Program.Unusable`). What counts as an integer and what can be set depends on the system that runs
the program: on its cap for digits, and on the calls under way. Unusable settings are reported, the
first thing wrong with them (`Program.Reports`), and the program then ends without having read or
written anything. There is one exception: a limit that no number of 32 bits reaches makes the
program break off without a report (`Program.LimitOverflows`). With all other settings its session
begins, with the prompts, the level and the recursion limit that they choose.
-/

namespace PocketLisp

/-! ## What the variables hold -/

namespace Settings

/-- The variable is not set, or blank. -/
def Leaves (vars : Variables) (name : String) : Prop :=
  ∀ text, vars name = some text → Text.allBlank text = true

/-- The variable is set to a text that is neither blank nor an integer within the cap. -/
def HoldsText (cap : Option Nat) (vars : Variables) (name text : String) : Prop :=
  vars name = some text ∧ Text.allBlank text = false ∧ Text.decimalInteger? cap text = none

/-- The variable is set to an integer within the cap. -/
def HoldsInteger (cap : Option Nat) (vars : Variables) (name : String) (n : Int) : Prop :=
  ∃ text, vars name = some text ∧ Text.allBlank text = false ∧
    Text.decimalInteger? cap text = some n

variable {cap : Option Nat} {vars : Variables} {name : String}

theorem integerVariable_of_leaves (h : Leaves vars name) :
    integerVariable cap vars name = .ok none := by
  cases hvar : vars name with
  | none => simp only [integerVariable, hvar]
  | some text => simp only [integerVariable, hvar, h text hvar, if_true]

theorem integerVariable_of_text {text : String} (h : HoldsText cap vars name text) :
    integerVariable cap vars name = .error ⟨name, text⟩ := by
  obtain ⟨hvar, hblank, hinteger⟩ := h
  simp [integerVariable, hvar, hblank, hinteger]

theorem integerVariable_of_integer {n : Int} (h : HoldsInteger cap vars name n) :
    integerVariable cap vars name = .ok (some n) := by
  obtain ⟨text, hvar, hblank, hinteger⟩ := h
  simp [integerVariable, hvar, hblank, hinteger]

/-- There is no fourth way. -/
theorem variable_cases (cap : Option Nat) (vars : Variables) (name : String) :
    Leaves vars name ∨ (∃ text, HoldsText cap vars name text) ∨
      ∃ n, HoldsInteger cap vars name n := by
  cases hvar : vars name with
  | none => exact .inl fun text htext => by rw [hvar] at htext; cases htext
  | some text =>
    cases hblank : Text.allBlank text with
    | true =>
      left
      intro text' htext'
      rw [hvar] at htext'
      cases htext'
      exact hblank
    | false =>
      right
      cases hinteger : Text.decimalInteger? cap text with
      | none => exact .inl ⟨text, hvar, hblank, hinteger⟩
      | some n => exact .inr ⟨n, text, hvar, hblank, hinteger⟩

/-- The name of the level that the variables choose. -/
def levelName (vars : Variables) : String :=
  Text.upper ((vars "BL_LOG_LEVEL").getD Level.warning.name)

/-- The prompts that the variables choose. -/
def promptsOf (vars : Variables) : Prompts where
  primary := (vars "BL_PROMPT").getD "* "
  continuation := (vars "BL_CONTINUATION_PROMPT").getD ""

theorem ofVariables_of_limit {limit : Option Int}
    (h : integerVariable cap vars "BL_RECURSION_LIMIT" = .ok limit) :
    ofVariables cap vars = .ok ⟨promptsOf vars, levelName vars, limit⟩ := by
  rw [ofVariables, h]
  rfl

end Settings

theorem Level.name_of_ofName? {name : String} {level : Level} (h : ofName? name = some level) :
    level.name = name := by
  simpa using List.find?_some h

namespace Program

open Settings

/-! ## Unusable settings -/

/-- There is a level of the chosen name. -/
def KnownLevel (vars : Variables) : Prop := ∃ level : Level, level.name = levelName vars

/-- The recursion limit is set to a text that is no integer. -/
def LimitIsText (runtime : Runtime) (vars : Variables) (text : String) : Prop :=
  HoldsText runtime.digitCap vars "BL_RECURSION_LIMIT" text

/-- The recursion limit is set to an integer. -/
def LimitIs (runtime : Runtime) (vars : Variables) (n : Int) : Prop :=
  HoldsInteger runtime.digitCap vars "BL_RECURSION_LIMIT" n

/-- A limit that can be set: fewer calls are under way, and 32 bits hold it. -/
def Settable (runtime : Runtime) (n : Int) : Prop := (runtime.depth : Int) < n ∧ n < wordBound

/-- The settings cannot be used. -/
inductive Unusable (runtime : Runtime) (vars : Variables) : Prop where
  | notInteger {text : String} (h : LimitIsText runtime vars text)
  | notSettable {n : Int} (h : LimitIs runtime vars n) (hn : ¬ Settable runtime n)
  | unknownLevel (h : ¬ KnownLevel vars)

/-- The level is known, and the limit is an integer that 32 bits do not hold. -/
def LimitOverflows (runtime : Runtime) (vars : Variables) : Prop :=
  KnownLevel vars ∧ ∃ n, LimitIs runtime vars n ∧ (n < -wordBound ∨ wordBound ≤ n)

/-- The first thing wrong with the settings, where the limit is read first, then the level is looked
up, and last the limit is set. -/
inductive Reports (runtime : Runtime) (vars : Variables) : StartError → Prop where
  | notInteger {text : String} (h : LimitIsText runtime vars text) :
      Reports runtime vars (.notInteger ⟨"BL_RECURSION_LIMIT", text⟩)
  | unknownLevel (hlimit : ∀ text, ¬ LimitIsText runtime vars text)
      (h : ¬ KnownLevel vars) : Reports runtime vars (.unknownLevel (levelName vars))
  | limitBelowOne {n : Int} (hlevel : KnownLevel vars) (h : LimitIs runtime vars n)
      (hword : -wordBound ≤ n) (hn : n < 1) : Reports runtime vars .limitBelowOne
  | limitTooLow {n : Int} (hlevel : KnownLevel vars) (h : LimitIs runtime vars n)
      (hone : 1 ≤ n) (hn : n ≤ runtime.depth) (hword : n < wordBound) :
      Reports runtime vars (.limitTooLow n runtime.depth)

/-- The recursion limit that settings which can be used bring into force: the one they set, or the
one that was there. -/
inductive InForce (runtime : Runtime) (vars : Variables) : Nat → Prop where
  | kept (h : Leaves vars "BL_RECURSION_LIMIT") : InForce runtime vars runtime.recursionLimit
  | set {n : Int} (h : LimitIs runtime vars n) (hn : Settable runtime n) :
      InForce runtime vars n.toNat

variable {runtime : Runtime} {vars : Variables}

/-- The level that stands if none is chosen is one. -/
theorem knownLevel_of_none (h : vars "BL_LOG_LEVEL" = none) : KnownLevel vars := by
  refine ⟨.warning, ?_⟩
  rw [levelName, h]
  decide +kernel

/-- A limit with more digits than the cap allows is reported as no integer, and never goes beyond 32
bits. -/
theorem reports_of_many_digits {cap : Nat} {cs : List Char} (hcap : runtime.digitCap = some cap)
    (hvar : vars "BL_RECURSION_LIMIT" = some (String.ofList cs))
    (hdigits : ∀ c ∈ cs, c.isDigit = true) (hmany : cap < cs.length) :
    Reports runtime vars (.notInteger ⟨"BL_RECURSION_LIMIT", String.ofList cs⟩) := by
  refine .notInteger ⟨hvar, ?_, hcap ▸ Text.decimalInteger?_of_cap_lt hdigits hmany⟩
  cases cs with
  | nil => exact absurd hmany (Nat.not_lt_zero cap)
  | cons c cs => simp [Text.allBlank, Text.isBlank_of_isDigit (hdigits c List.mem_cons_self)]

/-- Settings that cannot be used are reported, unless the limit goes beyond 32 bits. -/
theorem Unusable.reports (h : Unusable runtime vars) (hword : ¬ LimitOverflows runtime vars) :
    ∃ e, Reports runtime vars e := by
  by_cases htext : ∃ text, LimitIsText runtime vars text
  · obtain ⟨text, htext⟩ := htext
    exact ⟨_, .notInteger htext⟩
  · by_cases hlevel : KnownLevel vars
    · cases h with
      | notInteger h => exact absurd ⟨_, h⟩ htext
      | unknownLevel h => exact absurd hlevel h
      | @notSettable n h hn =>
        have hlow : -wordBound ≤ n := Int.not_lt.1 fun hlt => hword ⟨hlevel, n, h, .inl hlt⟩
        have hhigh : n < wordBound := Int.not_le.1 fun hge => hword ⟨hlevel, n, h, .inr hge⟩
        by_cases hone : n < 1
        · exact ⟨_, .limitBelowOne hlevel h hlow hone⟩
        · have hdepth : n ≤ runtime.depth := Int.not_lt.1 fun hlt => hn ⟨hlt, hhigh⟩
          exact ⟨_, .limitTooLow hlevel h (by omega) hdepth hhigh⟩
    · exact ⟨_, .unknownLevel (fun text h => htext ⟨text, h⟩) hlevel⟩

/-! ## Starting -/

theorem nesting_of_overflow {n : Int} (h : n < -wordBound ∨ wordBound ≤ n) :
    nesting runtime (some n) = .error .limitOutOfRange :=
  if_pos h

theorem nesting_of_lt_one {n : Int} (hword : -wordBound ≤ n) (h : n < 1) :
    nesting runtime (some n) = .error (.error .limitBelowOne) := by
  have hrange : ¬ (n < -wordBound ∨ wordBound ≤ n) := by
    unfold wordBound at *
    omega
  rw [nesting, if_neg hrange, if_pos h]

theorem nesting_of_le_depth {n : Int} (hone : 1 ≤ n) (h : n ≤ runtime.depth)
    (hword : n < wordBound) :
    nesting runtime (some n) = .error (.error (.limitTooLow n runtime.depth)) := by
  have hrange : ¬ (n < -wordBound ∨ wordBound ≤ n) := by
    unfold wordBound at *
    omega
  rw [nesting, if_neg hrange, if_neg (by omega), if_pos h]

theorem nesting_of_settable {n : Int} (h : Settable runtime n) :
    nesting runtime (some n) = .ok (runtime.room n.toNat) := by
  obtain ⟨hdepth, hword⟩ := h
  have hrange : ¬ (n < -wordBound ∨ wordBound ≤ n) := by
    unfold wordBound at *
    omega
  rw [nesting, if_neg hrange, if_neg (by omega), if_neg (by omega)]

theorem start_of_level {limit : Option Int} {level : Level}
    (hlimit : integerVariable runtime.digitCap vars "BL_RECURSION_LIMIT" = .ok limit)
    (hlevel : level.name = levelName vars) :
    start runtime vars = (nesting runtime limit).map fun limit =>
      { prompts := promptsOf vars, level := level, limit := limit } := by
  simp only [start, ofVariables_of_limit hlimit, ← hlevel, Level.ofName?_name]

theorem start_of_reports {e : StartError} (h : Reports runtime vars e) :
    start runtime vars = .error (.error e) := by
  cases h with
  | notInteger h => simp [start, ofVariables, integerVariable_of_text h, Except.map]
  | unknownLevel htext h =>
    obtain ⟨limit, hlimit⟩ : ∃ limit,
        integerVariable runtime.digitCap vars "BL_RECURSION_LIMIT" = .ok limit := by
      rcases variable_cases runtime.digitCap vars "BL_RECURSION_LIMIT" with
        h | ⟨text, h⟩ | ⟨n, h⟩
      · exact ⟨none, integerVariable_of_leaves h⟩
      · exact absurd h (htext text)
      · exact ⟨some n, integerVariable_of_integer h⟩
    have hlevel : Level.ofName? (levelName vars) = none := by
      cases hname : Level.ofName? (levelName vars) with
      | none => rfl
      | some level => exact absurd ⟨level, Level.name_of_ofName? hname⟩ h
    simp only [start, ofVariables_of_limit hlimit, hlevel]
  | limitBelowOne hlevel h hword hn =>
    obtain ⟨level, hlevel⟩ := hlevel
    rw [start_of_level (integerVariable_of_integer h) hlevel, nesting_of_lt_one hword hn]
    rfl
  | limitTooLow hlevel h hone hn hword =>
    obtain ⟨level, hlevel⟩ := hlevel
    rw [start_of_level (integerVariable_of_integer h) hlevel, nesting_of_le_depth hone hn hword]
    rfl

theorem start_of_overflow (h : LimitOverflows runtime vars) :
    start runtime vars = .error .limitOutOfRange := by
  obtain ⟨⟨level, hlevel⟩, n, hn, hword⟩ := h
  rw [start_of_level (integerVariable_of_integer hn) hlevel, nesting_of_overflow hword]
  rfl

/-- Settings that can be used start a program with what they choose. -/
theorem start_of_usable (h : ¬ Unusable runtime vars) :
    ∃ level limit, level.name = levelName vars ∧ InForce runtime vars limit ∧
      start runtime vars = .ok ⟨promptsOf vars, level, runtime.room limit⟩ := by
  have hlevel : KnownLevel vars := Classical.not_not.1 fun hlevel => h (.unknownLevel hlevel)
  obtain ⟨level, hlevel⟩ := hlevel
  rcases variable_cases runtime.digitCap vars "BL_RECURSION_LIMIT" with
    hlimit | ⟨text, hlimit⟩ | ⟨n, hlimit⟩
  · refine ⟨level, _, hlevel, .kept hlimit, ?_⟩
    rw [start_of_level (integerVariable_of_leaves hlimit) hlevel]
    rfl
  · exact absurd (.notInteger hlimit) h
  · have hn : Settable runtime n := Classical.not_not.1 fun hn => h (.notSettable hlimit hn)
    refine ⟨level, _, hlevel, .set hlimit hn, ?_⟩
    rw [start_of_level (integerVariable_of_integer hlimit) hlevel, nesting_of_settable hn]
    rfl

theorem LimitOverflows.unusable (h : LimitOverflows runtime vars) : Unusable runtime vars := by
  obtain ⟨-, n, hn, hrange⟩ := h
  refine .notSettable hn ?_
  rintro ⟨hdepth, hhigh⟩
  unfold wordBound at *
  omega

/-- **Bad settings are reported, but for a limit beyond 32 bits.** With usable settings a program is
started, with the prompts and the level that they choose and the room that the recursion limit in
force leaves. With unusable ones it ends with status 1, reports the first thing wrong with them,
writes nothing and reads nothing; unless the only thing wrong is a limit that 32 bits do not hold.
Then it breaks off and reports nothing. -/
theorem run_reports_unusable_settings (runtime : Runtime) (vars : Variables) (i : Interpreter)
    (text : String) :
    let outcome := run runtime vars i (pipedEvents text)
    (¬ Unusable runtime vars →
      ∃ level limit, level.name = levelName vars ∧ InForce runtime vars limit ∧
        start runtime vars = .ok ⟨promptsOf vars, level, runtime.room limit⟩) ∧
    (Unusable runtime vars → ¬ LimitOverflows runtime vars →
      outcome.ending = .exit 1 ∧ outcome.output = "" ∧ outcome.unread = pipedEvents text ∧
      ∃ e, Reports runtime vars e ∧
        outcome.errors = "bl: configuration error: " ++ e.message ++ "\n") ∧
    (LimitOverflows runtime vars →
      Unusable runtime vars ∧ outcome.ending = .limitOutOfRange ∧ outcome.output = "" ∧
      outcome.errors = "" ∧ outcome.unread = pipedEvents text) := by
  intro outcome
  refine ⟨start_of_usable, ?_, ?_⟩
  · intro hunusable hword
    obtain ⟨e, he⟩ := hunusable.reports hword
    simp only [outcome, run, start_of_reports he]
    exact ⟨trivial, trivial, trivial, e, he, rfl⟩
  · intro hword
    simp only [outcome, run, start_of_overflow hword]
    exact ⟨hword.unusable, trivial, trivial, trivial, trivial⟩

/-- A limit with a sign and an underscore in it is used. The word `lots` is reported, and so is a
limit no higher than the depth. The least limit beyond 32 bits is not. -/
theorem run_reports_unusable_settings_four_limits :
    let runtime : Runtime := ⟨3, 1000, some 4300, (· - 1)⟩
    let vars (limit name : String) : Option String :=
      if name = "BL_RECURSION_LIMIT" then some limit else none
    let outcome (limit : String) :=
      run runtime (vars limit) (Interpreter.new ∅ Host.none) (pipedEvents "(+ 1 1)\n')")
    start runtime (vars " +1_000") = .ok ⟨{}, .warning, 999⟩ ∧
    (outcome "lots").ending = .exit 1 ∧
    (outcome "lots").unread = [.line "(+ 1 1)", .line "')"] ∧
    (outcome "3").ending = .exit 1 ∧
    (outcome "2147483648").ending = .limitOutOfRange := by
  intro runtime vars outcome
  have hlevel (limit : String) : KnownLevel (vars limit) := knownLevel_of_none rfl
  have hplain : LimitIs runtime (vars " +1_000") 1000 := by
    refine ⟨" +1_000", rfl, ?_, ?_⟩ <;> decide +kernel
  have htext : LimitIsText runtime (vars "lots") "lots" := by
    refine ⟨rfl, ?_, ?_⟩ <;> decide +kernel
  have hthree : LimitIs runtime (vars "3") 3 := by
    refine ⟨"3", rfl, ?_, ?_⟩ <;> decide +kernel
  have hword : LimitIs runtime (vars "2147483648") 2147483648 := by
    refine ⟨"2147483648", rfl, ?_, ?_⟩ <;> decide +kernel
  have hsame {limit : String} {n m : Int} (h : LimitIs runtime (vars limit) n)
      (h' : LimitIs runtime (vars limit) m) : m = n := by
    cases (integerVariable_of_integer h').symm.trans (integerVariable_of_integer h)
    rfl
  have husable : ¬ Unusable runtime (vars " +1_000") := by
    rintro (h | ⟨h, hn⟩ | h)
    · cases (integerVariable_of_text h).symm.trans (integerVariable_of_integer hplain)
    · rw [hsame hplain h] at hn
      exact hn (by unfold Settable; decide)
    · exact h (hlevel " +1_000")
  have hwithin : ¬ LimitOverflows runtime (vars "lots") := by
    rintro ⟨-, n, hn, -⟩
    cases (integerVariable_of_text htext).symm.trans (integerVariable_of_integer hn)
  have hthreeWithin : ¬ LimitOverflows runtime (vars "3") := by
    rintro ⟨-, n, hn, hrange⟩
    rw [hsame hthree hn] at hrange
    exact absurd hrange (by decide)
  have hevents : pipedEvents "(+ 1 1)\n')" = [.line "(+ 1 1)", .line "')"] := by decide +kernel
  have hmain (limit : String) := run_reports_unusable_settings runtime (vars limit)
    (Interpreter.new ∅ Host.none) "(+ 1 1)\n')"
  obtain ⟨level, limit, hname, hforce, hstart⟩ := (hmain " +1_000").1 husable
  obtain ⟨hreported, -, hunread, -⟩ := (hmain "lots").2.1 (.notInteger htext) hwithin
  have hlow := (hmain "3").2.1 (.notSettable hthree (by unfold Settable; decide)) hthreeWithin
  have hbroken := (hmain "2147483648").2.2 ⟨hlevel _, 2147483648, hword, by decide⟩
  refine ⟨?_, hreported, hunread.trans hevents, hlow.1, hbroken.2.1⟩
  have hchosen : level = .warning := by
    have hwarning : Level.ofName? (levelName (vars " +1_000")) = some .warning := by decide +kernel
    rw [← hname, Level.ofName?_name] at hwarning
    exact Option.some.inj hwarning
  have hlimit : limit = 1000 := by
    cases hforce with
    | kept h => cases (integerVariable_of_leaves h).symm.trans (integerVariable_of_integer hplain)
    | set h _ => rw [hsame hplain h]; rfl
  rw [hstart, hchosen, hlimit]
  rfl

/-- Settings that cannot be used, a status that is neither 0 nor 1, and no report. -/
theorem run_limit_beyond_word :
    let runtime : Runtime := ⟨3, 1000, some 4300, (· - 1)⟩
    let vars : Variables := fun name =>
      if name = "BL_RECURSION_LIMIT" then some "2147483648" else none
    let outcome := run runtime vars (Interpreter.new ∅ Host.none) (pipedEvents "(+ 1 1)\n")
    Unusable runtime vars ∧ outcome.ending ≠ .exit 0 ∧ outcome.ending ≠ .exit 1 ∧
      outcome.errors = "" := by
  intro runtime vars outcome
  have hlimit : LimitIs runtime vars 2147483648 := by
    refine ⟨"2147483648", rfl, ?_, ?_⟩ <;> decide +kernel
  have hlevel : KnownLevel vars := knownLevel_of_none rfl
  have hoverflow : LimitOverflows runtime vars := ⟨hlevel, 2147483648, hlimit, by decide⟩
  refine ⟨hoverflow.unusable, ?_⟩
  simp only [outcome, run, start_of_overflow hoverflow]
  exact ⟨nofun, nofun, trivial⟩

end Program

end PocketLisp

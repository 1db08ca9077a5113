import Mathlib.Data.List.Forall2
import Mathlib.Data.Nat.Digits.Defs
import PocketLisp.Proofs.Literal.Digits
import PocketLisp.Proofs.Value.Dotted

/-!
# The grammar of integer literals

What literals there are and what they denote, said without reading them (`Denotes`): an optional
minus sign and an unsigned literal in one of the four notations, whose value is the positional value
of its digits (`HasValue`). Reading accepts these and no others, with that value
(`integer?_eq_some_iff`), and no literal belongs to two notations (`Denotes.unique`).

Since letter case does not matter (`integer?_map_toLower`), an integer can be read back however its
letters are written (`integer?_write`).
-/

namespace PocketLisp.Literal

/-! ## Letter case -/

/-- The characters of a range, one by one. -/
theorem exists_ofNat {c : Char} {low n : Nat} (hlow : low ≤ c.toNat)
    (hhigh : c.toNat < low + n) : ∃ k < n, c = Char.ofNat (low + k) :=
  ⟨c.toNat - low, by omega, by rw [Nat.add_sub_cancel' hlow, Char.ofNat_toNat]⟩

/-- Only the capital letters have a lower case other than themselves. -/
theorem toLower_eq_self_or (c : Char) : c.toLower = c ∨ ∃ k < 26, c = Char.ofNat (65 + k) := by
  by_cases h : c.val ≥ 'A'.val ∧ c.val ≤ 'Z'.val
  · have hge : 65 ≤ c.toNat := h.1
    have hle : c.toNat ≤ 90 := h.2
    exact .inr (exists_ofNat hge (by omega))
  · exact .inl (dif_neg h)

/-- Only the small letters have an upper case other than themselves. -/
theorem toUpper_eq_self_or (c : Char) : c.toUpper = c ∨ ∃ k < 26, c = Char.ofNat (97 + k) := by
  by_cases h : 'a'.val ≤ c.val ∧ c.val ≤ 'z'.val
  · have hge : 97 ≤ c.toNat := h.1
    have hle : c.toNat ≤ 122 := h.2
    exact .inr (exists_ofNat hge (by omega))
  · exact .inl (dif_neg h)

theorem toLower_toUpper {c : Char} (h : c.toLower = c) : c.toUpper.toLower = c := by
  rcases toUpper_eq_self_or c with hc | ⟨k, hk, rfl⟩
  · rw [hc, h]
  · have hall : ∀ k < 26, (Char.ofNat (97 + k)).toUpper.toLower = Char.ofNat (97 + k) := by decide
    exact hall k hk

/-- A character is another one in lower case just if it is that one or its capital. -/
theorem toLower_eq_iff {c d : Char} (hd : d.toLower = d) :
    c.toLower = d ↔ c = d ∨ c = d.toUpper := by
  constructor
  · rintro rfl
    rcases toLower_eq_self_or c with hc | ⟨k, hk, rfl⟩
    · exact .inl hc.symm
    · have hall : ∀ k < 26, Char.ofNat (65 + k) = (Char.ofNat (65 + k)).toLower.toUpper := by decide
      exact .inr (hall k hk)
  · rintro (rfl | rfl)
    · exact hd
    · exact toLower_toUpper hd

theorem toLower_toLower (c : Char) : c.toLower.toLower = c.toLower := by
  rcases toLower_eq_self_or c with hc | ⟨k, hk, rfl⟩
  · rw [hc, hc]
  · have hall : ∀ k < 26,
        (Char.ofNat (65 + k)).toLower.toLower = (Char.ofNat (65 + k)).toLower := by
      decide
    exact hall k hk

/-- Whether a character is a letter, small or capital, does not depend on its case. -/
theorem toLower_either_iff {c d : Char} (hd : d.toLower = d) :
    (c.toLower = d ∨ c.toLower = d.toUpper) ↔ (c = d ∨ c = d.toUpper) := by
  rw [← toLower_eq_iff hd, toLower_toLower, toLower_eq_iff hd]

/-! ## Digits and their positional value -/

/-- The character is the digit of value `d` in the base, as a small or a capital letter. -/
def IsDigit (base : Nat) (c : Char) (d : Nat) : Prop :=
  d < base ∧ (c = d.digitChar ∨ c = d.digitChar.toUpper)

/-- The characters are digits in the base, and this is their positional value. -/
def HasValue (base : Nat) (cs : List Char) (n : Nat) : Prop :=
  ∃ ds, List.Forall₂ (IsDigit base) cs ds ∧ n = Nat.ofDigits base ds.reverse

theorem toLower_digitChar {d : Nat} (h : d < 16) : d.digitChar.toLower = d.digitChar := by
  have hall : ∀ d < 16, (Nat.digitChar d).toLower = Nat.digitChar d := by decide
  exact hall d h

theorem range_of_digitValue? {c : Char} {d : Nat} (h : digitValue? c = some d) :
    (48 ≤ c.toNat ∧ c.toNat ≤ 57) ∨ (97 ≤ c.toNat ∧ c.toNat ≤ 102) ∨
      (65 ≤ c.toNat ∧ c.toNat ≤ 70) := by
  unfold digitValue? at h
  split at h
  · next hc => exact .inl hc
  · split at h
    · next hc => exact .inr (.inl hc)
    · split at h
      · next hc => exact .inr (.inr hc)
      · cases h

/-- What holds of the characters of a range one by one holds of a digit in that range. -/
theorem digit_of_range {c : Char} {d : Nat} (low count first : Nat) (hlow : low ≤ c.toNat)
    (hhigh : c.toNat < low + count)
    (hall : ∀ k < count, digitValue? (Char.ofNat (low + k)) = some (first + k) ∧ first + k < 16 ∧
      (Char.ofNat (low + k) = (first + k).digitChar ∨
        Char.ofNat (low + k) = (first + k).digitChar.toUpper))
    (h : digitValue? c = some d) : d < 16 ∧ (c = d.digitChar ∨ c = d.digitChar.toUpper) := by
  obtain ⟨k, hk, rfl⟩ := exists_ofNat hlow hhigh
  obtain ⟨hvalue, hdigit⟩ := hall k hk
  obtain rfl := Option.some.inj (hvalue.symm.trans h)
  exact hdigit

/-- The digits that are read are the digits that there are. -/
theorem digitValue?_eq_some_iff {c : Char} {d : Nat} :
    digitValue? c = some d ↔ d < 16 ∧ (c = d.digitChar ∨ c = d.digitChar.toUpper) := by
  constructor
  · intro h
    rcases range_of_digitValue? h with ⟨hlow, hhigh⟩ | ⟨hlow, hhigh⟩ | ⟨hlow, hhigh⟩
    · exact digit_of_range 48 10 0 hlow (by omega) (by decide) h
    · exact digit_of_range 97 6 10 hlow (by omega) (by decide) h
    · exact digit_of_range 65 6 10 hlow (by omega) (by decide) h
  · rintro ⟨hd, rfl | rfl⟩
    · exact digitValue?_digitChar hd
    · have hall : ∀ d < 16, digitValue? (Nat.digitChar d).toUpper = some d := by decide
      exact hall d hd

theorem push?_eq_some_iff {base : Nat} (hbase : base ≤ 16) {n m : Nat} {c : Char} :
    push? base n c = some m ↔ ∃ d, IsDigit base c d ∧ m = base * n + d := by
  unfold push?
  constructor
  · intro h
    cases hc : digitValue? c with
    | none =>
      rw [hc] at h
      cases h
    | some d =>
      simp only [hc] at h
      split at h
      · next hd => exact ⟨d, ⟨hd, (digitValue?_eq_some_iff.1 hc).2⟩, (Option.some.inj h).symm⟩
      · cases h
  · rintro ⟨d, ⟨hd, hc⟩, rfl⟩
    rw [digitValue?_eq_some_iff.2 ⟨by omega, hc⟩]
    exact if_pos hd

/-- Reading digits one by one multiplies by the base and adds. -/
theorem foldlM_push?_eq_some_iff {base : Nat} (hbase : base ≤ 16) {cs : List Char} {n m : Nat} :
    cs.foldlM (push? base) n = some m ↔
      ∃ ds, List.Forall₂ (IsDigit base) cs ds ∧ m = ds.foldl (fun n d => base * n + d) n := by
  induction cs generalizing n with
  | nil =>
    constructor
    · intro h
      exact ⟨[], .nil, (Option.some.inj h).symm⟩
    · rintro ⟨ds, hds, rfl⟩
      cases hds
      rfl
  | cons c cs ih =>
    rw [List.foldlM_cons, Option.bind_eq_bind, Option.bind_eq_some_iff]
    constructor
    · rintro ⟨k, hk, hm⟩
      obtain ⟨d, hd, rfl⟩ := (push?_eq_some_iff hbase).1 hk
      obtain ⟨ds, hds, rfl⟩ := ih.1 hm
      exact ⟨d :: ds, .cons hd hds, rfl⟩
    · rintro ⟨ds, hds, rfl⟩
      cases hds with
      | @cons _ d _ ds hd hds =>
        exact ⟨base * n + d, (push?_eq_some_iff hbase).2 ⟨d, hd, rfl⟩, ih.2 ⟨ds, hds, rfl⟩⟩

/-- The positional value of digits, the most significant one first. -/
theorem ofDigits_reverse (base : Nat) (ds : List Nat) :
    Nat.ofDigits base ds.reverse = ds.foldl (fun n d => base * n + d) 0 := by
  rw [Nat.ofDigits_eq_foldr, List.foldr_reverse]
  simp only [Nat.cast_id, Nat.add_comm]

theorem digits?_eq_some_iff {base : Nat} (hbase : base ≤ 16) {cs : List Char} {n : Nat} :
    digits? base cs = some n ↔ HasValue base cs n := by
  simp only [digits?, foldlM_push?_eq_some_iff hbase, HasValue, ofDigits_reverse]

/-! ## Literals -/

/-- The notations of integers. -/
inductive Radix where
  | hexadecimal
  | binary
  | octal
  | decimal
  deriving DecidableEq, Repr

/-- The unsigned literals of each notation, and their values. -/
inductive Magnitude : Radix → List Char → Nat → Prop where
  | hexadecimal {mark : Char} {cs : List Char} {n : Nat} (hmark : mark = 'x' ∨ mark = 'X')
      (hcs : HasValue 16 cs n) : Magnitude .hexadecimal ('0' :: mark :: cs) n
  | binary {mark : Char} {cs : List Char} {n : Nat} (hmark : mark = 'b' ∨ mark = 'B')
      (hcs : HasValue 2 cs n) : Magnitude .binary ('0' :: mark :: cs) n
  | octal {cs : List Char} {n : Nat} (hcs : HasValue 8 cs n) : Magnitude .octal ('0' :: cs) n
  | decimal {c : Char} {cs : List Char} {n : Nat} (hc : c ≠ '0') (hcs : HasValue 10 (c :: cs) n) :
      Magnitude .decimal (c :: cs) n

/-- The literals of each notation, with a sign or without, and the integers they denote. -/
inductive Denotes : Radix → List Char → Int → Prop where
  | unsigned {radix : Radix} {cs : List Char} {n : Nat} (h : Magnitude radix cs n) :
      Denotes radix cs n
  | negative {radix : Radix} {cs : List Char} {n : Nat} (h : Magnitude radix cs n) :
      Denotes radix ('-' :: cs) (-(n : Int))

/-- A digit of a base up to ten is no mark of notation, and no sign. -/
theorem HasValue.head_not_mark {base : Nat} (hbase : base ≤ 10) {c : Char} {cs : List Char}
    {n : Nat} (h : HasValue base (c :: cs) n) : c ∉ ['x', 'X', 'b', 'B', '-'] := by
  obtain ⟨ds, hds, -⟩ := h
  cases hds with
  | @cons _ d _ _ hd _ =>
    have hvalue : digitValue? c = some d :=
      digitValue?_eq_some_iff.2 ⟨Nat.lt_of_lt_of_le hd.1 (by omega), hd.2⟩
    have hmarks : ['x', 'X', 'b', 'B', '-'].all
        (fun c => digitValue? c == none || digitValue? c == some 11) = true := by
      decide
    intro hmem
    have hlt := hd.1
    have hc : digitValue? c = none ∨ digitValue? c = some 11 := by
      simpa using List.all_eq_true.1 hmarks c hmem
    rcases hc with hc | hc
    · rw [hc] at hvalue
      cases hvalue
    · rw [hc] at hvalue
      have := Option.some.inj hvalue
      omega

theorem magnitude?_octal {cs : List Char} (h : ∀ c ∈ cs.head?, c ∉ ['x', 'X', 'b', 'B']) :
    magnitude? ('0' :: cs) = digits? 8 cs := by
  cases cs with
  | nil => rfl
  | cons c cs =>
    have hc := h c rfl
    simp only [List.mem_cons, List.not_mem_nil, or_false, not_or] at hc
    obtain ⟨hx, hX, hb, hB⟩ := hc
    simp [magnitude?, hx, hX, hb, hB]

theorem Magnitude.magnitude?_eq {radix : Radix} {cs : List Char} {n : Nat}
    (h : Magnitude radix cs n) : magnitude? cs = some n := by
  cases h with
  | @hexadecimal mark cs n hmark hcs =>
    have hread := (digits?_eq_some_iff (by decide)).2 hcs
    simpa [magnitude?, hmark] using hread
  | @binary mark cs n hmark hcs =>
    have hread := (digits?_eq_some_iff (by decide)).2 hcs
    rcases hmark with rfl | rfl <;> simpa [magnitude?] using hread
  | @octal cs n hcs =>
    rw [magnitude?_octal]
    · exact (digits?_eq_some_iff (by decide)).2 hcs
    · intro c hc hmem
      cases cs with
      | nil => cases hc
      | cons d cs =>
        cases hc
        exact hcs.head_not_mark (by decide) (List.mem_append_left ['-'] hmem)
  | decimal hc hcs =>
    rw [magnitude?_of_ne_zero hc]
    exact (digits?_eq_some_iff (by decide)).2 hcs

theorem exists_magnitude {cs : List Char} {n : Nat} (h : magnitude? cs = some n) :
    ∃ radix, Magnitude radix cs n := by
  have hread {base : Nat} (hbase : base ≤ 16) {ds : List Char} (hds : digits? base ds = some n) :
      HasValue base ds n :=
    (digits?_eq_some_iff hbase).1 hds
  unfold magnitude? at h
  split at h
  · cases h
  · next cs =>
    cases cs with
    | nil => exact ⟨_, .octal (hread (by decide) h)⟩
    | cons c ds =>
      simp only at h
      split at h
      · next hmark => exact ⟨_, .hexadecimal hmark (hread (by decide) h)⟩
      · split at h
        · next hmark => exact ⟨_, .binary hmark (hread (by decide) h)⟩
        · exact ⟨_, .octal (hread (by decide) h)⟩
  · next hne hzero =>
    cases cs with
    | nil => exact absurd rfl hne
    | cons c ds =>
      exact ⟨_, .decimal (fun hc => hzero ds (by rw [hc])) (hread (by decide) h)⟩

/-- The notation that an unsigned literal announces by how it begins. -/
def announced : List Char → Radix
  | '0' :: c :: _ =>
    if c = 'x' ∨ c = 'X' then .hexadecimal else if c = 'b' ∨ c = 'B' then .binary else .octal
  | ['0'] => .octal
  | _ => .decimal

theorem Magnitude.eq_announced {radix : Radix} {cs : List Char} {n : Nat}
    (h : Magnitude radix cs n) : radix = announced cs := by
  cases h with
  | hexadecimal hmark _ => simp [announced, hmark]
  | binary hmark _ => rcases hmark with rfl | rfl <;> rfl
  | @octal cs n hcs =>
    cases cs with
    | nil => rfl
    | cons c cs =>
      have hmark := hcs.head_not_mark (by decide)
      simp only [List.mem_cons, List.not_mem_nil, or_false, not_or] at hmark
      obtain ⟨hx, hX, hb, hB, -⟩ := hmark
      simp [announced, hx, hX, hb, hB]
  | @decimal c cs n hc _ => simp [announced, hc]

/-- An unsigned literal does not begin with a sign. -/
theorem Magnitude.exists_head {radix : Radix} {cs : List Char} {n : Nat}
    (h : Magnitude radix cs n) : ∃ c ds, cs = c :: ds ∧ c ≠ '-' := by
  cases h with
  | decimal _ hcs =>
    refine ⟨_, _, rfl, ?_⟩
    rintro rfl
    exact hcs.head_not_mark (by decide) (by decide)
  | _ => exact ⟨'0', _, rfl, by decide⟩

/-- Without a sign, a literal is read as its magnitude. -/
theorem Magnitude.integer?_eq {radix : Radix} {cs : List Char} {n : Nat}
    (h : Magnitude radix cs n) : integer? cs = some (n : Int) := by
  obtain ⟨c, ds, rfl, hc⟩ := h.exists_head
  rw [integer?_of_ne_minus hc, h.magnitude?_eq]
  rfl

theorem integer?_eq_some_iff {cs : List Char} {n : Int} :
    integer? cs = some n ↔ ∃ radix, Denotes radix cs n := by
  constructor
  · intro h
    unfold integer? at h
    split at h
    · next ds =>
      cases hm : magnitude? ds with
      | none =>
        rw [hm] at h
        cases h
      | some m =>
        rw [hm] at h
        obtain ⟨radix, hmagnitude⟩ := exists_magnitude hm
        obtain rfl : -(m : Int) = n := Option.some.inj h
        exact ⟨radix, .negative hmagnitude⟩
    · cases hm : magnitude? cs with
      | none =>
        rw [hm] at h
        cases h
      | some m =>
        rw [hm] at h
        obtain ⟨radix, hmagnitude⟩ := exists_magnitude hm
        obtain rfl : (m : Int) = n := Option.some.inj h
        exact ⟨radix, .unsigned hmagnitude⟩
  · rintro ⟨radix, h⟩
    cases h with
    | unsigned h => exact h.integer?_eq
    | negative h => rw [integer?_minus, h.magnitude?_eq]; rfl

/-- A text is a literal of one notation at most, and denotes one integer. -/
theorem Denotes.unique {radix radix' : Radix} {cs : List Char} {n n' : Int}
    (h : Denotes radix cs n) (h' : Denotes radix' cs n') : radix' = radix ∧ n' = n := by
  have hread := integer?_eq_some_iff.2 ⟨radix, h⟩
  rw [integer?_eq_some_iff.2 ⟨radix', h'⟩] at hread
  refine ⟨?_, Option.some.inj hread⟩
  cases h with
  | unsigned hm =>
    cases h' with
    | unsigned hm' => rw [hm.eq_announced, hm'.eq_announced]
    | negative _ =>
      obtain ⟨c, ds, hcs, hc⟩ := hm.exists_head
      exact absurd (List.cons.inj hcs).1.symm hc
  | negative hm =>
    cases h' with
    | unsigned hm' =>
      obtain ⟨c, ds, hcs, hc⟩ := hm'.exists_head
      exact absurd (List.cons.inj hcs).1.symm hc
    | negative hm' => rw [hm.eq_announced, hm'.eq_announced]

/-! ## Letter case does not matter -/

theorem digitValue?_toLower (c : Char) : digitValue? c.toLower = digitValue? c := by
  apply Option.ext
  intro d
  rw [digitValue?_eq_some_iff, digitValue?_eq_some_iff]
  exact and_congr_right fun hd => toLower_either_iff (toLower_digitChar hd)

theorem digits?_map_toLower (base : Nat) (cs : List Char) :
    digits? base (cs.map Char.toLower) = digits? base cs := by
  have hpush : (fun n c => push? base n (Char.toLower c)) = push? base := by
    funext n c
    rw [push?, digitValue?_toLower, push?]
  rw [digits?, List.foldlM_map, hpush, digits?]

theorem magnitude?_map_toLower (cs : List Char) :
    magnitude? (cs.map Char.toLower) = magnitude? cs := by
  cases cs with
  | nil => rfl
  | cons c cs =>
    by_cases hc : c = '0'
    · subst hc
      cases cs with
      | nil => rfl
      | cons c ds =>
        have hx : (c.toLower = 'x' ∨ c.toLower = 'X') ↔ (c = 'x' ∨ c = 'X') :=
          toLower_either_iff (d := 'x') (by decide)
        have hb : (c.toLower = 'b' ∨ c.toLower = 'B') ↔ (c = 'b' ∨ c = 'B') :=
          toLower_either_iff (d := 'b') (by decide)
        have hdigits := digits?_map_toLower 8 (c :: ds)
        rw [List.map_cons] at hdigits
        simp only [List.map_cons, magnitude?, show '0'.toLower = '0' by decide, hx, hb,
          digits?_map_toLower, hdigits]
    · have hlower : c.toLower ≠ '0' := by
        intro h
        rcases (toLower_eq_iff (by decide)).1 h with h | h
        · exact hc h
        · exact hc h
      rw [List.map_cons, magnitude?_of_ne_zero hlower, magnitude?_of_ne_zero hc,
        ← List.map_cons, digits?_map_toLower]

theorem integer?_map_toLower (cs : List Char) : integer? (cs.map Char.toLower) = integer? cs := by
  cases cs with
  | nil => rfl
  | cons c cs =>
    by_cases hc : c = '-'
    · subst hc
      rw [List.map_cons, show '-'.toLower = '-' by decide, integer?_minus, integer?_minus,
        magnitude?_map_toLower]
    · have hlower : c.toLower ≠ '-' := by
        intro h
        rcases (toLower_eq_iff (by decide)).1 h with h | h
        · exact hc h
        · exact hc h
      rw [List.map_cons, integer?_of_ne_minus hlower, integer?_of_ne_minus hc, ← List.map_cons,
        magnitude?_map_toLower]

/-! ## Integers written in each notation -/

namespace Radix

def base : Radix → Nat
  | hexadecimal => 16
  | binary => 2
  | octal => 8
  | decimal => 10

/-- How the digits of a notation are announced. -/
def mark : Radix → List Char
  | hexadecimal => ['0', 'x']
  | binary => ['0', 'b']
  | octal => ['0']
  | decimal => []

/-- An integer in a notation, in small letters and with so many zeros in front of its digits. -/
def write (radix : Radix) (zeros : Nat) (n : Int) : List Char :=
  (if n < 0 then ['-'] else []) ++
    (radix.mark ++ (List.replicate zeros '0' ++ Nat.toDigits radix.base n.natAbs))

end Radix

/-- Zeros in front do not change the value. -/
theorem digits?_replicate_zero {base : Nat} (hbase : 0 < base) (zeros : Nat) (cs : List Char) :
    digits? base (List.replicate zeros '0' ++ cs) = digits? base cs := by
  induction zeros with
  | zero => rfl
  | succ zeros ih =>
    have hpush : push? base 0 '0' = some 0 := by
      simp [push?, show digitValue? '0' = some 0 by decide, hbase]
    rw [digits?] at ih
    rw [digits?, List.replicate_succ, List.cons_append, List.foldlM_cons, hpush]
    exact ih

theorem magnitude?_write (radix : Radix) {zeros : Nat} (hzeros : radix = .decimal → zeros = 0)
    (n : Nat) :
    magnitude? (radix.mark ++ (List.replicate zeros '0' ++ Nat.toDigits radix.base n)) =
      some n := by
  have hvalue {base : Nat} (hone : 1 < base) (hbase : base ≤ 16) :
      HasValue base (List.replicate zeros '0' ++ Nat.toDigits base n) n := by
    rw [← digits?_eq_some_iff hbase, digits?_replicate_zero (by omega)]
    exact digits?_toDigits hone hbase n
  cases radix with
  | hexadecimal =>
    exact (Magnitude.hexadecimal (.inl rfl) (hvalue (by decide) (by decide))).magnitude?_eq
  | binary => exact (Magnitude.binary (.inl rfl) (hvalue (by decide) (by decide))).magnitude?_eq
  | octal => exact (Magnitude.octal (hvalue (by decide) (by decide))).magnitude?_eq
  | decimal =>
    -- Zero is written like an octal literal, so there is no single rule for decimal text.
    rw [hzeros rfl]
    exact magnitude?_toDigits n

/-- What is written for an integer is read as that integer. -/
theorem integer?_write (radix : Radix) {zeros : Nat} (hzeros : radix = .decimal → zeros = 0)
    (n : Int) : integer? (radix.write zeros n) = some n := by
  have hmagnitude := magnitude?_write radix hzeros n.natAbs
  unfold Radix.write
  split
  · next hn =>
    rw [List.singleton_append, integer?_minus, hmagnitude]
    show some (-(n.natAbs : Int)) = some n
    rw [Int.ofNat_natAbs_of_nonpos (by omega), Int.neg_neg]
  · next hn =>
    obtain ⟨radix', hm⟩ := exists_magnitude hmagnitude
    rw [List.nil_append, hm.integer?_eq, Int.natAbs_of_nonneg (by omega)]

/-- The printed text of an integer is its decimal text. -/
theorem toList_toString_eq_write (n : Int) : (toString n).toList = Radix.decimal.write 0 n := by
  rw [toList_toString, Radix.write]
  split
  · next hn =>
    rw [if_neg (by omega), show n.toNat = n.natAbs by omega]
    rfl
  · next hn =>
    rw [if_pos (by omega), show (-n).toNat = n.natAbs by omega]
    rfl

/-- **Reading decides the grammar of literals.** A text is read as an integer just if it is a
literal that denotes it, and as none just if it is no literal; the notation is then the only one and
the integer too. The printed text of an integer is its decimal text and is read as that integer, and
so is every text that differs in letter case only from the integer written in one of the notations,
with a sign if it is negative and, behind the mark of any but the decimal one, as many zeros as you
like. -/
theorem parse?_decides_grammar :
    (∀ (text : String) (n : Int), parse? text = some n ↔ ∃ radix, Denotes radix text.toList n) ∧
    (∀ text : String, parse? text = none ↔ ∀ radix n, ¬ Denotes radix text.toList n) ∧
    (∀ (radix radix' : Radix) (cs : List Char) (n n' : Int),
      Denotes radix cs n → Denotes radix' cs n' → radix' = radix ∧ n' = n) ∧
    (∀ n : Int, ∃ text, (Value.int n).print = .ok text ∧
      text.toList = Radix.decimal.write 0 n ∧ parse? text = some n) ∧
    ∀ (radix : Radix) (zeros : Nat) (n : Int) (text : String), (radix = .decimal → zeros = 0) →
      text.toList.map Char.toLower = radix.write zeros n → parse? text = some n := by
  refine ⟨fun text n => integer?_eq_some_iff, ?_, fun _ _ _ _ _ h h' => h.unique h', ?_, ?_⟩
  · intro text
    rw [Option.eq_none_iff_forall_ne_some]
    constructor
    · intro hnone radix n hdenotes
      exact hnone n (integer?_eq_some_iff.2 ⟨radix, hdenotes⟩)
    · intro hnot n hread
      obtain ⟨radix, hdenotes⟩ := integer?_eq_some_iff.1 hread
      exact hnot radix n hdenotes
  · intro n
    exact ⟨toString n, Value.print_of_printable (v := .int n) trivial,
      toList_toString_eq_write n, parse?_toString n⟩
  · intro radix zeros n text hzeros htext
    rw [parse?, ← integer?_map_toLower, htext]
    exact integer?_write radix hzeros n

/-- `-0X00fF` is minus 255; `0` is octal and denotes zero only; `08` denotes nothing. -/
theorem parse?_decides_grammar_mixed_case :
    "-0X00fF".toList.map Char.toLower = Radix.hexadecimal.write 2 (-255) ∧
    parse? "-0X00fF" = some (-255) ∧
    (∀ radix n, Denotes radix "0".toList n → radix = .octal ∧ n = 0) ∧
    ∀ radix n, ¬ Denotes radix "08".toList n := by
  have htext : "-0X00fF".toList.map Char.toLower = Radix.hexadecimal.write 2 (-255) := by
    decide +kernel
  have hzero : Denotes .octal "0".toList 0 := .unsigned (.octal ⟨[], .nil, rfl⟩)
  obtain ⟨-, hnone, hunique, -, hwrite⟩ := parse?_decides_grammar
  refine ⟨htext, hwrite .hexadecimal 2 (-255) _ nofun htext, ?_, ?_⟩
  · intro radix n h
    exact hunique _ _ _ _ _ hzero h
  · exact (hnone "08").1 (by decide +kernel)

end PocketLisp.Literal

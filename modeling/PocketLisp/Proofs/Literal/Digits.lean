import PocketLisp.Literal

/-!
# Digits written and read

Numbers are written in a base by the digits of core (`Nat.toDigits`) and read by `Literal.digits?`.
Reading undoes writing in every base up to sixteen (`digits?_toDigits`). The decimal text of an
integer begins with a sign or with a digit other than zero, unless it is zero itself, so that no
mark of another notation is ever seen in it; hence it is a literal of that integer
(`parse?_toString`).
-/

namespace PocketLisp.Literal

/-! ## Digits in a base -/

/-- A digit is written so that its value can be read off it. -/
theorem digitValue?_digitChar {d : Nat} (h : d < 16) : digitValue? d.digitChar = some d := by
  have hall : ∀ d < 16, digitValue? (Nat.digitChar d) = some d := by decide
  exact hall d h

theorem push?_digitChar {base d : Nat} (hd : d < base) (hbase : base ≤ 16) (n : Nat) :
    push? base n d.digitChar = some (base * n + d) := by
  rw [push?, digitValue?_digitChar (by omega)]
  exact if_pos hd

/-- Reading the digits of a number gives the number back. -/
theorem digits?_toDigits {base : Nat} (hone : 1 < base) (hbase : base ≤ 16) (n : Nat) :
    digits? base (Nat.toDigits base n) = some n := by
  induction n using Nat.strongRecOn with
  | ind n ih =>
    rw [Nat.toDigits_eq_if hone]
    split
    · next hn => simp [digits?, push?_digitChar hn hbase]
    · next hn =>
      -- All digits but the last are those of the quotient, and the last one is the remainder.
      have hquot : n / base < n := Nat.div_lt_self (by omega) hone
      have hfront : (Nat.toDigits base (n / base)).foldlM (push? base) 0 = some (n / base) :=
        ih (n / base) hquot
      have hlast := push?_digitChar (Nat.mod_lt n (by omega)) hbase (n / base)
      rw [digits?, List.foldlM_append, hfront]
      simp [hlast, Nat.div_add_mod]

/-- The first digit of a number is not zero, unless the number is. -/
theorem toDigits_head {base : Nat} (hone : 1 < base) {n : Nat} (hn : 0 < n) :
    ∃ d ds, Nat.toDigits base n = Nat.digitChar d :: ds ∧ 0 < d ∧ d < base := by
  induction n using Nat.strongRecOn with
  | ind n ih =>
    rw [Nat.toDigits_eq_if hone]
    split
    · next hlt => exact ⟨n, [], rfl, hn, hlt⟩
    · next hge =>
      have hquot : 0 < n / base := Nat.div_pos (by omega) (by omega)
      obtain ⟨d, ds, hds, hd⟩ := ih (n / base) (Nat.div_lt_self hn hone) hquot
      exact ⟨d, ds ++ [(n % base).digitChar], by rw [hds]; rfl, hd⟩

/-! ## Decimal text -/

/-- Digits that do not begin with a zero are decimal. -/
theorem magnitude?_of_ne_zero {c : Char} (hc : c ≠ '0') (cs : List Char) :
    magnitude? (c :: cs) = digits? 10 (c :: cs) := by
  unfold magnitude?
  split
  · next heq => cases heq
  · next heq => exact absurd (List.cons.inj heq).1 hc
  · rfl

theorem magnitude?_toDigits (n : Nat) : magnitude? (Nat.toDigits 10 n) = some n := by
  rcases Nat.eq_zero_or_pos n with rfl | hn
  · rfl
  · obtain ⟨d, ds, hds, hpos, hlt⟩ := toDigits_head (show 1 < 10 by decide) hn
    have hzero : Nat.digitChar d ≠ '0' := by simp; omega
    rw [hds, magnitude?_of_ne_zero hzero, ← hds]
    exact digits?_toDigits (by decide) (by decide) n

theorem integer?_minus (cs : List Char) :
    integer? ('-' :: cs) = (magnitude? cs).map fun n => -(n : Int) := rfl

theorem integer?_of_ne_minus {c : Char} (hc : c ≠ '-') (cs : List Char) :
    integer? (c :: cs) = (magnitude? (c :: cs)).map fun n => (n : Int) := by
  unfold integer?
  split
  · next heq => exact absurd (List.cons.inj heq).1 hc
  · rfl

/-- The characters of the decimal text of an integer: a sign if it is negative, and the digits. -/
theorem toList_toString (n : Int) :
    (toString n).toList =
      if 0 ≤ n then Nat.toDigits 10 n.toNat else '-' :: Nat.toDigits 10 (-n).toNat := by
  rw [Int.toString_eq_repr, Int.repr_eq_if]
  split
  · exact Nat.toList_repr
  · simp [Nat.toList_repr]

theorem isDigit_or_minus_of_mem_toString {n : Int} {c : Char} (h : c ∈ (toString n).toList) :
    c.isDigit = true ∨ c = '-' := by
  rw [toList_toString] at h
  split at h
  · exact .inl (Nat.isDigit_of_mem_toDigits (by decide) (by decide) h)
  · rcases List.mem_cons.1 h with h | h
    · exact .inr h
    · exact .inl (Nat.isDigit_of_mem_toDigits (by decide) (by decide) h)

/-- The decimal text of an integer is a literal of it. -/
theorem parse?_toString (n : Int) : parse? (toString n) = some n := by
  rw [parse?, toList_toString]
  split
  · next hn =>
    -- The text begins with a digit, which is no sign.
    obtain ⟨c, cs, hcs⟩ := List.exists_cons_of_ne_nil (Nat.toDigits_ne_nil (n := n.toNat) (b := 10))
    have hdigit : c.isDigit = true := by
      apply Nat.isDigit_of_mem_toDigits (b := 10) (n := n.toNat) (by decide) (by decide)
      rw [hcs]
      exact List.mem_cons_self
    have hminus : c ≠ '-' := by
      rintro rfl
      cases hdigit
    rw [hcs, integer?_of_ne_minus hminus, ← hcs, magnitude?_toDigits]
    simp [Int.toNat_of_nonneg hn]
  · next hn =>
    rw [integer?_minus, magnitude?_toDigits]
    show some (-((-n).toNat : Int)) = some n
    rw [Int.toNat_of_nonneg (by omega), Int.neg_neg]

end PocketLisp.Literal

import PocketLisp.Proofs.Reader.TokenLines

/-!
# More room for nesting forms

The limit is looked at in one place, where a list or a quotation is opened, and there it only
refuses. A form that was not refused at one limit is therefore read just so at every larger one
(`Reader.read_extends`): the same result comes of it, and the reader is left in the same state.
-/

namespace PocketLisp

variable {limit limit' : Nat}

theorem Form.push_extends (hlimit : limit ≤ limit') {openers : List Opener} {opener : Opener}
    (h : push limit openers opener ≠ .tooDeep) :
    push limit' openers opener = push limit openers opener := by
  unfold push at h ⊢
  by_cases hroom : openers.length + 2 ≤ limit
  · rw [if_pos hroom, if_pos (by omega)]
  · rw [if_neg hroom] at h
    exact absurd rfl h

theorem Form.feed_extends (hlimit : limit ≤ limit') {naming : Naming} {openers : List Opener}
    {token : Token} (h : feed naming limit openers token ≠ .tooDeep) :
    feed naming limit' openers token = feed naming limit openers token := by
  cases token with
  | lparen => exact push_extends hlimit h
  | tick => exact push_extends hlimit h
  | atom text => rfl
  | rparen => rfl

namespace Reader

theorem readFrom_extends (hlimit : limit ≤ limit') {openers : List Opener} {r : Reader}
    (h : (r.readFrom limit openers).1 ≠ .error .tooDeep) :
    r.readFrom limit' openers = r.readFrom limit openers := by
  fun_induction readFrom limit openers r with
  | case1 openers r e r₁ hnext => rw [readFrom_of_error hnext]
  | case2 openers r token r₁ hnext _ openers' hfeed ih =>
    have hfeed' : Form.feed r₁.naming limit' openers token = .more openers' := by
      rw [Form.feed_extends hlimit (by simp [hfeed]), hfeed]
    rw [readFrom_of_ok hnext, hfeed']
    exact ih h
  | case3 openers r token r₁ hnext _ item hfeed =>
    rw [readFrom_of_ok hnext, Form.feed_extends hlimit (by simp [hfeed]), hfeed]
    rfl
  | case4 openers r token r₁ hnext _ hfeed =>
    rw [readFrom_of_ok hnext, Form.feed_extends hlimit (by simp [hfeed]), hfeed]
    rfl
  | case5 => exact absurd rfl h

theorem readOne_extends (hlimit : limit ≤ limit') {r : Reader}
    (h : (r.readOne limit).1 ≠ .error .tooDeep) : r.readOne limit' = r.readOne limit :=
  readFrom_extends hlimit h

/-- Raising the limit changes no reading that was not refused, nor what it leaves behind. -/
theorem read_extends (hlimit : limit ≤ limit') {r : Reader}
    (h : (r.read limit).1 ≠ .error .tooDeep) : r.read limit' = r.read limit := by
  fun_induction read limit r with
  | case1 r v r₁ hone =>
    have hone' := readOne_extends hlimit (r := r.atBoundary) (by simp [hone])
    rw [read_of_form (hone'.trans hone)]
  | case2 r r₁ hone _ ih =>
    have hone' := readOne_extends hlimit (r := r.atBoundary) (by simp [hone])
    rw [read_of_close (hone'.trans hone)]
    exact ih h
  | case3 r e r₁ hone =>
    have hone' := readOne_extends hlimit (r := r.atBoundary) (by simpa [hone] using h)
    rw [read_of_error (hone'.trans hone)]

end Reader

end PocketLisp

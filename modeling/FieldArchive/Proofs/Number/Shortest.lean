import FieldArchive.Json.Number
import FieldArchive.Proofs.Json.Text

/-!
# Spelling of shortest decimals

A shortest decimal is `0` or starts with a digit that is not zero, because the
interval of a positive magnitude leaves out zero.  So the numeral of a real is
spelled as the grammar of numerals wants it.
-/

namespace FieldArchive

namespace Digits

theorem dropWhile_append_singleton (xs : List Digit) {d : Digit} (h : d ≠ 0) :
    (xs ++ [d]).dropWhile (fun d => d == 0) = xs.dropWhile (fun d => d == 0) ++ [d] := by
  induction xs with
  | nil => simp [h]
  | cons x xs ih =>
      by_cases hx : x = 0
      · simp [hx, ih]
      · simp [hx]

/-- Dropping zeros at the end keeps a first digit that is not zero. -/
theorem exists_cons_dropTrailingZeros {d : Digit} (ds : List Digit) (h : d.val ≠ 0) :
    ∃ rest, dropTrailingZeros (d :: ds) = d :: rest := by
  have hd : d ≠ 0 := fun e => h (by simp [e])
  refine ⟨(ds.reverse.dropWhile fun d => d == 0).reverse, ?_⟩
  rw [dropTrailingZeros, List.reverse_cons, dropWhile_append_singleton _ hd]
  simp

end Digits

namespace Shortest

/-- A target whose interval leaves out zero. -/
structure Target.IsPositive (t : Target) : Prop where
  low : 0 < t.low
  value : 0 < t.value

theorem Target.accepts_zero {t : Target} (h : t.IsPositive) : t.accepts 0 = false := by
  have hLow := h.low
  unfold Target.accepts
  cases t.closed <;> simp
  omega

/-- The nearest multiple of a grid rounds to the target. -/
theorem Target.accepts_of_nearest? {t : Target} {tie : Tie} {grid factor : Nat}
    (h : t.nearest? tie grid = some factor) : t.accepts (factor * grid) = true := by
  unfold Target.nearest? at h
  dsimp only at h
  split at h
  · contradiction
  · next hBelow _ =>
      cases h
      exact hBelow
  · next _ hAbove =>
      cases h
      exact hAbove
  · next hBelow hAbove =>
      -- whichever multiple is nearer, both round to the target
      have hEither : factor = t.value / grid ∨ factor = t.value / grid + 1 := by
        cases tie <;> grind
      rcases hEither with rfl | rfl
      · exact hBelow
      · exact hAbove

theorem Target.nearest?_pos {t : Target} (h : t.IsPositive) {tie : Tie} {grid factor : Nat}
    (hNearest : t.nearest? tie grid = some factor) : 0 < factor := by
  refine Nat.pos_of_ne_zero fun hZero => ?_
  have hAccepts := Target.accepts_of_nearest? hNearest
  rw [hZero, Nat.zero_mul, Target.accepts_zero h] at hAccepts
  contradiction

theorem Target.le_high_of_accepts {t : Target} {n : Nat} (h : t.accepts n = true) :
    n ≤ t.high := by
  unfold Target.accepts at h
  split at h
  · exact (of_decide_eq_true h).2
  · exact Nat.le_of_lt (of_decide_eq_true h).2

/-- What is found is not above the interval of the target. -/
theorem Target.search_le {t : Target} (h : t.value ≤ t.high) (tie : Tie) (power : Nat) :
    (t.search tie power).1 * 10 ^ (t.search tie power).2 ≤ t.high := by
  induction power with
  | zero => simpa [Target.search] using h
  | succ power ih =>
      unfold Target.search
      split
      · next factor hNearest =>
          exact Target.le_high_of_accepts (Target.accepts_of_nearest? hNearest)
      · exact ih

theorem Target.search_pos {t : Target} (h : t.IsPositive) (tie : Tie) (power : Nat) :
    0 < (t.search tie power).1 := by
  induction power with
  | zero => exact h.value
  | succ power ih =>
      unfold Target.search
      split
      · next factor hNearest => exact Target.nearest?_pos h hNearest
      · exact ih

theorem isPositive_target (f : Format) {m : Format.Magnitude} (h : m.significand ≠ 0) :
    (target f m).IsPositive := by
  have hQuarter : 0 < Nat.pow 5 (places f) <<< m.shift := by
    rw [Nat.shiftLeft_eq]
    have hFive : 0 < Nat.pow 5 (places f) := Nat.pow_pos (by decide)
    exact Nat.mul_pos hFive (Nat.pow_pos (by decide))
  have hValue : 4 * (Nat.pow 5 (places f) <<< m.shift) ≤
      4 * m.significand * (Nat.pow 5 (places f) <<< m.shift) := by
    rw [Nat.mul_assoc]
    exact Nat.mul_le_mul_left 4 (Nat.le_mul_of_pos_left _ (Nat.pos_of_ne_zero h))
  refine ⟨?_, ?_⟩
  · simp only [target]
    split <;> omega
  · simp only [target]
    omega

/-- A shortest decimal is the digit zero or starts with another digit. -/
theorem decimal_digits (f : Format) (tie : Tie) (pattern : Nat) :
    decimal f tie pattern = ⟨[.zero], 0⟩ ∨
      ∃ d rest, (decimal f tie pattern).digits = d :: rest ∧ d.val ≠ 0 := by
  unfold decimal
  simp only
  split
  · exact Or.inl rfl
  · next hNonzero =>
      right
      have hFactor := Target.search_pos (isPositive_target f hNonzero) tie
        ((Digits.ofNat (target f (f.magnitude pattern)).value).length - 1)
      obtain ⟨d, ds, hDigits, hd⟩ := Digits.exists_cons_ofNat hFactor
      obtain ⟨rest, hRest⟩ := Digits.exists_cons_dropTrailingZeros ds hd
      exact ⟨d, rest, by rw [hDigits, hRest], hd⟩

end Shortest

/-- The digits before the point are one digit or do not start with zero. -/
theorem Decimal.positional_whole {x : Decimal}
    (h : x = ⟨[.zero], 0⟩ ∨ ∃ d rest, x.digits = d :: rest ∧ d.val ≠ 0) :
    ∃ d rest, x.positional.1 = d :: rest ∧ (rest = [] ∨ d.val ≠ 0) := by
  rcases h with rfl | ⟨d, ds, hDigits, hd⟩
  · exact ⟨Digit.zero, [], rfl, Or.inl rfl⟩
  · unfold Decimal.positional
    split
    · exact ⟨Digit.zero, [], rfl, Or.inl rfl⟩
    · exact ⟨d, _, by rw [hDigits]; rfl, Or.inr hd⟩

/-- The numeral of a real is spelled as the grammar wants it. -/
theorem Binary.isWritten_numeral {f : Format} (x : Binary f) : x.numeral.IsWritten := by
  have hDigits := Shortest.decimal_digits f .even x.pattern
  unfold Binary.numeral Numeral.IsWritten
  simp only
  split
  · exact Decimal.positional_whole hDigits
  · rcases hDigits with hZero | ⟨d, ds, hd, -⟩
    · exact ⟨Digit.zero, [], by rw [hZero]; rfl, Or.inl rfl⟩
    · exact ⟨d, [], by rw [hd]; rfl, Or.inl rfl⟩

theorem Binary.isWritten_toJson {f : Format} (x : Binary f) : x.toJson.IsWritten := by
  unfold Binary.toJson
  split
  · exact .number x.isWritten_numeral
  · exact .null

end FieldArchive

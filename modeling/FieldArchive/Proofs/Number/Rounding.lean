import FieldArchive.Number.Binary
import Mathlib.Data.Nat.Log
import Mathlib.Tactic.Ring

/-!
# Rounding keeps order

A ratio that is not larger is rounded to a pattern that is not larger, also where
the significand is cut to fewer bits, and patterns are in the order of their
magnitudes.  So products, quotients and conversions keep order in each argument, and
a bound on a pattern is checked at one value.
-/

namespace FieldArchive.Format

/-! ## Quotients -/

/-- A quotient is rounded above a number if it is above the middle between that number
and the next, or at it if the number is odd. -/
theorem lt_divNearest_iff {a b n : Nat} (hb : 0 < b) : n < divNearest a b ↔
    (2 * n + 1) * b < 2 * a ∨ (2 * n + 1) * b = 2 * a ∧ n % 2 = 1 := by
  have hSplit : b * (a / b) + a % b = a := Nat.div_add_mod a b
  have hRest : a % b < b := Nat.mod_lt a hb
  set q := a / b
  set r := a % b
  have hTwice : 2 * a = 2 * (b * q) + 2 * r := by rw [← hSplit]; ring
  have hMiddle : (2 * n + 1) * b = 2 * (b * n) + b := by ring
  have hValue : divNearest a b = if b < 2 * r ∨ (b = 2 * r ∧ q % 2 = 1) then q + 1 else q := rfl
  rw [hTwice, hMiddle, hValue]
  rcases Nat.lt_trichotomy n q with hLt | rfl | hGt
  · have hBelow : b * (n + 1) ≤ b * q := Nat.mul_le_mul_left b hLt
    rw [Nat.mul_add, Nat.mul_one] at hBelow
    split <;> omega
  · split <;> omega
  · have hAbove : b * (q + 1) ≤ b * n := Nat.mul_le_mul_left b hGt
    rw [Nat.mul_add, Nat.mul_one] at hAbove
    split <;> omega

theorem divNearest_le {a b n : Nat} (hb : 0 < b) (h : a ≤ n * b) : divNearest a b ≤ n := by
  refine Nat.not_lt.1 fun hLt => ?_
  have hMiddle : (2 * n + 1) * b = 2 * (n * b) + b := by ring
  rcases (lt_divNearest_iff hb).1 hLt with hBelow | ⟨hAt, -⟩ <;> omega

theorem le_divNearest {a b n : Nat} (hb : 0 < b) (h : n * b ≤ a) : n ≤ divNearest a b := by
  cases n with
  | zero => exact Nat.zero_le _
  | succ n =>
      have hMiddle : (2 * n + 1) * b + b = 2 * ((n + 1) * b) := by ring
      exact (lt_divNearest_iff hb).2 (Or.inl (by omega))

/-- A quotient that is not larger is rounded to a number that is not larger. -/
theorem divNearest_mono {a b a' b' : Nat} (hb : 0 < b) (hb' : 0 < b')
    (h : a * b' ≤ a' * b) : divNearest a b ≤ divNearest a' b' := by
  refine Nat.le_of_not_lt fun hLt => ?_
  set n := divNearest a' b' with hn
  have hNot : ¬n < divNearest a' b' := by omega
  rw [lt_divNearest_iff hb'] at hNot
  -- both middles are compared over the common denominator
  have hScaled : (2 * a) * b' ≤ (2 * a') * b := by
    calc (2 * a) * b' = 2 * (a * b') := by ring
      _ ≤ 2 * (a' * b) := Nat.mul_le_mul_left 2 h
      _ = (2 * a') * b := by ring
  have hSwap : ((2 * n + 1) * b) * b' = ((2 * n + 1) * b') * b := by ring
  rcases (lt_divNearest_iff hb).1 hLt with hBelow | ⟨hAt, hOdd⟩
  · have hStrict := Nat.mul_lt_mul_of_pos_right hBelow hb'
    exact hNot (Or.inl (Nat.lt_of_mul_lt_mul_right (a := b) (by omega)))
  · rw [hAt] at hSwap
    have hLe : (2 * n + 1) * b' ≤ 2 * a' := Nat.le_of_mul_le_mul_right (by omega) hb
    rcases Nat.lt_or_eq_of_le hLe with hLess | hEqual
    · exact hNot (Or.inl hLess)
    · exact hNot (Or.inr ⟨hEqual, hOdd⟩)

/-! ## Ratios -/

variable {f : Format}

theorem leadingBit_pos (f : Format) : 0 < f.leadingBit := by
  rw [leadingBit, Nat.one_shiftLeft]
  exact Nat.two_pow_pos _

/-- How far the significand of a scaled ratio is cut. -/
def cut (f : Format) (scaled b : Nat) : Nat := (scaled / b).log2 - f.fractionBits

/-- A significand that was cut has a leading bit or may carry into the next one. -/
theorem divNearest_cut_le (f : Format) (scaled : Nat) {b : Nat} (hb : 0 < b) :
    divNearest scaled (b <<< f.cut scaled b) ≤ 2 * f.leadingBit := by
  set shift := f.cut scaled b with hShift
  have hPos : 0 < b <<< shift := by
    rw [Nat.shiftLeft_eq]
    exact Nat.mul_pos hb (Nat.two_pow_pos _)
  refine divNearest_le hPos ?_
  have hLog : scaled / b < 2 ^ (f.fractionBits + shift + 1) := by
    refine Nat.lt_of_lt_of_le Nat.lt_log2_self (Nat.pow_le_pow_right (by decide) ?_)
    simp only [cut] at hShift
    omega
  have hScaled : scaled < 2 ^ (f.fractionBits + shift + 1) * b := (Nat.div_lt_iff_lt_mul hb).1 hLog
  refine hScaled.le.trans (le_of_eq ?_)
  rw [leadingBit, Nat.one_shiftLeft, Nat.shiftLeft_eq]
  ring

theorem leadingBit_le_divNearest_cut {scaled b : Nat} (hb : 0 < b) (h : 0 < f.cut scaled b) :
    f.leadingBit ≤ divNearest scaled (b <<< f.cut scaled b) := by
  set shift := f.cut scaled b with hShift
  have hPos : 0 < b <<< shift := by
    rw [Nat.shiftLeft_eq]
    exact Nat.mul_pos hb (Nat.two_pow_pos _)
  refine le_divNearest hPos ?_
  have hNonzero : scaled / b ≠ 0 := by
    intro hZero
    simp [cut, hZero] at hShift
    omega
  have hLog : 2 ^ (f.fractionBits + shift) ≤ scaled / b := by
    refine (Nat.pow_le_pow_right (by decide) ?_).trans (Nat.log2_self_le hNonzero)
    simp only [cut] at hShift
    omega
  have hScaled : 2 ^ (f.fractionBits + shift) * b ≤ scaled := (Nat.le_div_iff_mul_le hb).1 hLog
  refine (le_of_eq ?_).trans hScaled
  rw [leadingBit, Nat.one_shiftLeft, Nat.shiftLeft_eq]
  ring

/-- A ratio that is not larger is rounded to a pattern that is not larger. -/
theorem ofRatio_mono {a b a' b' : Nat} (hb : 0 < b) (hb' : 0 < b') (h : a * b' ≤ a' * b) :
    f.ofRatio a b ≤ f.ofRatio a' b' := by
  have hScaled : (a <<< f.scale) * b' ≤ (a' <<< f.scale) * b := by
    rw [Nat.shiftLeft_eq, Nat.shiftLeft_eq]
    calc a * 2 ^ f.scale * b' = 2 ^ f.scale * (a * b') := by ring
      _ ≤ 2 ^ f.scale * (a' * b) := Nat.mul_le_mul_left _ h
      _ = a' * 2 ^ f.scale * b := by ring
  change min (f.cut (a <<< f.scale) b * f.leadingBit +
      divNearest (a <<< f.scale) (b <<< f.cut (a <<< f.scale) b)) f.infinity ≤
    min (f.cut (a' <<< f.scale) b' * f.leadingBit +
      divNearest (a' <<< f.scale) (b' <<< f.cut (a' <<< f.scale) b')) f.infinity
  set x := a <<< f.scale
  set x' := a' <<< f.scale
  refine min_le_min ?_ le_rfl
  have hQuotients : x / b ≤ x' / b' := by
    rw [Nat.le_div_iff_mul_le hb']
    refine Nat.le_of_mul_le_mul_right (?_ : x / b * b' * b ≤ x' * b) hb
    calc x / b * b' * b = (x / b * b) * b' := by ring
      _ ≤ x * b' := Nat.mul_le_mul_right b' (Nat.div_mul_le_self x b)
      _ ≤ x' * b := hScaled
  have hCut : f.cut x b ≤ f.cut x' b' := by
    have hLog : (x / b).log2 ≤ (x' / b').log2 := by
      rw [Nat.log2_eq_log_two, Nat.log2_eq_log_two]
      exact Nat.log_mono_right hQuotients
    simp only [cut]
    omega
  rcases Nat.lt_or_eq_of_le hCut with hLess | hEqual
  · -- the smaller significand carries at most into the leading bit of the larger one
    have hLow := f.divNearest_cut_le x hb
    have hPositive : 0 < f.cut x' b' := by omega
    have hHigh := leadingBit_le_divNearest_cut hb' hPositive
    have hStep : (f.cut x b + 1) * f.leadingBit ≤ f.cut x' b' * f.leadingBit :=
      Nat.mul_le_mul_right _ hLess
    rw [Nat.add_mul, Nat.one_mul] at hStep
    omega
  · rw [hEqual]
    refine Nat.add_le_add_left (divNearest_mono ?_ ?_ ?_) _
    · rw [Nat.shiftLeft_eq]
      exact Nat.mul_pos hb (Nat.two_pow_pos _)
    · rw [Nat.shiftLeft_eq]
      exact Nat.mul_pos hb' (Nat.two_pow_pos _)
    · rw [Nat.shiftLeft_eq, Nat.shiftLeft_eq, ← Nat.mul_assoc, ← Nat.mul_assoc]
      exact Nat.mul_le_mul_right _ hScaled

/-- A larger numerator is not rounded to less. -/
theorem ofRatio_mono_left {a a' b : Nat} (hb : 0 < b) (h : a ≤ a') :
    f.ofRatio a b ≤ f.ofRatio a' b :=
  ofRatio_mono hb hb (Nat.mul_le_mul_right b h)

theorem ofRatio_zero (f : Format) (b : Nat) : f.ofRatio 0 b = 0 := by
  simp [ofRatio, divNearest]

/-! ## Patterns -/

/-- Patterns are in the order of their magnitudes. -/
theorem units_magnitude_mono (f : Format) :
    Monotone fun pattern => (f.magnitude pattern).units := by
  intro p p' hLe
  have hFraction : p % f.leadingBit < f.leadingBit := Nat.mod_lt _ f.leadingBit_pos
  have hExponents : p / f.leadingBit ≤ p' / f.leadingBit := Nat.div_le_div_right hLe
  have hSplit := Nat.div_add_mod p f.leadingBit
  have hSplit' := Nat.div_add_mod p' f.leadingBit
  simp only [magnitude]
  generalize p / f.leadingBit = e at *
  generalize p' / f.leadingBit = e' at *
  -- a larger exponent outweighs any fraction
  rcases Nat.lt_or_eq_of_le hExponents with hLess | rfl
  · rw [if_neg (show ¬e' = 0 by omega)]
    simp only [Magnitude.units, Nat.shiftLeft_eq]
    refine le_trans ?_ (Nat.mul_le_mul_right _ (Nat.le_add_right f.leadingBit _))
    by_cases hZero : e = 0
    · rw [if_pos hZero, Nat.pow_zero, Nat.mul_one]
      exact hFraction.le.trans (Nat.le_mul_of_pos_right _ (Nat.two_pow_pos _))
    · rw [if_neg hZero]
      have hPower : 2 * 2 ^ (e - 1) ≤ 2 ^ (e' - 1) := by
        rw [← Nat.pow_succ']
        exact Nat.pow_le_pow_right (by decide) (by omega)
      calc (f.leadingBit + p % f.leadingBit) * 2 ^ (e - 1)
          ≤ (f.leadingBit * 2) * 2 ^ (e - 1) := Nat.mul_le_mul_right _ (by omega)
        _ = f.leadingBit * (2 * 2 ^ (e - 1)) := Nat.mul_assoc _ _ _
        _ ≤ f.leadingBit * 2 ^ (e' - 1) := Nat.mul_le_mul_left _ hPower
  · have hFractions : p % f.leadingBit ≤ p' % f.leadingBit := by omega
    split
    · simpa [Magnitude.units, Nat.shiftLeft_eq] using hFractions
    · simp only [Magnitude.units, Nat.shiftLeft_eq]
      exact Nat.mul_le_mul_right _ (Nat.add_le_add_left hFractions _)

theorem mul_mono {x x' y y' : Nat} (h : x ≤ x') (hy : y ≤ y') : f.mul x y ≤ f.mul x' y' := by
  refine ofRatio_mono_left ?_
    (Nat.mul_le_mul (f.units_magnitude_mono h) (f.units_magnitude_mono hy))
  rw [Nat.one_shiftLeft]
  exact Nat.two_pow_pos _

theorem div_mono {x x' y y' : Nat} (h : x ≤ x') (hy : y' ≤ y)
    (hPos : 0 < (f.magnitude y').units) :
    f.div x y ≤ f.div x' y' := by
  have hUnits : (f.magnitude y').units ≤ (f.magnitude y).units := f.units_magnitude_mono hy
  exact ofRatio_mono (hPos.trans_le hUnits) hPos
    (Nat.mul_le_mul (f.units_magnitude_mono h) hUnits)

end FieldArchive.Format

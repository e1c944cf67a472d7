import FieldArchive.Json.Number
import FieldArchive.Proofs.Number.Digits
import FieldArchive.Proofs.Number.Rounding
import FieldArchive.Proofs.Number.Shortest
import Mathlib.Data.List.TakeWhile

/-!
# Reals are read as reals

Reading rounds the digits and the power of ten before it multiplies them, so a real
is not always read as itself.  It is always read as a finite one, though
(`Binary.exists_real?`): the numeral stays below the upper end of the interval that
rounds to the real, and since rounding keeps order, each power of ten is checked at
the largest significand below that end.  Only for the largest magnitude the end is
too far off, and its numeral is read by itself.
-/

namespace FieldArchive

namespace Digits

/-- More digits are appended to a number. -/
theorem mul_pow_le_foldl (digits : List Digit) (n : Nat) :
    n * 10 ^ digits.length ≤ digits.foldl (fun n d => 10 * n + d.val) n := by
  induction digits generalizing n with
  | nil => simp
  | cons d digits ih =>
      refine le_trans ?_ (ih (10 * n + d.val))
      rw [List.length_cons, Nat.pow_succ', ← Nat.mul_assoc, Nat.mul_comm n 10]
      exact Nat.mul_le_mul_right _ (Nat.le_add_right _ _)

theorem toNat_append_zeros (digits : List Digit) (n : Nat) :
    toNat (digits ++ List.replicate n 0) = toNat digits * 10 ^ n := by
  induction n with
  | zero => simp
  | succ n ih =>
      have hLast : ∀ ds : List Digit, toNat (ds ++ [0]) = 10 * toNat ds := by
        intro ds
        simp [toNat]
      rw [List.replicate_succ', ← List.append_assoc, hLast, ih, Nat.pow_succ]
      ring

/-- The zeros that are dropped stand at the end. -/
theorem exists_dropTrailingZeros (digits : List Digit) :
    ∃ n, digits = dropTrailingZeros digits ++ List.replicate n 0 := by
  have hSplit := List.takeWhile_append_dropWhile (p := fun d : Digit => d == 0)
    (l := digits.reverse)
  have hZeros : ∀ d ∈ digits.reverse.takeWhile (fun d => d == 0), d = 0 := by
    intro d hd
    simpa using List.mem_takeWhile_imp hd
  refine ⟨(digits.reverse.takeWhile fun d => d == 0).length, ?_⟩
  rw [dropTrailingZeros, ← List.reverse_replicate, ← List.eq_replicate_of_mem hZeros,
    ← List.reverse_append, hSplit, List.reverse_reverse]

end Digits

/-! ## Numerals -/

namespace Numeral

theorem absorb_lt {n : Nat} (h : n < wordBound) (digits : List Digit) :
    (absorb n digits).1 < wordBound := by
  induction digits generalizing n with
  | nil => exact h
  | cons d digits ih =>
      unfold absorb
      split
      · next hFits => exact ih hFits
      · exact h

/-- Digits that are left out only make a number smaller. -/
theorem absorb_mul_le (n : Nat) (digits : List Digit) :
    (absorb n digits).1 * 10 ^ (absorb n digits).2.length ≤
      digits.foldl (fun n d => 10 * n + d.val) n := by
  induction digits generalizing n with
  | nil => simp [absorb]
  | cons d digits ih =>
      unfold absorb
      split
      · exact ih _
      · exact Digits.mul_pow_le_foldl (d :: digits) n

theorem length_absorb_le (n : Nat) (digits : List Digit) :
    (absorb n digits).2.length ≤ digits.length := by
  induction digits generalizing n with
  | nil => exact le_rfl
  | cons d digits ih =>
      unfold absorb
      split
      · exact (ih _).trans (Nat.le_succ _)
      · exact le_rfl

/-- A numeral whose value, as far as it is read, is not above a ratio. -/
structure IsBelow (n : Numeral) (bound unit : Nat) : Prop where
  word : n.parts.1 < wordBound
  value : 0 ≤ n.parts.2 → n.parts.1 * 10 ^ n.parts.2.natAbs * unit ≤ bound

theorem parts_lt (n : Numeral) : n.parts.1 < wordBound :=
  absorb_lt (absorb_lt (by decide) _) _

/-- Few digits before the point and no exponent keep a numeral small. -/
theorem isBelow_of_plain {n : Numeral} {bound unit : Nat} (hWhole : n.whole.length ≤ 16)
    (hExponent : n.exponent = none) (hBound : wordBound * 10 ^ 16 * unit ≤ bound) :
    n.IsBelow bound unit where
  word := n.parts_lt
  value hNonneg := by
    refine le_trans (Nat.mul_le_mul_right unit ?_) hBound
    have hLeft := length_absorb_le 0 n.whole
    have hPower : n.parts.2.natAbs ≤ 16 := by
      simp only [parts, hExponent, Option.getD_none] at hNonneg ⊢
      omega
    exact Nat.mul_le_mul n.parts_lt.le (Nat.pow_le_pow_right (by decide) hPower)

/-- Of a numeral with one digit before the point, the digits are read that fit. -/
theorem exists_parts (negative : Bool) (first : Digit) (rest : List Digit) (exponent : Int) :
    ∃ left : Nat,
      (parts ⟨negative, [first], rest, some exponent⟩).1 * 10 ^ left ≤
        Digits.toNat (first :: rest) ∧
      (parts ⟨negative, [first], rest, some exponent⟩).2 = exponent - rest.length + left := by
  have hFirst : absorb 0 [first] = (first.val, []) := by
    have hDigit := first.isLt
    simp [absorb, wordBound]
    omega
  have hLeft := length_absorb_le first.val rest
  have hDigits := absorb_mul_le first.val rest
  have hParts : parts ⟨negative, [first], rest, some exponent⟩ =
      ((absorb first.val rest).1, exponent - rest.length + (absorb first.val rest).2.length) := by
    simp only [parts, hFirst, Option.getD_some, List.length_nil]
    congr 1
    omega
  rw [hParts]
  exact ⟨_, by simpa [Digits.toNat] using hDigits, rfl⟩

/-- With the places of a ratio the power of ten is a natural one. -/
theorem isBelow_of_scientific {negative : Bool} {first : Digit} {rest : List Digit}
    {exponent : Int} {places bound : Nat} (power : Nat)
    (hExponent : exponent = rest.length + power - places)
    (hValue : Digits.toNat (first :: rest) * 10 ^ power ≤ bound * 5 ^ places) :
    IsBelow ⟨negative, [first], rest, some exponent⟩ bound (2 ^ places) := by
  refine ⟨parts_lt _, fun hNonneg => ?_⟩
  obtain ⟨left, hRead, hPower⟩ := exists_parts negative first rest exponent
  generalize parts ⟨negative, [first], rest, some exponent⟩ = parts at *
  have hSum : parts.2.natAbs + places = left + power := by omega
  refine Nat.le_of_mul_le_mul_right (c := 5 ^ places) ?_ (Nat.pow_pos (by decide))
  calc parts.1 * 10 ^ parts.2.natAbs * 2 ^ places * 5 ^ places
      = parts.1 * 10 ^ (parts.2.natAbs + places) := by
        rw [Nat.mul_assoc, ← Nat.mul_pow, Nat.pow_add, Nat.mul_assoc]
    _ = parts.1 * 10 ^ left * 10 ^ power := by rw [hSum, Nat.pow_add, Nat.mul_assoc]
    _ ≤ Digits.toNat (first :: rest) * 10 ^ power := Nat.mul_le_mul_right _ hRead
    _ ≤ bound * 5 ^ places := hValue

end Numeral

/-! ## Numerals of reals -/

namespace Format

variable {f : Format}

/-- The upper end of the interval that rounds to a pattern, in quarters of the least
positive magnitude. -/
def upperEnd (f : Format) (pattern : Nat) : Nat :=
  (4 * (f.magnitude pattern).significand + 2) <<< (f.magnitude pattern).shift

theorem upperEnd_mono (f : Format) : Monotone f.upperEnd := by
  intro p p' hLe
  have hUnits : (f.magnitude p).units ≤ (f.magnitude p').units := f.units_magnitude_mono hLe
  have hShift : (f.magnitude p).shift ≤ (f.magnitude p').shift := by
    have hExponents : p / f.leadingBit ≤ p' / f.leadingBit := Nat.div_le_div_right hLe
    simp only [magnitude]
    generalize p / f.leadingBit = e at *
    generalize p' / f.leadingBit = e' at *
    split <;> split <;> simp only [Nat.zero_le] <;> omega
  have hPower : 2 ^ (f.magnitude p).shift ≤ 2 ^ (f.magnitude p').shift :=
    Nat.pow_le_pow_right (by decide) hShift
  have hSplit : ∀ q, f.upperEnd q = 4 * (f.magnitude q).units + 2 * 2 ^ (f.magnitude q).shift := by
    intro q
    rw [upperEnd, Magnitude.units, Nat.shiftLeft_eq, Nat.shiftLeft_eq]
    ring
  rw [hSplit, hSplit]
  omega

end Format

namespace Shortest

variable {f : Format}

/-- What is written for a magnitude is not above the interval that rounds to it. -/
theorem exists_decimal_le (tie : Tie) {pattern : Nat}
    (h : (f.magnitude pattern).significand ≠ 0) : ∃ power : Nat,
      (decimal f tie pattern).exponent =
        (decimal f tie pattern).digits.length - 1 + power - places f ∧
      Digits.toNat (decimal f tie pattern).digits * 10 ^ power ≤
        f.upperEnd pattern * 5 ^ places f := by
  set t := target f (f.magnitude pattern) with ht
  have hHigh : t.high = f.upperEnd pattern * 5 ^ places f := by
    simp only [ht, target, Format.upperEnd, Nat.shiftLeft_eq, Nat.pow_eq]
    ring
  have hSearch := Target.search_le (t := t) (Nat.le_add_right _ _) tie
    ((Digits.ofNat t.value).length - 1)
  set found := t.search tie ((Digits.ofNat t.value).length - 1) with hFound
  -- the zeros that are not written count for the exponent
  obtain ⟨zeros, hZeros⟩ := Digits.exists_dropTrailingZeros (Digits.ofNat found.1)
  have hDecimal : decimal f tie pattern =
      ⟨Digits.dropTrailingZeros (Digits.ofNat found.1),
        ((Digits.ofNat found.1).length : Int) - 1 + found.2 - places f⟩ := by
    simp only [decimal, h, if_false, ← ht, ← hFound]
  have hLength := congrArg List.length hZeros
  have hValue := congrArg Digits.toNat hZeros
  rw [List.length_append, List.length_replicate] at hLength
  rw [Digits.toNat_ofNat, Digits.toNat_append_zeros] at hValue
  rw [hDecimal]
  refine ⟨zeros + found.2, ?_, ?_⟩
  · simp only
    omega
  · rw [← hHigh, Nat.pow_add, ← Nat.mul_assoc, ← hValue]
    exact hSearch

end Shortest

theorem Decimal.length_positional_whole (d : Decimal) :
    d.positional.1.length = d.exponent.toNat + 1 := by
  unfold positional
  split
  · next hNegative => simp [Int.toNat_of_nonpos hNegative.le]
  · simp only [List.length_append, List.length_take, List.length_replicate]
    omega

/-- The numeral of a real is not above the interval that rounds to the real, nor above
what can be written without an exponent. -/
theorem Binary.isBelow_numeral {f : Format} (x : Binary f) {bound : Nat}
    (hPlain : wordBound * 10 ^ 16 * 2 ^ Shortest.places f ≤ bound)
    (hUpper : f.upperEnd x.pattern ≤ bound) :
    x.numeral.IsBelow bound (2 ^ Shortest.places f) := by
  have hDigits := Shortest.decimal_digits f .even x.pattern
  have hPower := fun hNonzero : (f.magnitude x.pattern).significand ≠ 0 =>
    Shortest.exists_decimal_le .even hNonzero
  have hSignificand : (f.magnitude x.pattern).significand = 0 →
      Shortest.decimal f .even x.pattern = ⟨[.zero], 0⟩ := by
    intro hZero
    simp [Shortest.decimal, hZero]
  unfold numeral
  -- from here on no more is used of the digits
  generalize Shortest.decimal f .even x.pattern = d at *
  have hRange : f.plainRange.first ≤ 0 ∧ 0 ≤ f.plainRange.last ∧ f.plainRange.last ≤ 15 := by
    unfold Format.plainRange
    split <;> decide
  dsimp only
  split
  · refine Numeral.isBelow_of_plain ?_ rfl hPlain
    change d.positional.1.length ≤ 16
    rw [d.length_positional_whole]
    omega
  · next hOutside =>
      have hNotZero : d ≠ ⟨[.zero], 0⟩ := by
        rintro rfl
        exact hOutside ⟨hRange.1, hRange.2.1⟩
      obtain ⟨first, rest, hList, -⟩ := hDigits.resolve_left hNotZero
      obtain ⟨power, hExponent, hValue⟩ := hPower fun hZero => hNotZero (hSignificand hZero)
      rw [hList] at hExponent hValue ⊢
      refine Numeral.isBelow_of_scientific power ?_
        (hValue.trans (Nat.mul_le_mul_right _ hUpper))
      rw [hExponent, List.length_cons, List.drop_one, List.tail_cons]
      omega

/-! ## What is read -/

namespace Format

/-- The pattern that an unsigned pattern of the 64-bit format has in a format. -/
def narrow (f : Format) (pattern : Nat) : Nat :=
  f.ofRatio (double.magnitude pattern).units (1 <<< double.scale)

/-- A pattern that is finite in the 64-bit format and in the given one. -/
structure Reads (f : Format) (pattern : Nat) : Prop where
  double : pattern < double.infinity
  narrow : f.narrow pattern < f.infinity

instance (f : Format) (pattern : Nat) : Decidable (f.Reads pattern) :=
  decidable_of_iff (pattern < Format.double.infinity ∧ f.narrow pattern < f.infinity)
    ⟨fun h => ⟨h.1, h.2⟩, fun h => ⟨h.1, h.2⟩⟩

theorem Reads.mono {f : Format} {x y : Nat} (h : f.Reads y) (hLe : x ≤ y) : f.Reads x := by
  refine ⟨hLe.trans_lt h.double, lt_of_le_of_lt ?_ h.narrow⟩
  exact ofRatio_mono_left (by decide) (Format.double.units_magnitude_mono hLe)

end Format

namespace Numeral

theorem roundedPower_mono {n n' : Nat} (h : n ≤ n') : roundedPower n ≤ roundedPower n' :=
  Format.ofRatio_mono_left (by decide) (Nat.pow_le_pow_right (by decide) h)

/-- Dividing by powers of ten leads nowhere above a pattern that dividing by one does
not lead above. -/
theorem divideByPower_le {top : Nat} (hTop : Format.double.div top (roundedPower 0) ≤ top)
    (fuel : Nat) {x : Nat} (h : x ≤ top) (n : Nat) : divideByPower fuel x n ≤ top := by
  have hStep : ∀ {x : Nat}, x ≤ top → ∀ power, Format.double.div x (roundedPower power) ≤ top :=
    fun hx power =>
      (Format.div_mono hx (roundedPower_mono (Nat.zero_le power)) (by decide +kernel)).trans hTop
  induction fuel generalizing x n with
  | zero => exact h
  | succ fuel ih =>
      unfold divideByPower
      split
      · exact hStep h n
      · split
        · exact Nat.zero_le _
        · exact ih (hStep h topPower) _

/-- Powers of ten that a format reads after the digits of a numeral below a ratio: up to
`low` after any significand, and `count` more after the largest one below the ratio.  No
significand is below the ratio before a larger power. -/
structure Covers (f : Format) (bound unit low count : Nat) : Prop where
  word : f.Reads (Format.double.mul (Format.double.ofRatio wordBound 1) (roundedPower low))
  powers : ∀ i < count, f.Reads (Format.double.mul
    (Format.double.ofRatio (bound / (10 ^ (low + 1 + i) * unit)) 1) (roundedPower (low + 1 + i)))
  top : bound < 10 ^ (low + 1 + count) * unit
  le_topPower : low + count ≤ topPower

/-- A numeral below a ratio is read as a finite real. -/
theorem IsBelow.exists_scaled? {f : Format} {n : Numeral} {bound unit low count : Nat}
    (h : n.IsBelow bound unit) (hUnit : 0 < unit) (hCovers : Covers f bound unit low count) :
    ∃ y, scaled? n.parts.1 n.parts.2 = some y ∧ f.Reads y := by
  have hSmall := h.word
  have hValue := h.value
  generalize n.parts.1 = s at *
  generalize n.parts.2 = e at *
  have hWord : Format.double.ofRatio s 1 ≤ Format.double.ofRatio wordBound 1 :=
    Format.ofRatio_mono_left (by decide) hSmall.le
  have hLe := hCovers.le_topPower
  have hRead : ∀ y, f.Reads y → ∃ y', (if y < Format.double.infinity then some y else none) =
      some y' ∧ f.Reads y' := fun y hy => ⟨y, if_pos hy.double, hy⟩
  unfold scaled?
  dsimp only
  by_cases hNegative : e < 0
  · -- a quotient is not above its dividend
    rw [if_pos hNegative]
    refine ⟨_, rfl, hCovers.word.mono ?_⟩
    refine (divideByPower_le (by decide +kernel) _ hWord _).trans ?_
    refine le_trans ?_ (Format.mul_mono le_rfl (roundedPower_mono (Nat.zero_le low)))
    decide +kernel
  rw [if_neg hNegative]
  have hBelow : s ≤ bound / (10 ^ e.natAbs * unit) := by
    rw [Nat.le_div_iff_mul_le (Nat.mul_pos (Nat.pow_pos (by decide)) hUnit), ← Nat.mul_assoc]
    exact hValue (by omega)
  by_cases hLow : e.natAbs ≤ low
  · -- the power is small enough for any significand
    rw [if_pos (by omega)]
    exact hRead _ (hCovers.word.mono (Format.mul_mono hWord (roundedPower_mono hLow)))
  by_cases hHigh : e.natAbs ≤ low + count
  · -- the larger the power, the smaller is the significand
    rw [if_pos (by omega)]
    obtain ⟨i, hi, hPower⟩ : ∃ i < count, e.natAbs = low + 1 + i :=
      ⟨e.natAbs - (low + 1), by omega, by omega⟩
    rw [hPower] at hBelow ⊢
    exact hRead _ ((hCovers.powers i hi).mono
      (Format.mul_mono (Format.ofRatio_mono_left (by decide) hBelow) le_rfl))
  · -- no digit is left before so large a power
    have hZero : s = 0 := by
      refine Nat.le_zero.1 (hBelow.trans (Nat.le_of_eq (Nat.div_eq_of_lt ?_)))
      refine hCovers.top.trans_le (Nat.mul_le_mul_right _ (Nat.pow_le_pow_right (by decide) ?_))
      omega
    have hNone : f.Reads 0 := hCovers.word.mono (Nat.zero_le _)
    have hProduct : ∀ y, Format.double.mul 0 y = 0 := by
      intro y
      simp [Format.mul, Format.magnitude, Format.Magnitude.units, Format.ofRatio_zero]
    rw [hZero, Format.ofRatio_zero, hProduct, if_pos rfl]
    split
    · exact hRead 0 hNone
    · exact ⟨0, rfl, hNone⟩

end Numeral

/-! ## The two formats -/

/-- A format that reals are kept in. -/
def Format.IsKept (f : Format) : Prop := f = .single ∨ f = .double

namespace Format

/-- The upper end of all reals but the largest. -/
def limit (f : Format) : Nat := f.upperEnd (f.infinity - 2)

theorem IsKept.covers {f : Format} (h : f.IsKept) :
    ∃ low count, Numeral.Covers f f.limit (2 ^ Shortest.places f) low count := by
  rcases h with rfl | rfl
  · exact ⟨19, 19, by decide +kernel, by decide +kernel, by decide +kernel, by decide +kernel⟩
  · exact ⟨288, 20, by decide +kernel, by decide +kernel, by decide +kernel, by decide +kernel⟩

end Format

namespace Binary

variable {f : Format}

/-- The numeral of a real that is not the largest is below the upper end of the others. -/
theorem isBelow_numeral_limit (hKept : f.IsKept) (x : Binary f) (h : x.pattern ≤ f.infinity - 2) :
    x.numeral.IsBelow f.limit (2 ^ Shortest.places f) := by
  refine x.isBelow_numeral ?_ (f.upperEnd_mono h)
  rcases hKept with rfl | rfl <;> decide +kernel

/-- Of a real its magnitude alone decides how its digits are read. -/
theorem parts_numeral (x y : Binary f) (h : x.pattern = y.pattern) :
    x.numeral.parts = y.numeral.parts := by
  unfold numeral
  rw [h]
  dsimp only
  split <;> rfl

/-- The largest real is read as a finite one. -/
theorem exists_scaled?_largest (hKept : f.IsKept) {x : Binary f} (h : x.pattern = f.infinity - 1) :
    ∃ y, Numeral.scaled? x.numeral.parts.1 x.numeral.parts.2 = some y ∧ f.Reads y := by
  have hCheck : (Numeral.scaled? (ofPattern false (f.infinity - 1) : Binary f).numeral.parts.1
      (ofPattern false (f.infinity - 1) : Binary f).numeral.parts.2).any
        (fun y => decide (f.Reads y)) = true ∧
      (ofPattern false (f.infinity - 1) : Binary f).pattern = f.infinity - 1 := by
    rcases hKept with rfl | rfl <;> decide +kernel
  rw [parts_numeral x (ofPattern false (f.infinity - 1)) (h.trans hCheck.2.symm)]
  obtain ⟨y, hy, hReads⟩ := (Option.any_eq_true _ _).1 hCheck.1
  exact ⟨y, hy, of_decide_eq_true hReads⟩

theorem exists_scaled?_numeral (hKept : f.IsKept) {x : Binary f} (h : x.isFinite = true) :
    ∃ y, Numeral.scaled? x.numeral.parts.1 x.numeral.parts.2 = some y ∧ f.Reads y := by
  have hFinite : x.pattern < f.infinity := of_decide_eq_true h
  by_cases hLargest : x.pattern = f.infinity - 1
  · exact exists_scaled?_largest hKept hLargest
  · obtain ⟨low, count, hCovers⟩ := hKept.covers
    exact (isBelow_numeral_limit hKept x (by omega)).exists_scaled? (Nat.two_pow_pos _) hCovers

/-- A real is never read as an integer: it is written with a point or an exponent. -/
theorem number?_numeral (x : Binary f) : x.numeral.number? =
    (Numeral.scaled? x.numeral.parts.1 x.numeral.parts.2).map fun y =>
      .real (.ofPattern x.numeral.negative y) := by
  have hReal : (x.numeral.fraction.isEmpty && x.numeral.exponent.isNone) = false := by
    unfold numeral
    dsimp only
    split
    · generalize (Shortest.decimal f .even x.pattern).positional.2 = fraction
      cases fraction <;> simp
    · simp
  unfold Numeral.number?
  dsimp only
  rw [hReal, Bool.false_and, if_neg (by simp)]

theorem pattern_ofPattern (negative : Bool) {y : Nat} (h : y < f.infinity) :
    (ofPattern negative y : Binary f).pattern = y := by
  have hInfinity : f.infinity ≤ f.signBit := by
    rw [Format.infinity, Format.signBit, Nat.one_shiftLeft, Nat.one_shiftLeft, Nat.shiftLeft_eq,
      Nat.pow_add]
    exact Nat.mul_le_mul_right _ (Nat.sub_le _ _)
  have hWidth : 2 ^ f.width = 2 * f.signBit := by
    rw [Format.width, Format.signBit, Nat.one_shiftLeft, Nat.add_assoc, Nat.add_comm, Nat.pow_succ,
      Nat.mul_comm]
  have hBits : (if negative then f.signBit + y else y) < 2 ^ f.width := by
    split <;> omega
  rw [pattern, ofPattern, BitVec.toNat_ofNat, Nat.mod_eq_of_lt hBits]
  split
  · rw [Nat.add_mod_left, Nat.mod_eq_of_lt (by omega)]
  · exact Nat.mod_eq_of_lt (by omega)

/-- A finite real that is written is read as a finite real. -/
theorem exists_real? (hKept : f.IsKept) {x : Binary f} (h : x.isFinite = true) :
    ∃ y, x.toJson.real? f = some y ∧ y.isFinite = true := by
  obtain ⟨y, hScaled, hReads⟩ := exists_scaled?_numeral hKept h
  refine ⟨convert f (ofPattern x.numeral.negative y : Binary64), ?_, ?_⟩
  · rw [toJson, if_pos h, Json.real?, Json.number?, number?_numeral, hScaled]
    rfl
  · refine decide_eq_true ?_
    rw [convert, pattern_ofPattern _ hReads.double]
    exact (pattern_ofPattern _ hReads.narrow).trans_lt hReads.narrow

end Binary
end FieldArchive

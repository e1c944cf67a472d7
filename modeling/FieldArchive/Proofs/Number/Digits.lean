import FieldArchive.Number.Digits

/-!
# Decimal digits read back

The digits of a number stand for that number, no number but zero starts with a
zero, and a run of digit characters is read back up to where it ends.
-/

namespace FieldArchive.Digits

/-- Digits before a tail are read before it. -/
theorem foldl_prepend (fuel n : Nat) (tail : List Digit) (h : n < fuel) :
    (prepend fuel n tail).foldl (fun n d => 10 * n + d.val) 0 =
      tail.foldl (fun n d => 10 * n + d.val) n := by
  induction fuel generalizing n tail with
  | zero => omega
  | succ fuel ih =>
      unfold prepend
      by_cases hSmall : n < 10
      · have hDigit : 10 * 0 + (Fin.ofNat 10 n).val = n := by simp [Fin.ofNat]; omega
        rw [if_pos hSmall, List.foldl_cons, hDigit]
      · have hDigit : 10 * (n / 10) + (Fin.ofNat 10 n).val = n := by simp [Fin.ofNat]; omega
        rw [if_neg hSmall, ih (n / 10) _ (by omega), List.foldl_cons, hDigit]

@[simp] theorem toNat_ofNat (n : Nat) : toNat (ofNat n) = n := by
  simpa [toNat, ofNat] using foldl_prepend (n + 1) n [] (by omega)

/-- The digits of a positive number start with a digit that is not zero. -/
theorem exists_cons_prepend (fuel n : Nat) (tail : List Digit) (h : n < fuel) (hPos : 0 < n) :
    ∃ d rest, prepend fuel n tail = d :: rest ∧ d.val ≠ 0 := by
  induction fuel generalizing n tail with
  | zero => omega
  | succ fuel ih =>
      unfold prepend
      by_cases hSmall : n < 10
      · refine ⟨Fin.ofNat 10 n, tail, by simp [hSmall], ?_⟩
        simp [Fin.ofNat]
        omega
      · rw [if_neg hSmall]
        exact ih (n / 10) _ (by omega) (by omega)

theorem exists_cons_ofNat {n : Nat} (h : 0 < n) :
    ∃ d rest, ofNat n = d :: rest ∧ d.val ≠ 0 :=
  exists_cons_prepend (n + 1) n [] (by omega) h

theorem ofNat_zero : ofNat 0 = [Digit.zero] := rfl

/-- The digits of a number are `0` alone or start with another digit. -/
theorem ofNat_cases (n : Nat) :
    ofNat n = [Digit.zero] ∨ ∃ d rest, ofNat n = d :: rest ∧ d.val ≠ 0 := by
  rcases Nat.eq_zero_or_pos n with rfl | hPos
  · exact Or.inl ofNat_zero
  · exact Or.inr (exists_cons_ofNat hPos)

theorem ofNat_ne_nil (n : Nat) : ofNat n ≠ [] := by
  rcases ofNat_cases n with h | ⟨d, rest, h, -⟩ <;> simp [h]

/-- A run of digits ends where no digit follows. -/
theorem span_chars_append (digits : List Digit) (rest : List Char)
    (h : ∀ c ∈ rest.head?, Digit.ofChar? c = none) :
    span (chars digits ++ rest) = (digits, rest) := by
  induction digits with
  | nil =>
      cases rest with
      | nil => rfl
      | cons c rest =>
          have hc : Digit.ofChar? c = none := h c (by simp)
          simp [chars, span, hc]
  | cons d digits ih =>
      simp only [chars, List.map_cons, List.cons_append, span, Digit.ofChar?_toChar]
      simp only [chars] at ih
      rw [ih]

end FieldArchive.Digits

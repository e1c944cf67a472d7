import FieldArchive.Hex
import Mathlib.Algebra.GroupWithZero.Nat

/-!
# Hexadecimal text read back

Digits are read back from their characters, a number from as many digits as it takes, and bytes
from two characters each.  So digits, numbers and bytes that differ have texts that differ, and
writing them in this way confuses nothing.  Upper case is read, but never written.
-/

namespace FieldArchive.Hex

/-! ## Digits -/

theorem digit_injective : Function.Injective digit := by
  intro a b h
  have hRead : some a = some b := by rw [← value?_digit a, ← value?_digit b, h]
  exact Option.some.inj hRead

theorem mapM_value?_digits (ds : List Nibble) : (ds.map digit).mapM value? = some ds := by
  induction ds with
  | nil => rfl
  | cons d ds ih => simp [List.mapM_cons, ih]

theorem all_isDigit (ds : List Nibble) : (ds.map digit).all isDigit = true := by
  rw [List.all_map, List.all_eq_true]
  intro d _
  exact isDigit_digit d

/-! ## Numbers -/

/-- A number is read back from digits enough to hold it, leading zeros included. -/
theorem toNat_digitsOf {count n : Nat} (h : n < 16 ^ count) : toNat (digitsOf count n) = n := by
  induction count generalizing n with
  | zero =>
      have hZero : n = 0 := by simpa using h
      rw [hZero]
      rfl
  | succ count ih =>
      have hHigh : n / 16 < 16 ^ count := by
        rw [Nat.pow_succ] at h
        omega
      rw [digitsOf, toNat, List.foldl_append]
      change 16 * toNat (digitsOf count (n / 16)) + n % 16 = n
      rw [ih hHigh]
      omega

theorem digitsOf_inj {count m n : Nat} (hm : m < 16 ^ count) (hn : n < 16 ^ count) :
    digitsOf count m = digitsOf count n ↔ m = n := by
  constructor
  · intro h
    rw [← toNat_digitsOf hm, ← toNat_digitsOf hn, h]
  · intro h
    rw [h]

/-! ## Bytes -/

theorem ofBytes_cons (b : UInt8) (bytes : List UInt8) :
    ofBytes (b :: bytes) =
      digit (Fin.ofNat 16 (b.toNat / 16)) :: digit (Fin.ofNat 16 b.toNat) :: ofBytes bytes :=
  rfl

theorem length_ofBytes (bytes : List UInt8) : (ofBytes bytes).length = 2 * bytes.length := by
  induction bytes with
  | nil => rfl
  | cons b bytes ih =>
      rw [ofBytes_cons, List.length_cons, List.length_cons, List.length_cons, ih]
      omega

theorem all_isDigit_ofBytes (bytes : List UInt8) : (ofBytes bytes).all isDigit = true := by
  rw [ofBytes, List.all_flatMap, List.all_eq_true]
  intro b _
  exact all_isDigit _

/-- Bytes are read back from their text. -/
theorem toBytes?_ofBytes (bytes : List UInt8) : toBytes? (ofBytes bytes) = some bytes := by
  induction bytes with
  | nil => rfl
  | cons b bytes ih =>
      have hByte : UInt8.ofNat (16 * (b.toNat / 16 % 16) + b.toNat % 16) = b := by
        have hLt : b.toNat < 256 := b.toNat_lt
        have hSum : 16 * (b.toNat / 16 % 16) + b.toNat % 16 = b.toNat := by omega
        rw [hSum, UInt8.ofNat_toNat]
      rw [ofBytes_cons, toBytes?, value?_digit, value?_digit, ih]
      change some (UInt8.ofNat (16 * (b.toNat / 16 % 16) + b.toNat % 16) :: bytes) = _
      rw [hByte]

theorem ofBytes_injective : Function.Injective ofBytes := by
  intro a b h
  have hRead : some a = some b := by rw [← toBytes?_ofBytes a, ← toBytes?_ofBytes b, h]
  exact Option.some.inj hRead

/-- Every byte has two digits. -/
example : ofBytes [0x00, 0x0a, 0xf0] = ['0', '0', '0', 'a', 'f', '0'] := by decide

end FieldArchive.Hex

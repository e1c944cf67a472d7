/-!
# Hexadecimal text

Digests, bit patterns and archive identifiers are written with the digits
`0`-`9` and `a`-`f`.  Writing uses lower case only; reading takes either case.
-/

namespace FieldArchive

/-- A hexadecimal digit. -/
abbrev Nibble := Fin 16

namespace Hex

/-- The lower case character of a hexadecimal digit. -/
def digit (n : Nibble) : Char :=
  if n.val < 10 then Char.ofNat (48 + n.val) else Char.ofNat (87 + n.val)

/-- The digit that a character of either case stands for. -/
def value? (c : Char) : Option Nibble :=
  if '0' ≤ c ∧ c ≤ '9' then some (Fin.ofNat 16 (c.toNat - 48))
  else if 'a' ≤ c ∧ c ≤ 'f' then some (Fin.ofNat 16 (c.toNat - 87))
  else if 'A' ≤ c ∧ c ≤ 'F' then some (Fin.ofNat 16 (c.toNat - 55))
  else none

/-- True for a character that `digit` produces. -/
def isDigit (c : Char) : Bool :=
  ('0' ≤ c && c ≤ '9') || ('a' ≤ c && c ≤ 'f')

/-- The lowest `count` hexadecimal digits of a number, most significant first. -/
def digitsOf : (count : Nat) → Nat → List Nibble
  | 0, _ => []
  | count + 1, n => digitsOf count (n / 16) ++ [Fin.ofNat 16 n]

/-- The number that hexadecimal digits stand for, most significant first. -/
def toNat (digits : List Nibble) : Nat :=
  digits.foldl (fun n d => 16 * n + d.val) 0

/-- Two characters for each byte. -/
def ofBytes (bytes : List UInt8) : List Char :=
  bytes.flatMap fun b => (digitsOf 2 b.toNat).map digit

/-- The bytes of pairs of characters. -/
def toBytes? : List Char → Option (List UInt8)
  | [] => some []
  | [_] => none
  | a :: b :: rest => do
      let high ← value? a
      let low ← value? b
      some (UInt8.ofNat (16 * high.val + low.val) :: (← toBytes? rest))

/-- Every digit is read back from its character. -/
@[simp] theorem value?_digit : ∀ n : Nibble, value? (digit n) = some n := by decide

/-- Every written character is in the written alphabet. -/
@[simp] theorem isDigit_digit : ∀ n : Nibble, isDigit (digit n) = true := by decide

@[simp] theorem length_digitsOf (count n : Nat) : (digitsOf count n).length = count := by
  induction count generalizing n with
  | zero => rfl
  | succ count ih => simp [digitsOf, ih]

end Hex
end FieldArchive

/-!
# Decimal digits

Natural numbers as lists of decimal digits, most significant first, and digits
as characters.
-/

namespace FieldArchive

/-- A decimal digit. -/
abbrev Digit := Fin 10

namespace Digit

def zero : Digit := ⟨0, by decide⟩

/-- The character of a digit. -/
def toChar (d : Digit) : Char := Char.ofNat (48 + d.val)

/-- The digit that a character stands for. -/
def ofChar? (c : Char) : Option Digit :=
  if '0' ≤ c ∧ c ≤ '9' then some (Fin.ofNat 10 (c.toNat - 48)) else none

@[simp] theorem ofChar?_toChar : ∀ d : Digit, ofChar? d.toChar = some d := by decide

end Digit

namespace Digits

/-- Digits of `n` before `tail`; `fuel` bounds their number. -/
def prepend : (fuel : Nat) → (n : Nat) → (tail : List Digit) → List Digit
  | 0, _, tail => tail
  | fuel + 1, n, tail =>
      if n < 10 then Fin.ofNat 10 n :: tail
      else prepend fuel (n / 10) (Fin.ofNat 10 n :: tail)

/-- The decimal digits of a number: `0` has one digit, and no other number
starts with `0`. -/
def ofNat (n : Nat) : List Digit := prepend (n + 1) n []

/-- The number that digits stand for. -/
def toNat (digits : List Digit) : Nat :=
  digits.foldl (fun n d => 10 * n + d.val) 0

/-- Digits as characters. -/
def chars (digits : List Digit) : List Char := digits.map Digit.toChar

/-- The longest run of digits at the start, and what follows it. -/
def span : List Char → List Digit × List Char
  | [] => ([], [])
  | c :: rest =>
      match Digit.ofChar? c with
      | some d =>
          let tail := span rest
          (d :: tail.1, tail.2)
      | none => ([], c :: rest)

/-- Without the zeros at the end. -/
def dropTrailingZeros (digits : List Digit) : List Digit :=
  (digits.reverse.dropWhile fun d => d == 0).reverse

/-- The number that a one before `n` zeros stands for. -/
def powerOfTen (n : Nat) : Nat := Nat.pow 10 n

/-- Decimal text of a natural number. -/
def text (n : Nat) : String := String.ofList (chars (ofNat n))

/-- Decimal text of an integer, with `-` before a negative one. -/
def signedText (n : Int) : String :=
  if n < 0 then "-" ++ text n.natAbs else text n.natAbs

end Digits
end FieldArchive

import FieldArchive.Json.Basic
import FieldArchive.Number.Shortest

/-!
# Numbers in JSON

Integers are read exactly.  A real number is written with its shortest digits
but read in a cheaper way: the digits, as many as fit into 64 bits, and the
power of ten are rounded separately, and then their product or quotient is
rounded.  So a value need not be the one that was written; `readsBack` says
when it is.
-/

namespace FieldArchive

/-- Unsigned integers of 64 bits stay below this bound, `2 ^ 64`. -/
def wordBound : Nat := 0x10000000000000000

namespace Numeral

/-- Append digits to a number as long as it stays below the 64-bit bound; the
digits that are left come second. -/
def absorb : Nat → List Digit → Nat × List Digit
  | n, [] => (n, [])
  | n, d :: rest =>
      if 10 * n + d.val < wordBound then absorb (10 * n + d.val) rest else (n, d :: rest)

/-- The significand and the power of ten that a numeral is read as.  Digits that
do not fit count only before the point, and only by their number. -/
def parts (n : Numeral) : Nat × Int :=
  let (s, leftWhole) := absorb 0 n.whole
  let (s, leftFraction) := absorb s n.fraction
  let taken := n.fraction.length - leftFraction.length
  (s, (leftWhole.length : Int) - taken + n.exponent.getD 0)

/-- The largest power of ten that is finite in the 64-bit format. -/
def topPower : Nat := 308

/-- The rounded power of ten. -/
def roundedPower (n : Nat) : Nat := Format.double.ofRatio (Digits.powerOfTen n) 1

/-- Divide an unsigned pattern by `10 ^ n`, in steps of at most `topPower`. -/
def divideByPower : (fuel : Nat) → (x n : Nat) → Nat
  | 0, x, _ => x
  | fuel + 1, x, n =>
      if n ≤ topPower then Format.double.div x (roundedPower n)
      else if x = 0 then 0
      else divideByPower fuel (Format.double.div x (roundedPower topPower)) (n - topPower)

/-- The unsigned pattern of `s * 10 ^ e`, if it is finite. -/
def scaled? (s : Nat) (e : Int) : Option Nat :=
  let x := Format.double.ofRatio s 1
  if e < 0 then some (divideByPower (e.natAbs + 1) x e.natAbs)
  else if e.natAbs ≤ topPower then
    let y := Format.double.mul x (roundedPower e.natAbs)
    if y < Format.double.infinity then some y else none
  else if x = 0 then some 0
  else none

end Numeral

/-- What a numeral is read as: an integer of 64 bits, or else a real. -/
inductive Number where
  | natural (n : Nat)
  /-- The negative integer `-n`. -/
  | negative (n : Nat)
  | real (x : Binary64)
  deriving DecidableEq, Repr

/-- Read a numeral; it may be too large for a real. -/
def Numeral.number? (n : Numeral) : Option Number :=
  let whole := Digits.toNat n.whole
  if n.fraction.isEmpty && n.exponent.isNone && decide (whole < wordBound) then
    if n.negative then
      if 0 < whole ∧ 2 * whole ≤ wordBound then some (.negative whole)
      else some (.real (.ofPattern true (Format.double.ofRatio whole 1)))
    else some (.natural whole)
  else
    let (s, e) := n.parts
    (scaled? s e).map fun x => .real (.ofPattern n.negative x)

/-- The value in a format: integers are rounded once, reals once more. -/
def Number.toBinary (f : Format) : Number → Binary f
  | .natural n => .ofPattern false (f.ofRatio n 1)
  | .negative n => .ofPattern true (f.ofRatio n 1)
  | .real x => x.convert f

/-- Decimal exponents, from the first to the last, that a format's values are
written without an exponent for. -/
structure PlainRange where
  first : Int
  last : Int

/-- The plain range of a format: the 32-bit one is wider below and narrower
above. -/
def Format.plainRange (f : Format) : PlainRange :=
  if f = .single then ⟨-6, 12⟩ else ⟨-5, 15⟩

/-- The numeral of a finite value: the shortest digits, a tie to the even one,
and always a point or an exponent. -/
def Binary.numeral {f : Format} (x : Binary f) : Numeral :=
  let d := Shortest.decimal f .even x.pattern
  let range := f.plainRange
  if range.first ≤ d.exponent ∧ d.exponent ≤ range.last then
    let (whole, fraction) := d.positional
    ⟨x.isNegative, whole, if fraction.isEmpty then [.zero] else fraction, none⟩
  else
    ⟨x.isNegative, d.digits.take 1, d.digits.drop 1, some d.exponent⟩

/-- A real as JSON; there is no numeral for infinities and not-a-numbers. -/
def Binary.toJson {f : Format} (x : Binary f) : Json :=
  if x.isFinite then .number x.numeral else .null

namespace Json

/-- The number that a value is. -/
def number? : Json → Option Number
  | .number n => n.number?
  | _ => none

/-- A natural number below a bound. -/
def nat? (bound : Nat) (j : Json) : Option Nat :=
  match j.number? with
  | some (.natural n) => if n < bound then some n else none
  | _ => none

/-- An integer from `-bound` to below `bound`. -/
def int? (bound : Nat) (j : Json) : Option Int :=
  match j.number? with
  | some (.natural n) => if n < bound then some n else none
  | some (.negative n) => if n ≤ bound then some (-(n : Int)) else none
  | _ => none

/-- A real of a format; every number is one. -/
def real? (f : Format) (j : Json) : Option (Binary f) :=
  j.number?.map (Number.toBinary f)

end Json

/-- True for a finite value that is read as it was written. -/
def Binary.readsBack {f : Format} (x : Binary f) : Bool :=
  decide (x.toJson.real? f = some x)

end FieldArchive

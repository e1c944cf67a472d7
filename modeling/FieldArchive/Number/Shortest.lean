import FieldArchive.Number.Binary
import FieldArchive.Number.Digits

/-!
# Shortest decimals

A finite magnitude is written with the fewest digits that round back to it, and
of several such decimals with the nearest one.  All values involved have finite
decimal expansions, so the search compares whole numbers: the magnitude, the
two ends of the interval that rounds to it, and the grid of decimals with a
given number of digits.
-/

namespace FieldArchive

/-- Which of two equally near decimals is taken. -/
inductive Tie where
  | up
  | even
  deriving DecidableEq, Repr

/-- A decimal magnitude; the first digit stands for `10 ^ exponent`. -/
structure Decimal where
  digits : List Digit
  exponent : Int
  deriving DecidableEq, Repr

namespace Shortest

/-- A whole number and the interval of those that round to the same magnitude;
the ends belong to it if it is `closed`. -/
structure Target where
  low : Nat
  value : Nat
  high : Nat
  closed : Bool
  deriving DecidableEq, Repr

/-- True if `n` rounds to the target. -/
def Target.accepts (t : Target) (n : Nat) : Bool :=
  if t.closed then decide (t.low ≤ n ∧ n ≤ t.high) else decide (t.low < n ∧ n < t.high)

/-- The multiple of `grid` that rounds to the target and is nearest to it,
given by its factor. -/
def Target.nearest? (t : Target) (tie : Tie) (grid : Nat) : Option Nat :=
  let below := t.value / grid
  let above := below + 1
  match t.accepts (below * grid), t.accepts (above * grid) with
  | false, false => none
  | true, false => some below
  | false, true => some above
  | true, true =>
      let down := t.value - below * grid
      let up := above * grid - t.value
      if down < up then some below
      else if up < down then some above
      else match tie with
        | .up => some above
        | .even => if below % 2 = 0 then some below else some above

/-- The factor and the power of the coarsest grid of powers of ten, not above
`10 ^ power`, that has a multiple rounding to the target. -/
def Target.search (t : Target) (tie : Tie) : (power : Nat) → Nat × Nat
  | 0 => (t.value, 0)
  | power + 1 =>
      match t.nearest? tie (Digits.powerOfTen (power + 1)) with
      | some factor => (factor, power + 1)
      | none => t.search tie power

/-- Decimal places that a quarter of the least spacing takes. -/
def places (f : Format) : Nat := f.scale + 2

/-- The interval of a positive magnitude, counted in units of `10 ^ -places`.

The neighbours are one spacing apart, except that below a power of two, which
has the least significand of its exponent, the spacing is half as wide. -/
def target (f : Format) (m : Format.Magnitude) : Target :=
  let quarter := Nat.pow 5 (places f) <<< m.shift
  let value := 4 * m.significand * quarter
  let narrow := m.significand = f.leadingBit ∧ 0 < m.shift
  { low := if narrow then value - quarter else value - 2 * quarter
    value := value
    high := value + 2 * quarter
    closed := decide (m.significand % 2 = 0) }

/-- The shortest decimal of an unsigned pattern below infinity. -/
def decimal (f : Format) (tie : Tie) (pattern : Nat) : Decimal :=
  let m := f.magnitude pattern
  if m.significand = 0 then ⟨[.zero], 0⟩
  else
    let t := target f m
    let (factor, power) := t.search tie ((Digits.ofNat t.value).length - 1)
    let digits := Digits.ofNat factor
    { digits := Digits.dropTrailingZeros digits
      exponent := (digits.length : Int) - 1 + power - places f }

end Shortest

namespace Decimal

/-- Digits before and after the point. -/
def positional (d : Decimal) : List Digit × List Digit :=
  if d.exponent < 0 then
    ([.zero], List.replicate ((-d.exponent).toNat - 1) .zero ++ d.digits)
  else
    let whole := d.exponent.toNat + 1
    (d.digits.take whole ++ List.replicate (whole - d.digits.length) .zero, d.digits.drop whole)

end Decimal

/-- The text of a value in names and messages: the shortest digits, without an
exponent and without a point after a whole number; a tie goes up. -/
def Binary.display {f : Format} (x : Binary f) : String :=
  if x.isNaN then "NaN"
  else
    let sign := if x.isNegative then "-" else ""
    if x.isFinite then
      let (whole, fraction) := (Shortest.decimal f .up x.pattern).positional
      let point := if fraction.isEmpty then [] else '.' :: Digits.chars fraction
      sign ++ String.ofList (Digits.chars whole ++ point)
    else sign ++ "inf"

end FieldArchive

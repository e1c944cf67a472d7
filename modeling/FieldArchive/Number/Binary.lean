/-!
# Binary floating point

Floating point values are bit patterns of an interchange format: a sign bit, an
exponent and a fraction.  Two values are the same if and only if their patterns
are, so a not-a-number equals itself and the two zeros differ.

Every finite magnitude is a whole multiple of the least positive one,
`2 ^ -scale`.  A ratio of naturals is rounded to the nearest magnitude in exact
arithmetic, a tie to the even significand.
-/

namespace FieldArchive

/-- A binary interchange format. -/
structure Format where
  fractionBits : Nat
  exponentBits : Nat
  deriving DecidableEq, Repr

namespace Format

/-- The 32-bit format. -/
def single : Format := ⟨23, 8⟩

/-- The 64-bit format. -/
def double : Format := ⟨52, 11⟩

/-- Bits of a pattern. -/
def width (f : Format) : Nat := 1 + f.exponentBits + f.fractionBits

/-- The least positive magnitude is `2 ^ -scale`. -/
def scale (f : Format) : Nat := (1 <<< (f.exponentBits - 1)) + f.fractionBits - 2

/-- Patterns below this one have no sign. -/
def signBit (f : Format) : Nat := 1 <<< (f.exponentBits + f.fractionBits)

/-- The pattern of infinity; patterns above it are not numbers. -/
def infinity (f : Format) : Nat := ((1 <<< f.exponentBits) - 1) <<< f.fractionBits

/-- The least significand of a magnitude with a leading bit. -/
def leadingBit (f : Format) : Nat := 1 <<< f.fractionBits

/-- A finite magnitude: `significand * 2 ^ shift` times the least positive one. -/
structure Magnitude where
  significand : Nat
  shift : Nat
  deriving DecidableEq, Repr

/-- How often the least positive magnitude is taken. -/
def Magnitude.units (m : Magnitude) : Nat := m.significand <<< m.shift

/-- The magnitude of an unsigned pattern below infinity. -/
def magnitude (f : Format) (pattern : Nat) : Magnitude :=
  let exponent := pattern / f.leadingBit
  let fraction := pattern % f.leadingBit
  if exponent = 0 then ⟨fraction, 0⟩ else ⟨f.leadingBit + fraction, exponent - 1⟩

/-- The quotient nearest to `a / b`, the even one of two. -/
def divNearest (a b : Nat) : Nat :=
  let q := a / b
  let r := a % b
  if b < 2 * r ∨ (b = 2 * r ∧ q % 2 = 1) then q + 1 else q

/-- The unsigned pattern nearest to `a / b`, or infinity if that is too large.

The significand is cut to one bit more than the fraction.  A pattern is the
shift followed by the significand without its leading bit, so adding the two
also carries a significand that was rounded up to the next power of two. -/
def ofRatio (f : Format) (a b : Nat) : Nat :=
  let scaled := a <<< f.scale
  let shift := (scaled / b).log2 - f.fractionBits
  min (shift * f.leadingBit + divNearest scaled (b <<< shift)) f.infinity

/-- The product of two finite unsigned patterns, rounded. -/
def mul (f : Format) (x y : Nat) : Nat :=
  f.ofRatio ((f.magnitude x).units * (f.magnitude y).units) (1 <<< (f.scale + f.scale))

/-- The quotient of two finite unsigned patterns, rounded. -/
def div (f : Format) (x y : Nat) : Nat :=
  f.ofRatio (f.magnitude x).units (f.magnitude y).units

end Format

/-- A floating point value: a pattern of its format. -/
structure Binary (f : Format) where
  bits : BitVec f.width
  deriving DecidableEq, Repr

/-- A value of the 32-bit format. -/
abbrev Binary32 := Binary .single

/-- A value of the 64-bit format. -/
abbrev Binary64 := Binary .double

namespace Binary

variable {f : Format}

/-- The value of a pattern with its sign. -/
def ofPattern (negative : Bool) (pattern : Nat) : Binary f :=
  ⟨BitVec.ofNat _ (if negative then f.signBit + pattern else pattern)⟩

/-- True if the sign bit is set. -/
def isNegative (x : Binary f) : Bool := decide (f.signBit ≤ x.bits.toNat)

/-- The pattern without its sign. -/
def pattern (x : Binary f) : Nat := x.bits.toNat % f.signBit

/-- False for infinities and for what is not a number. -/
def isFinite (x : Binary f) : Bool := decide (x.pattern < f.infinity)

/-- True if the value is not a number. -/
def isNaN (x : Binary f) : Bool := decide (f.infinity < x.pattern)

/-- A finite value in another format, rounded to nearest. -/
def convert (g : Format) (x : Binary f) : Binary g :=
  .ofPattern x.isNegative (g.ofRatio (f.magnitude x.pattern).units (1 <<< f.scale))

end Binary
end FieldArchive

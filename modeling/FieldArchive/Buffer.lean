import FieldArchive.Element
import FieldArchive.Number.Binary

/-!
# Field buffers

The elements of one snapshot of a field, in row-major order.  Each element is a
bit pattern of its width; integers are in two's complement.
-/

namespace FieldArchive

/-- The typed contents of one snapshot. -/
inductive Buffer where
  | int32 (values : List Int32)
  | int64 (values : List Int64)
  | float32 (values : List Binary32)
  | float64 (values : List Binary64)
  deriving DecidableEq, Repr

namespace Buffer

def elementType : Buffer → ElementType
  | int32 _ => .int32
  | int64 _ => .int64
  | float32 _ => .float32
  | float64 _ => .float64

/-- Number of elements. -/
def size : Buffer → Nat
  | int32 vs => vs.length
  | int64 vs => vs.length
  | float32 vs => vs.length
  | float64 vs => vs.length

/-- The bit patterns of the elements. -/
def patterns : Buffer → List Nat
  | int32 vs => vs.map fun v => v.toBitVec.toNat
  | int64 vs => vs.map fun v => v.toBitVec.toNat
  | float32 vs => vs.map fun v => v.bits.toNat
  | float64 vs => vs.map fun v => v.bits.toNat

/-- The elements with the given bit patterns. -/
def ofPatterns : ElementType → List Nat → Buffer
  | .int32, ps => int32 (ps.map fun p => Int32.ofBitVec (BitVec.ofNat 32 p))
  | .int64, ps => int64 (ps.map fun p => Int64.ofBitVec (BitVec.ofNat 64 p))
  | .float32, ps => float32 (ps.map fun p => ⟨BitVec.ofNat _ p⟩)
  | .float64, ps => float64 (ps.map fun p => ⟨BitVec.ofNat _ p⟩)

/-- A buffer of zeros. -/
def zeros (t : ElementType) (count : Nat) : Buffer := ofPatterns t (List.replicate count 0)

/-- The integers of an `int32` buffer. -/
def int32? : Buffer → Option (List Int32)
  | int32 vs => some vs
  | _ => none

/-- The integers of an `int64` buffer. -/
def int64? : Buffer → Option (List Int64)
  | int64 vs => some vs
  | _ => none

/-- The reals of a `float32` buffer. -/
def float32? : Buffer → Option (List Binary32)
  | float32 vs => some vs
  | _ => none

/-- The reals of a `float64` buffer. -/
def float64? : Buffer → Option (List Binary64)
  | float64 vs => some vs
  | _ => none

end Buffer
end FieldArchive

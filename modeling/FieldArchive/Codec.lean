import FieldArchive.Buffer
import FieldArchive.Error

/-!
# The binary codec

A snapshot is stored as the bytes of its elements, one element after the other.
Byte order and precision are fixed for an archive: a field of reals must have
the precision's type.
-/

namespace FieldArchive

namespace Word

/-- The lowest `width` bytes of a number, least significant first. -/
def littleBytes : (width : Nat) → Nat → List UInt8
  | 0, _ => []
  | width + 1, n => UInt8.ofNat n :: littleBytes width (n / 256)

/-- The number that bytes stand for, least significant first. -/
def ofLittleBytes : List UInt8 → Nat
  | [] => 0
  | b :: rest => b.toNat + 256 * ofLittleBytes rest

/-- The lowest `width` bytes of a number in a byte order. -/
def bytes (order : Endianness) (width n : Nat) : List UInt8 :=
  match order with
  | .little => littleBytes width n
  | .big => (littleBytes width n).reverse

/-- The number that bytes stand for in a byte order. -/
def ofBytes (order : Endianness) (bs : List UInt8) : Nat :=
  match order with
  | .little => ofLittleBytes bs
  | .big => ofLittleBytes bs.reverse

/-- The first `count` groups of `width` bytes. -/
def groups (width : Nat) : (count : Nat) → List UInt8 → List (List UInt8)
  | 0, _ => []
  | count + 1, bs => bs.take width :: groups width count (bs.drop width)

end Word

/-- The byte order and the precision of an archive. -/
structure Codec where
  endianness : Endianness
  precision : Precision
  deriving DecidableEq, Repr

namespace Codec

def ofSettings (s : Settings) : Codec := ⟨s.endianness, s.precision⟩

/-- Check that elements of a type belong to a field, and that the precision
allows them. -/
def checkType (codec : Codec) (info : FieldInfo) (actual : ElementType) : Except Error Unit :=
  let expected := info.elementType
  if actual ≠ expected then .error (.typeMismatch info.name expected.name actual.name)
  else if expected.isFloating && decide (expected ≠ .real codec.precision) then
    .error (.typeMismatch info.name (ElementType.real codec.precision).name expected.name)
  else .ok ()

/-- The bytes of a snapshot. -/
def encode (codec : Codec) (info : FieldInfo) (buffer : Buffer) : Except Error (List UInt8) := do
  codec.checkType info buffer.elementType
  if buffer.size ≠ info.elementCount then
    throw (.sizeMismatch info.name info.elementCount buffer.size)
  let width := buffer.elementType.byteWidth
  if info.byteSize ≠ buffer.size * width then throw .aborted
  return buffer.patterns.flatMap fun p => Word.bytes codec.endianness width p

/-- The snapshot that bytes stand for. -/
def decode (codec : Codec) (info : FieldInfo) (bytes : List UInt8) : Except Error Buffer := do
  codec.checkType info info.elementType
  if bytes.length ≠ info.byteSize then
    throw (.sizeMismatch info.name info.byteSize bytes.length)
  let width := info.elementType.byteWidth
  if bytes.length ≠ info.elementCount * width then throw .aborted
  return .ofPatterns info.elementType
    ((Word.groups width info.elementCount bytes).map fun g => Word.ofBytes codec.endianness g)

end Codec
end FieldArchive

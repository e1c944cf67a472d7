import FieldArchive.Element
import FieldArchive.Metainfo.Json

/-!
# Fields

A field is described by its name, its element type and width, the extent of
each dimension, halo widths and metainfo.  Extents are the full allocated
sizes; a halo only says which part of a dimension is boundary.

A description that was read from a document has not been checked.  `validate`
says whether its sizes can be relied on.
-/

namespace FieldArchive

/-- The boundary widths of one dimension. -/
structure Halo where
  minus : UInt64
  plus : UInt64
  deriving DecidableEq, Repr, Inhabited

namespace Halo

/-- The same width on both sides. -/
def symmetric (width : UInt64) : Halo := ⟨width, width⟩

def toJson (h : Halo) : Json :=
  .record [("minus", .nat h.minus.toNat), ("plus", .nat h.plus.toNat)]

end Halo

/-- The largest number of elements or bytes that can be addressed. -/
def addressLimit : Nat := wordBound - 1

/-- The product, unless it is above the address limit. -/
def checkedMul (a b : Nat) : Option Nat :=
  if a * b ≤ addressLimit then some (a * b) else none

/-- The description of a field. -/
structure FieldInfo where
  name : String
  elementType : ElementType
  byteWidth : UInt64
  dims : List UInt64
  halos : List Halo
  metainfo : Metainfo
  deriving Repr

namespace FieldInfo

/-- Why a description cannot be relied on. -/
inductive Defect where
  | emptyName
  | haloCount (name : String) (halos rank : Nat)
  | byteWidth (name : String) (width : UInt64) (elementType : ElementType)
  | overflow (name : String) (dims : List UInt64)
  deriving DecidableEq, Repr

/-- The extents, separated by commas, in brackets. -/
def dimsText (dims : List UInt64) : String :=
  "[" ++ ", ".intercalate (dims.map fun d => Digits.text d.toNat) ++ "]"

def Defect.message : Defect → String
  | emptyName => "field name must not be empty"
  | haloCount name halos rank =>
      "field '" ++ name ++ "': " ++ Digits.text halos ++ " halo entries for rank " ++
        Digits.text rank
  | byteWidth name width t =>
      "field '" ++ name ++ "': byte width " ++ Digits.text width.toNat ++ " does not match " ++
        t.name ++ " (" ++ Digits.text t.byteWidth ++ " bytes)"
  | overflow name dims =>
      "field '" ++ name ++ "': extents " ++ dimsText dims ++ " overflow the addressable size"

/-- Number of dimensions. -/
def rank (f : FieldInfo) : Nat := f.dims.length

/-- The product of the extents from the left, if no product on the way is above
the address limit. -/
def checkedElementCount (f : FieldInfo) : Option Nat :=
  f.dims.foldlM (fun n d => checkedMul n d.toNat) 1

def checkedByteSize (f : FieldInfo) : Option Nat := do
  checkedMul (← f.checkedElementCount) f.byteWidth.toNat

/-- Number of elements, at most the address limit. -/
def elementCount (f : FieldInfo) : Nat := f.checkedElementCount.getD addressLimit

/-- Number of encoded bytes, at most the address limit. -/
def byteSize (f : FieldInfo) : Nat := f.checkedByteSize.getD addressLimit

/-- Check that a description is consistent and that its size can be addressed. -/
def validate (f : FieldInfo) : Except Defect Unit :=
  if f.name.isEmpty then .error .emptyName
  else if f.halos.length ≠ f.dims.length then
    .error (.haloCount f.name f.halos.length f.dims.length)
  else if f.byteWidth.toNat ≠ f.elementType.byteWidth then
    .error (.byteWidth f.name f.byteWidth f.elementType)
  else if f.checkedByteSize.isNone then .error (.overflow f.name f.dims)
  else .ok ()

/-- A description of the given parts, if it is consistent. -/
def make (name : String) (elementType : ElementType) (byteWidth : UInt64)
    (dims : List UInt64) (halos : List Halo) : Except Defect FieldInfo :=
  let f : FieldInfo := ⟨name, elementType, byteWidth, dims, halos, .empty⟩
  f.validate.map fun _ => f

/-- A description with the natural width of its elements and no halos. -/
def withType (name : String) (elementType : ElementType) (dims : List UInt64) :
    Except Defect FieldInfo :=
  make name elementType (UInt64.ofNat elementType.byteWidth) dims
    (List.replicate dims.length ⟨0, 0⟩)

/-- True if type, width and extents agree; halos and metainfo may differ. -/
def agreesWith (a b : FieldInfo) : Bool :=
  a.elementType == b.elementType && a.byteWidth == b.byteWidth && a.dims == b.dims

/-- Descriptions are interchangeable if their metainfo is and all else is equal. -/
protected def beq (a b : FieldInfo) : Bool :=
  a.name == b.name && a.elementType == b.elementType && a.byteWidth == b.byteWidth &&
    a.dims == b.dims && a.halos == b.halos && a.metainfo == b.metainfo

instance : BEq FieldInfo := ⟨FieldInfo.beq⟩

/-- Element type and extents. -/
def shape (f : FieldInfo) : String := f.elementType.name ++ dimsText f.dims

def display (f : FieldInfo) : String := f.name ++ ": " ++ f.shape

def toJson (f : FieldInfo) : Json :=
  .record
    [("name", .str f.name),
     ("element_type", .str f.elementType.name),
     ("byte_width", .nat f.byteWidth.toNat),
     ("dims", .array (f.dims.map fun d => .nat d.toNat)),
     ("halos", .array (f.halos.map Halo.toJson)),
     ("metainfo", f.metainfo.toJson)]

end FieldInfo

namespace Json

/-- A word of 64 bits. -/
def word? (j : Json) : Option UInt64 := (j.nat? wordBound).map UInt64.ofNat

end Json

def Halo.ofJson? (j : Json) : Option Halo := do
  match ← j.fields? ["minus", "plus"] with
  | [minus, plus] => some ⟨← (← minus).word?, ← (← plus).word?⟩
  | _ => none

/-- Read a description without checking it. -/
def FieldInfo.ofJson? (j : Json) : Option FieldInfo := do
  match ← j.fields? ["name", "element_type", "byte_width", "dims", "halos", "metainfo"] with
  | [name, elementType, byteWidth, dims, halos, metainfo] =>
      some
        { name := ← (← name).text?
          elementType := ← (← elementType).choice? ElementType.ofName?
          byteWidth := ← (← byteWidth).word?
          dims := ← (← dims).list? Json.word?
          halos := ← (← halos).list? Halo.ofJson?
          metainfo := ← metainfo.elim (some .empty) Metainfo.ofJson? }
  | _ => none

end FieldArchive

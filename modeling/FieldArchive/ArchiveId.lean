import FieldArchive.Hex

/-!
# Archive identifiers

An archive is identified by 128 bits, written as 32 hexadecimal digits in five
groups.  Reading also takes the digits without groups, in braces, or after
`urn:uuid:`, in either case.
-/

namespace FieldArchive

/-- An identifier of 128 bits. -/
structure ArchiveId where
  digits : List Nibble
  length_digits : digits.length = 32
  deriving DecidableEq, Repr

namespace ArchiveId

/-- The identifier with a value, taken modulo `2 ^ 128`. -/
def ofNat (n : Nat) : ArchiveId := ⟨Hex.digitsOf 32 n, Hex.length_digitsOf 32 n⟩

instance : Inhabited ArchiveId := ⟨ofNat 0⟩

/-- The sizes of the groups. -/
def groupSizes : List Nat := [8, 4, 4, 4, 12]

/-- Digits in groups, with a hyphen between two groups. -/
def grouped : List Nat → List Nibble → List Char
  | [], _ => []
  | [n], ds => (ds.take n).map Hex.digit
  | n :: sizes, ds => (ds.take n).map Hex.digit ++ '-' :: grouped sizes (ds.drop n)

/-- The digits of groups with hyphens between them. -/
def ungroup? : List Nat → List Char → Option (List Nibble)
  | [], cs => if cs.isEmpty then some [] else none
  | [n], cs => if cs.length = n then cs.mapM Hex.value? else none
  | n :: sizes, cs =>
      match cs.drop n with
      | '-' :: rest => do
          let head ← (cs.take n).mapM Hex.value?
          let tail ← ungroup? sizes rest
          some (head ++ tail)
      | _ => none

/-- The written form. -/
def text (id : ArchiveId) : String := String.ofList (grouped groupSizes id.digits)

/-- The digits of a text, by the form that its length gives it. -/
def digits? (cs : List Char) : Option (List Nibble) :=
  match cs.length with
  | 32 => cs.mapM Hex.value?
  | 36 => ungroup? groupSizes cs
  | 38 =>
      match cs.head?, cs.getLast? with
      | some '\x7b', some '\x7d' => ungroup? groupSizes (cs.drop 1).dropLast
      | _, _ => none
  | 45 =>
      if (cs.take 9).map Char.toLower = "urn:uuid:".toList then ungroup? groupSizes (cs.drop 9)
      else none
  | _ => none

/-- Read an identifier. -/
def parse? (s : String) : Option ArchiveId :=
  match digits? s.toList with
  | some ds => if h : ds.length = 32 then some ⟨ds, h⟩ else none
  | none => none

/-- True for an identifier with the layout of randomly drawn ones. -/
def isRandom (id : ArchiveId) : Bool := (id.digits[12]?).map Fin.val == some 4

end ArchiveId
end FieldArchive

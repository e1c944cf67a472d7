import FieldArchive.Digest.Sha256
import FieldArchive.Digest.Xxh3
import FieldArchive.Element
import FieldArchive.Hex

/-!
# Checksums

The checksum of a payload is the hexadecimal text of its digest.  Payloads with
one checksum are stored once, so an archive is only as good as its digest is
free of collisions.
-/

namespace FieldArchive

/-- The digest of an archive. -/
inductive ChecksumAlgorithm where
  | sha256
  | xxh3
  deriving DecidableEq, Repr, Inhabited

namespace ChecksumAlgorithm

/-- Characters of a checksum. -/
def hexLength : ChecksumAlgorithm → Nat
  | sha256 => 64
  | xxh3 => 16

def name : ChecksumAlgorithm → String
  | sha256 => "sha256"
  | xxh3 => "xxh3"

def ofName? : String → Option ChecksumAlgorithm
  | "sha256" => some sha256
  | "xxh3" => some xxh3
  | _ => none

/-- Read an algorithm by name. -/
def parse (s : String) : Except UnknownName ChecksumAlgorithm :=
  match ofName? s with
  | some a => .ok a
  | none => .error ⟨"checksum algorithm", s, ("sha256", "xxh3")⟩

@[simp] theorem ofName?_name (a : ChecksumAlgorithm) : ofName? a.name = some a := by
  cases a <;> rfl

end ChecksumAlgorithm

/-- The text of a digest, or what a document gives for one. -/
structure Checksum where
  text : String
  deriving DecidableEq, Repr, Inhabited

namespace Checksum

/-- The checksum of a payload. -/
def compute : ChecksumAlgorithm → List UInt8 → Checksum
  | .sha256, bytes => ⟨String.ofList (Hex.ofBytes (Sha256.digest bytes))⟩
  | .xxh3, bytes => ⟨String.ofList ((Hex.digitsOf 16 (Xxh3.hash bytes).toNat).map Hex.digit)⟩

/-- True for a text of the length and alphabet that the algorithm produces. -/
def isWellFormed (algorithm : ChecksumAlgorithm) (c : Checksum) : Bool :=
  c.text.toList.length == algorithm.hexLength && c.text.toList.all Hex.isDigit

end Checksum
end FieldArchive

import FieldArchive.Checksum
import FieldArchive.Proofs.Hex
import Mathlib.Data.List.Basic

/-!
# Checksums

A checksum is the digest of a payload in hexadecimal digits.  The digits are the whole digest,
leading zeros included, so writing it down joins no payloads that the digest tells apart.  Nothing
is claimed of the digests: two payloads may share one, and then they share the checksum.

* `Checksum.isWellFormed_compute_iff`: a checksum has the form of its own algorithm and of no
  other;
* `Checksum.compute_sha256_inj`, `Checksum.compute_xxh3_inj`: payloads share a checksum exactly
  if they share the digest.
-/

namespace FieldArchive

theorem ChecksumAlgorithm.hexLength_injective : Function.Injective hexLength := by
  intro a b h
  cases a <;> cases b <;> first | rfl | cases h

namespace Checksum

variable {algorithm other : ChecksumAlgorithm}

/-! ## The form of a checksum -/

theorem isWellFormed_iff {c : Checksum} :
    c.isWellFormed algorithm = true ↔
      c.text.toList.length = algorithm.hexLength ∧ c.text.toList.all Hex.isDigit = true := by
  rw [isWellFormed, Bool.and_eq_true, beq_iff_eq]

/-- The checksum of a payload has the form of the algorithm. -/
theorem isWellFormed_compute (algorithm : ChecksumAlgorithm) (bytes : List UInt8) :
    (compute algorithm bytes).isWellFormed algorithm = true := by
  rw [isWellFormed_iff]
  cases algorithm with
  | sha256 =>
      rw [compute, String.toList_ofList, Hex.length_ofBytes, Sha256.length_digest]
      exact ⟨rfl, Hex.all_isDigit_ofBytes _⟩
  | xxh3 =>
      rw [compute, String.toList_ofList, List.length_map, Hex.length_digitsOf]
      exact ⟨rfl, Hex.all_isDigit _⟩

/-- The algorithms write checksums of different lengths, so a text has the form of one at most. -/
theorem isWellFormed_unique {c : Checksum} (h : c.isWellFormed algorithm = true) :
    c.isWellFormed other = true ↔ other = algorithm := by
  constructor
  · intro hOther
    have hLength : other.hexLength = algorithm.hexLength :=
      (isWellFormed_iff.1 hOther).1.symm.trans (isWellFormed_iff.1 h).1
    exact ChecksumAlgorithm.hexLength_injective hLength
  · rintro rfl
    exact h

theorem isWellFormed_compute_iff {bytes : List UInt8} :
    (compute algorithm bytes).isWellFormed other = true ↔ other = algorithm :=
  isWellFormed_unique (isWellFormed_compute algorithm bytes)

/-! ## Checksums that are the same -/

variable {a b : List UInt8}

theorem compute_sha256_inj : compute .sha256 a = compute .sha256 b ↔
    Sha256.digest a = Sha256.digest b := by
  rw [compute, compute, Checksum.mk.injEq, String.ofList_inj, Hex.ofBytes_injective.eq_iff]

theorem compute_xxh3_inj : compute .xxh3 a = compute .xxh3 b ↔ Xxh3.hash a = Xxh3.hash b := by
  have hBound : ∀ bytes, (Xxh3.hash bytes).toNat < 16 ^ 16 := fun bytes =>
    (Xxh3.hash bytes).toNat_lt
  rw [compute, compute, Checksum.mk.injEq, String.ofList_inj,
    Hex.digit_injective.list_map.eq_iff, Hex.digitsOf_inj (hBound a) (hBound b), UInt64.toNat_inj]

end Checksum
end FieldArchive

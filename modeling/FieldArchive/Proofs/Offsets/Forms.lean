import FieldArchive.Proofs.Checksum
import FieldArchive.Proofs.Offsets.Updates

/-!
# Checksums in the offset table

A table computes a checksum for every payload that it stores, and looks at the form of every
checksum that is put back.  So what one table has stored is never turned away by another of the
same algorithm because of its form, and always by one of the other algorithm.

* `OffsetTable.refusesForm_iff`: when the form of a checksum is what an entry is refused for;
* `OffsetTable.isInvariant_isFormed`: whatever is done to a table, the checksums of its entries
  have the form of its algorithm;
* `OffsetTable.digests_accepted`: this for all that is stored, and that payloads share a checksum
  exactly if they share the digest.

An entry may still be refused for other reasons, such as a savepoint that is not known.
-/

namespace FieldArchive.OffsetTable

variable {σ : Type} {algorithm : ChecksumAlgorithm} {t : OffsetTable} {record : OffsetRecord}
  {i : Nat} {f : String}

/-! ## Refusals because of the form -/

/-- Putting an entry back is refused because its checksum does not have the form of the
algorithm. -/
def RefusesForm (t : OffsetTable) (i : Nat) (f : String) (record : OffsetRecord) : Prop :=
  ∃ algorithm checksum field,
    t.restore i f record = .error (.corruptMetadata (.malformedChecksum algorithm checksum field))

/-- The form is looked at if the savepoint is known and the key is free. -/
theorem refusesForm_iff :
    t.RefusesForm i f record ↔
      i < t.savepoints.length ∧ t.position? i f = none ∧
      record.checksum.isWellFormed t.algorithm = false := by
  unfold RefusesForm restore
  by_cases hLt : i < t.savepoints.length
  · rw [List.getElem?_eq_getElem hLt]
    cases t.position? i f with
    | some n => simp
    | none =>
        cases record.checksum.isWellFormed t.algorithm with
        | false => simp [hLt]
        | true =>
            -- the form is right, so what is left is another range under the checksum
            cases t.byChecksum.get? record.checksum with
            | none => simp
            | some extent => by_cases hSame : extent = record.extent <;> simp [hSame]
  · rw [List.getElem?_eq_none (by omega)]
    simp [hLt]

/-- A checksum of the form of an algorithm is refused by tables of the other one only. -/
theorem refusesForm_iff_of_isWellFormed (h : record.checksum.isWellFormed algorithm = true) :
    t.RefusesForm i f record ↔
      i < t.savepoints.length ∧ t.position? i f = none ∧ t.algorithm ≠ algorithm := by
  rw [refusesForm_iff, ← Bool.not_eq_true, Checksum.isWellFormed_unique h]

/-! ## Tables under updates -/

/-- The table is one of the algorithm, and so are the checksums of its entries. -/
structure IsFormed (algorithm : ChecksumAlgorithm) (t : OffsetTable) : Prop where
  algorithm_eq : t.algorithm = algorithm
  formed : ∀ e ∈ t.entries, e.record.checksum.isWellFormed algorithm = true

theorem isFormed_empty (algorithm : ChecksumAlgorithm) : (empty algorithm).IsFormed algorithm where
  algorithm_eq := rfl
  formed e he := by cases he

theorem IsFormed.registerSavepoint (h : t.IsFormed algorithm) (s : Savepoint) :
    (t.registerSavepoint s).2.IsFormed algorithm where
  algorithm_eq := by rw [registerSavepoint_algorithm, h.algorithm_eq]
  formed := by
    rw [registerSavepoint_entries]
    exact h.formed

theorem IsFormed.add (h : t.IsFormed algorithm) (i : Nat) (f : String)
    (hForm : record.checksum.isWellFormed t.algorithm = true) :
    (t.add i f record).IsFormed algorithm where
  algorithm_eq := by rw [add_algorithm, h.algorithm_eq]
  formed := by
    intro e he
    rw [add_entries] at he
    rcases List.mem_append.1 he with hOld | hNew
    · exact h.formed e hOld
    · rw [List.mem_singleton.1 hNew, ← h.algorithm_eq]
      exact hForm

/-- Every update keeps the form of the checksums. -/
theorem isInvariant_isFormed (algorithm : ChecksumAlgorithm) :
    IsInvariant (IsFormed algorithm) where
  register s h := h.registerSavepoint s
  store s f _ h hEntry := (h.registerSavepoint s).add _ f hEntry.formed
  restore i f _ h _ hEntry := h.add i f hEntry.formed

/-! ## What is written is accepted -/

/-- The checksum of a payload has the form of its algorithm and of no other, and two payloads
have the same one exactly if they have the same digest.  So a record that storing gives back, and
every entry of a table after any updates, is refused for its form by tables of the other algorithm
only, and by all of those that get to look at the form. -/
theorem digests_accepted (algorithm : ChecksumAlgorithm) (updates : List (Update σ)) (store : σ) :
    let t := (run updates (empty algorithm, store)).1
    (∀ bytes other,
      (Checksum.compute algorithm bytes).isWellFormed other = true ↔ other = algorithm) ∧
    (∀ a b, Checksum.compute .sha256 a = Checksum.compute .sha256 b ↔
      Sha256.digest a = Sha256.digest b) ∧
    (∀ a b, Checksum.compute .xxh3 a = Checksum.compute .xxh3 b ↔ Xxh3.hash a = Xxh3.hash b) ∧
    (∀ (write : List UInt8 → EStateM Error σ Nat) (point : Savepoint) (field : String)
      (bytes : List UInt8) (outer : σ) (r : Appended) (state : OffsetTable × σ),
      append write point field bytes (t, outer) = .ok r state →
        r.record.checksum = Checksum.compute algorithm bytes ∧
        ∀ (other : OffsetTable) (i : Nat) (f : String), other.RefusesForm i f r.record ↔
          i < other.savepoints.length ∧ other.position? i f = none ∧
          other.algorithm ≠ algorithm) ∧
    ∀ e ∈ t.entries, ∀ (other : OffsetTable) (i : Nat) (f : String),
      other.RefusesForm i f e.record ↔
        i < other.savepoints.length ∧ other.position? i f = none ∧
        other.algorithm ≠ algorithm := by
  intro t
  have hFormed : t.IsFormed algorithm :=
    (isInvariant_isFormed algorithm).run updates (isFormed_empty algorithm)
  refine ⟨fun _ _ => Checksum.isWellFormed_compute_iff, fun _ _ => Checksum.compute_sha256_inj,
    fun _ _ => Checksum.compute_xxh3_inj, ?_, ?_⟩
  · intro write point field bytes outer r state hAppend
    have hChecksum : r.record.checksum = Checksum.compute algorithm bytes := by
      rw [checksum_of_append_ok hAppend, hFormed.algorithm_eq]
    refine ⟨hChecksum, fun other i f => refusesForm_iff_of_isWellFormed ?_⟩
    rw [hChecksum]
    exact Checksum.isWellFormed_compute algorithm bytes
  · intro e he other i f
    exact refusesForm_iff_of_isWellFormed (hFormed.formed e he)

end FieldArchive.OffsetTable

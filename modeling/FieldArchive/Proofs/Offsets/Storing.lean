import FieldArchive.Proofs.Offsets

/-!
# Storing and putting back

Storing a snapshot and putting back an entry of a document both add an entry to the
offset table, under different conditions.  The lemmas say when each succeeds, what it
adds, and what is left when it fails.
-/

namespace FieldArchive.OffsetTable

/-! ## Storing -/

variable {σ : Type} (write : List UInt8 → EStateM Error σ Nat) {table : OffsetTable} (store : σ)
  {point : Savepoint} {field : String}

theorem append_of_position?_eq_some {n : Nat} (bytes : List UInt8)
    (h : (table.registerSavepoint point).2.position? (table.registerSavepoint point).1 field =
      some n) :
    append write point field bytes (table, store) =
      .error (.duplicateField point field) ((table.registerSavepoint point).2, store) := by
  simp only [append, h]

theorem append_of_byChecksum_eq_some {bytes : List UInt8} {extent : Extent}
    (h : (table.registerSavepoint point).2.position? (table.registerSavepoint point).1 field =
      none)
    (hStored : table.byChecksum.get? (Checksum.compute table.algorithm bytes) = some extent) :
    append write point field bytes (table, store) =
      .ok ⟨⟨Checksum.compute table.algorithm bytes, extent⟩, true⟩
        ((table.registerSavepoint point).2.add (table.registerSavepoint point).1 field
          ⟨Checksum.compute table.algorithm bytes, extent⟩, store) := by
  simp only [append, h, registerSavepoint_algorithm, registerSavepoint_byChecksum, hStored, add]

theorem append_of_byChecksum_eq_none {bytes : List UInt8}
    (h : (table.registerSavepoint point).2.position? (table.registerSavepoint point).1 field =
      none)
    (hNew : table.byChecksum.get? (Checksum.compute table.algorithm bytes) = none) :
    append write point field bytes (table, store) =
      match write bytes store with
      | .error e store => .error e ((table.registerSavepoint point).2, store)
      | .ok offset store =>
          .ok ⟨⟨Checksum.compute table.algorithm bytes, ⟨offset, bytes.length⟩⟩, false⟩
            ((table.registerSavepoint point).2.add (table.registerSavepoint point).1 field
              ⟨Checksum.compute table.algorithm bytes, ⟨offset, bytes.length⟩⟩, store) := by
  cases hWrite : write bytes store with
  | error e store =>
      simp only [append, h, registerSavepoint_algorithm, registerSavepoint_byChecksum, hNew, hWrite]
  | ok offset store =>
      simp only [append, h, registerSavepoint_algorithm, registerSavepoint_byChecksum, hNew, hWrite,
        add]

variable {write store} {bytes : List UInt8}

/-- Storing adds one entry under a free key, with the range that is known for its checksum
if there is one, and writes to the store at most once. -/
theorem append_ok {r : Appended} {t' : OffsetTable} {store' : σ}
    (h : append write point field bytes (table, store) = .ok r (t', store')) :
    (table.registerSavepoint point).2.position? (table.registerSavepoint point).1 field = none ∧
      t' = (table.registerSavepoint point).2.add (table.registerSavepoint point).1 field
        r.record ∧
      (∀ extent, table.byChecksum.get? r.record.checksum = some extent →
        extent = r.record.extent) ∧
      (store' = store ∨ ∃ offset, write bytes store = .ok offset store') := by
  cases hPosition : (table.registerSavepoint point).2.position?
      (table.registerSavepoint point).1 field with
  | some n =>
      rw [append_of_position?_eq_some _ _ _ hPosition] at h
      cases h
  | none =>
      -- the key is free, and the store is asked only if the checksum is new
      refine ⟨rfl, ?_⟩
      cases hStored : table.byChecksum.get? (Checksum.compute table.algorithm bytes) with
      | some extent =>
          rw [append_of_byChecksum_eq_some _ _ hPosition hStored] at h
          cases h
          have hSame : ∀ known, table.byChecksum.get? (Checksum.compute table.algorithm bytes) =
              some known → known = extent := by
            intro known hKnown
            exact Option.some.inj (hKnown.symm.trans hStored)
          exact ⟨rfl, hSame, Or.inl rfl⟩
      | none =>
          rw [append_of_byChecksum_eq_none _ _ hPosition hStored] at h
          split at h
          · cases h
          · next offset store' hWrite =>
              cases h
              have hSame : ∀ known, table.byChecksum.get? (Checksum.compute table.algorithm bytes) =
                  some known → known = ⟨offset, bytes.length⟩ := by
                intro known hKnown
                rw [hStored] at hKnown
                cases hKnown
              exact ⟨rfl, hSame, Or.inr ⟨_, hWrite⟩⟩

/-- The record of a stored snapshot has the checksum of its payload. -/
theorem checksum_of_append_ok {r : Appended} {state : OffsetTable × σ}
    (h : append write point field bytes (table, store) = .ok r state) :
    r.record.checksum = Checksum.compute table.algorithm bytes := by
  cases hPosition : (table.registerSavepoint point).2.position?
      (table.registerSavepoint point).1 field with
  | some n =>
      rw [append_of_position?_eq_some _ _ _ hPosition] at h
      cases h
  | none =>
      cases hStored : table.byChecksum.get? (Checksum.compute table.algorithm bytes) with
      | some extent =>
          rw [append_of_byChecksum_eq_some _ _ hPosition hStored] at h
          cases h
          rfl
      | none =>
          rw [append_of_byChecksum_eq_none _ _ hPosition hStored] at h
          split at h <;> cases h
          rfl

/-- Storing that fails makes the savepoint known and does nothing else.  It fails for a
key that is taken, or in the store. -/
theorem append_error {e : Error} {t' : OffsetTable} {store' : σ}
    (h : append write point field bytes (table, store) = .error e (t', store')) :
    t' = (table.registerSavepoint point).2 ∧
      (e = .duplicateField point field ∨ write bytes store = .error e store') := by
  cases hPosition : (table.registerSavepoint point).2.position?
      (table.registerSavepoint point).1 field with
  | some n =>
      rw [append_of_position?_eq_some _ _ _ hPosition] at h
      cases h
      exact ⟨rfl, Or.inl rfl⟩
  | none =>
      cases hStored : table.byChecksum.get? (Checksum.compute table.algorithm bytes) with
      | some extent =>
          rw [append_of_byChecksum_eq_some _ _ hPosition hStored] at h
          cases h
      | none =>
          rw [append_of_byChecksum_eq_none _ _ hPosition hStored] at h
          split at h
          · next hWrite =>
              cases h
              exact ⟨rfl, Or.inr hWrite⟩
          · cases h

/-! ## Putting back -/

/-- Putting an entry back succeeds if and only if its savepoint is known, its
key is free, its checksum is well formed and no other range has that checksum;
the table then has one more entry. -/
theorem restore_eq_ok_iff {t : OffsetTable} {i : Nat} {f : String} {record : OffsetRecord}
    {t' : OffsetTable} :
    t.restore i f record = .ok t' ↔
      i < t.savepoints.length ∧ t.position? i f = none ∧
      record.checksum.isWellFormed t.algorithm = true ∧
      (∀ extent, t.byChecksum.get? record.checksum = some extent → extent = record.extent) ∧
      t' = t.add i f record := by
  unfold restore add
  by_cases hLt : i < t.savepoints.length
  · rw [List.getElem?_eq_getElem hLt]
    cases t.position? i f with
    | some n => simp
    | none =>
        cases record.checksum.isWellFormed t.algorithm with
        | false => simp
        | true =>
            cases t.byChecksum.get? record.checksum with
            | none => simp [hLt, eq_comm]
            | some extent =>
                by_cases hSame : extent = record.extent
                · simp [hLt, hSame, eq_comm]
                · simp [hSame]
  · rw [List.getElem?_eq_none (by omega)]
    simp [hLt]

end FieldArchive.OffsetTable

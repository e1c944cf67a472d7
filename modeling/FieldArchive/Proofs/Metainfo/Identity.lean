import FieldArchive.Proofs.Index
import FieldArchive.Snapshot
import Mathlib.Data.List.Perm.Subperm

/-!
# Identity of metainfo and savepoints

Two sets are interchangeable exactly if every key has the same value in both.
So the comparison of sets, and with it that of savepoints, is an equivalence,
and a savepoint is found by every probe that is equal to it up to the order in
which its metainfo was set.
-/

namespace FieldArchive

namespace Metainfo

theorem get?_eq_some_iff {m : Metainfo} {key : String} {value : MetaValue} :
    m.get? key = some value ↔ (key, value) ∈ m.entries :=
  Index.get?_eq_some_iff_mem m.keys_nodup

theorem entries_nodup (m : Metainfo) : m.entries.Nodup :=
  List.Nodup.of_map Prod.fst m.keys_nodup

theorem get?_set (m : Metainfo) (key : String) (value : MetaValue) (probe : String) :
    (m.set key value).get? probe = if key == probe then some value else m.get? probe :=
  Index.get?_insert m.index key probe value

theorem get?_erase (m : Metainfo) (key probe : String) :
    (m.erase key).get? probe = if key == probe then none else m.get? probe :=
  Index.get?_erase m.keys_nodup key probe

theorem keys_set (m : Metainfo) (key : String) (value : MetaValue) :
    (m.set key value).keys = if key ∈ m.keys then m.keys else m.keys ++ [key] :=
  Index.keys_insertPair key value m.entries

theorem keys_erase (m : Metainfo) (key : String) :
    (m.erase key).keys = m.keys.filter (· != key) :=
  Index.keys_erase m.keys_nodup key

/-- Sets are interchangeable if and only if they have the same entries.  One inclusion is
compared, and the other follows by counting, since no entry comes twice. -/
theorem beq_iff_perm {a b : Metainfo} : (a == b) = true ↔ a.entries.Perm b.entries := by
  change (Metainfo.beq a b) = true ↔ _
  simp only [Metainfo.beq, Bool.and_eq_true, beq_iff_eq, List.all_eq_true]
  constructor
  · rintro ⟨hSize, hAll⟩
    have hSubset : a.entries ⊆ b.entries := by
      intro e he
      exact get?_eq_some_iff.1 (hAll e he)
    -- the other inclusion: no more entries of the second set are left
    have hLength : b.entries.length ≤ a.entries.length := by
      change b.size ≤ a.size
      omega
    exact (List.subperm_of_subset a.entries_nodup hSubset).perm_of_length_le hLength
  · intro hPerm
    refine ⟨hPerm.length_eq, fun e he => ?_⟩
    exact get?_eq_some_iff.2 (hPerm.mem_iff.1 he)

/-- Sets are interchangeable if and only if all lookups agree. -/
theorem beq_iff_get? {a b : Metainfo} :
    (a == b) = true ↔ ∀ key, a.get? key = b.get? key := by
  rw [beq_iff_perm]
  constructor
  · intro hPerm key
    exact Index.get?_eq_of_perm a.keys_nodup hPerm key
  · intro h
    refine (List.perm_ext_iff_of_nodup a.entries_nodup b.entries_nodup).2 ?_
    rintro ⟨key, value⟩
    rw [← get?_eq_some_iff, ← get?_eq_some_iff, h key]

instance : EquivBEq Metainfo where
  rfl := beq_iff_get?.2 fun _ => rfl
  symm h := beq_iff_get?.2 fun key => (beq_iff_get?.1 h key).symm
  trans h h' := beq_iff_get?.2 fun key => (beq_iff_get?.1 h key).trans (beq_iff_get?.1 h' key)

end Metainfo

namespace Savepoint

theorem beq_iff {a b : Savepoint} :
    (a == b) = true ↔ a.name = b.name ∧ (a.metainfo == b.metainfo) = true := by
  change (Savepoint.beq a b) = true ↔ _
  simp [Savepoint.beq]

instance : EquivBEq Savepoint where
  rfl := beq_iff.2 ⟨rfl, BEq.rfl⟩
  symm h := beq_iff.2 ⟨(beq_iff.1 h).1.symm, BEq.symm (beq_iff.1 h).2⟩
  trans h h' :=
    beq_iff.2
      ⟨(beq_iff.1 h).1.trans (beq_iff.1 h').1, BEq.trans (beq_iff.1 h).2 (beq_iff.1 h').2⟩

end Savepoint
end FieldArchive

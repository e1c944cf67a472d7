import FieldArchive.Metainfo.Lookup
import FieldArchive.Proofs.Offsets.Updates

/-!
# Hashes of metainfo and savepoints

A set of metainfo keeps the order in which its keys were set, and is compared without it.  A
hash must not see that order either, so it is computed from the entries sorted by their keys.
The keys of a set are distinct, so sorting forgets the order and nothing else.

* `Metainfo.hashInput_eq_iff`, `Savepoint.hashInput_eq_iff`: what is hashed is the same for
  interchangeable sets, and for no others;
* `Metainfo.setAll_beq`: distinct keys may be set in any order;
* `Index.getHashed?_eq`: a lookup that goes by hashes first finds what a search finds;
* `Savepoint.identity_and_hash`: all this for savepoints and the index of an offset table.

Nothing is claimed of the hashes themselves: different savepoints may have the same one.
-/

namespace FieldArchive

namespace Metainfo

/-! ## Comparison by lookups -/

/-- A lookup tells the value of a key, or that there is none. -/
theorem get_eq_get_iff {a b : Metainfo} {key : String} :
    a.get key = b.get key ↔ a.get? key = b.get? key := by
  unfold get
  cases a.get? key <;> cases b.get? key <;> simp

theorem beq_iff_get {a b : Metainfo} : (a == b) = true ↔ ∀ key, a.get key = b.get key := by
  simp only [beq_iff_get?, get_eq_get_iff]

theorem equivalence_beq : Equivalence fun a b : Metainfo => (a == b) = true where
  refl _ := BEq.rfl
  symm h := BEq.symm h
  trans h h' := PartialEquivBEq.trans h h'

/-! ## Setting and removing keys -/

/-- Set the keys of a list one after the other. -/
def setAll (m : Metainfo) (entries : List (String × MetaValue)) : Metainfo :=
  entries.foldl (fun m e => m.set e.1 e.2) m

/-- Of distinct keys that are set, each has its value, and the others are as before. -/
theorem get?_setAll (m : Metainfo) {entries : List (String × MetaValue)}
    (h : (entries.map Prod.fst).Nodup) (key : String) :
    (m.setAll entries).get? key =
      ((⟨entries⟩ : Index String MetaValue).get? key).or (m.get? key) := by
  induction entries generalizing m with
  | nil => rfl
  | cons e rest ih =>
      obtain ⟨k, v⟩ := e
      rw [List.map_cons, List.nodup_cons] at h
      show ((m.set k v).setAll rest).get? key = _
      rw [ih _ h.2, get?_set, Index.get?_cons]
      by_cases hKey : k = key
      · -- no later entry sets this key again
        subst hKey
        have hNone : (⟨rest⟩ : Index String MetaValue).get? k = none :=
          Index.get?_eq_none_of_not_mem h.1
        simp [hNone]
      · simp [hKey]

/-- Distinct keys may be set in any order. -/
theorem setAll_beq {a b : Metainfo} {entries entries' : List (String × MetaValue)}
    (hSame : (a == b) = true) (h : (entries.map Prod.fst).Nodup) (hPerm : entries.Perm entries') :
    (a.setAll entries == b.setAll entries') = true := by
  have h' : (entries'.map Prod.fst).Nodup := (hPerm.map Prod.fst).nodup_iff.1 h
  rw [beq_iff_get?] at hSame ⊢
  intro key
  have hIndex : (⟨entries⟩ : Index String MetaValue).get? key =
      (⟨entries'⟩ : Index String MetaValue).get? key := Index.get?_eq_of_perm h hPerm key
  calc (a.setAll entries).get? key
      = ((⟨entries⟩ : Index String MetaValue).get? key).or (a.get? key) := get?_setAll a h key
    _ = ((⟨entries'⟩ : Index String MetaValue).get? key).or (b.get? key) := by
      rw [hIndex, hSame key]
    _ = (b.setAll entries').get? key := (get?_setAll b h' key).symm

theorem erase_beq {a b : Metainfo} (hSame : (a == b) = true) (key : String) :
    (a.erase key == b.erase key) = true := by
  rw [beq_iff_get?] at hSame ⊢
  intro probe
  rw [get?_erase, get?_erase, hSame probe]

/-! ## What is hashed -/

/-- The entries of a set in the order of their keys. -/
def sorted (m : Metainfo) : List (String × MetaValue) :=
  m.entries.mergeSort fun a b => decide (a.1 ≤ b.1)

theorem hashInput_eq (m : Metainfo) : m.hashInput = (m.size, m.sorted) := rfl

theorem sorted_perm (m : Metainfo) : m.sorted.Perm m.entries :=
  List.mergeSort_perm _ _

theorem pairwise_sorted (m : Metainfo) : m.sorted.Pairwise fun a b => a.1 ≤ b.1 := by
  have hSorted : m.sorted.Pairwise fun a b => decide (a.1 ≤ b.1) = true := by
    refine List.pairwise_mergeSort ?_ ?_ m.entries
    · intro a b c hab hbc
      rw [decide_eq_true_eq] at hab hbc ⊢
      exact String.le_trans hab hbc
    · intro a b
      simpa using String.le_total a.1 b.1
  simpa using hSorted

/-- Sorting forgets the order of the entries and nothing else. -/
theorem sorted_eq_iff_perm {a b : Metainfo} : a.sorted = b.sorted ↔ a.entries.Perm b.entries := by
  constructor
  · intro h
    exact (h ▸ a.sorted_perm.symm).trans b.sorted_perm
  · intro hPerm
    have hSorted : a.sorted.Perm b.sorted := (a.sorted_perm.trans hPerm).trans b.sorted_perm.symm
    refine hSorted.eq_of_pairwise ?_ a.pairwise_sorted b.pairwise_sorted
    -- two entries that may stand in either order have one key, so they are the same
    intro x y hx hy hLe hGe
    have hMemX : x ∈ a.entries := a.sorted_perm.mem_iff.1 hx
    have hMemY : y ∈ a.entries := hPerm.mem_iff.2 (b.sorted_perm.mem_iff.1 hy)
    exact List.inj_on_of_nodup_map a.keys_nodup hMemX hMemY (String.le_antisymm hLe hGe)

/-- What is hashed is the same for interchangeable sets, and for no others. -/
theorem hashInput_eq_iff {a b : Metainfo} : a.hashInput = b.hashInput ↔ (a == b) = true := by
  rw [beq_iff_perm, hashInput_eq, hashInput_eq, Prod.mk.injEq, sorted_eq_iff_perm]
  constructor
  · rintro ⟨-, hPerm⟩
    exact hPerm
  · intro hPerm
    exact ⟨hPerm.length_eq, hPerm⟩

/-- The order in which keys are set does not show. -/
example :
    ((empty.set "b" (.bool true)).set "a" (.int32 1)).hashInput =
      (2, [("a", .int32 1), ("b", .bool true)]) := by
  cbv

end Metainfo

/-! ## Lookups by hashes -/

namespace Index

variable {κ α η : Type} [BEq κ] [DecidableEq η]

/-- The value under the first key that matches among those with the hash of the probe. -/
def getHashed? (hash : κ → η) (index : Index κ α) (key : κ) : Option α :=
  (⟨index.pairs.filter fun pair => decide (hash pair.1 = hash key)⟩ : Index κ α).get? key

/-- Hashes may collide, but keys that match must not have different ones. -/
theorem getHashed?_eq {hash : κ → η} (hHash : ∀ k k', (k == k') = true → hash k = hash k')
    (index : Index κ α) (key : κ) : index.getHashed? hash key = index.get? key := by
  simp only [getHashed?, get?, List.find?_filter]
  congr 2
  funext pair
  -- a key that matches the probe has its hash
  cases hKey : pair.1 == key with
  | false => simp
  | true => simp [hHash _ _ hKey]

end Index

namespace Savepoint

theorem beq_iff_get {a b : Savepoint} :
    (a == b) = true ↔ a.name = b.name ∧ ∀ key, a.metainfo.get key = b.metainfo.get key := by
  rw [beq_iff, Metainfo.beq_iff_get]

theorem equivalence_beq : Equivalence fun a b : Savepoint => (a == b) = true where
  refl _ := BEq.rfl
  symm h := BEq.symm h
  trans h h' := PartialEquivBEq.trans h h'

/-- What is hashed is the same for interchangeable savepoints, and for no others. -/
theorem hashInput_eq_iff {a b : Savepoint} : a.hashInput = b.hashInput ↔ (a == b) = true := by
  rw [beq_iff, hashInput, hashInput, Prod.mk.injEq, Metainfo.hashInput_eq_iff]

/-- Savepoints, and the sets of metainfo that tell them apart, are interchangeable if and only
if every key gives the same value in both, however they were built.  So this is an equivalence,
and distinct keys may be set in any order.  What is hashed is the same for those that are
interchangeable and for no others, so for every hash the index of savepoints finds a
savepoint that it knows for every probe that is interchangeable with it, and for no other. -/
theorem identity_and_hash {σ η : Type} [DecidableEq η]
    (hash : String × Nat × List (String × MetaValue) → η) (algorithm : ChecksumAlgorithm)
    (updates : List (OffsetTable.Update σ)) (store : σ) :
    let t := (OffsetTable.run updates (.empty algorithm, store)).1
    (∀ a b : Metainfo, (a == b) = true ↔ ∀ key, a.get key = b.get key) ∧
    (Equivalence fun a b : Metainfo => (a == b) = true) ∧
    (∀ (a b : Metainfo) (entries entries' : List (String × MetaValue)), (a == b) = true →
      (entries.map Prod.fst).Nodup → entries.Perm entries' →
        (a.setAll entries == b.setAll entries') = true) ∧
    (∀ (a b : Metainfo) (key : String), (a == b) = true → (a.erase key == b.erase key) = true) ∧
    (∀ a b : Metainfo, a.hashInput = b.hashInput ↔ (a == b) = true) ∧
    (∀ a b : Savepoint, (a == b) = true ↔
      a.name = b.name ∧ ∀ key, a.metainfo.get key = b.metainfo.get key) ∧
    (Equivalence fun a b : Savepoint => (a == b) = true) ∧
    (∀ (name : String) (a b : Metainfo) (entries entries' : List (String × MetaValue)),
      (a == b) = true → (entries.map Prod.fst).Nodup → entries.Perm entries' →
        ((⟨name, a.setAll entries⟩ : Savepoint) == ⟨name, b.setAll entries'⟩) = true) ∧
    (∀ a b : Savepoint, a.hashInput = b.hashInput ↔ (a == b) = true) ∧
    ∀ probe id, t.savepointIds.getHashed? (fun s => hash s.hashInput) probe = some id ↔
      ∃ known, t.savepoints[id]? = some known ∧ (known == probe) = true := by
  intro t
  have hExact : t.IsExact := OffsetTable.isExact_run updates (OffsetTable.isExact_empty algorithm)
  refine ⟨fun _ _ => Metainfo.beq_iff_get, Metainfo.equivalence_beq, ?_, ?_,
    fun _ _ => Metainfo.hashInput_eq_iff, fun _ _ => beq_iff_get, equivalence_beq, ?_,
    fun _ _ => hashInput_eq_iff, ?_⟩
  · intro a b entries entries' hSame hKeys hPerm
    exact Metainfo.setAll_beq hSame hKeys hPerm
  · intro a b key hSame
    exact Metainfo.erase_beq hSame key
  · intro name a b entries entries' hSame hKeys hPerm
    exact beq_iff.2 ⟨rfl, Metainfo.setAll_beq hSame hKeys hPerm⟩
  · intro probe id
    have hHash : ∀ s s' : Savepoint, (s == s') = true → hash s.hashInput = hash s'.hashInput := by
      intro s s' hSame
      rw [hashInput_eq_iff.2 hSame]
    rw [Index.getHashed?_eq hHash]
    exact hExact.coherent.savepointId?_eq_some_iff

end Savepoint
end FieldArchive

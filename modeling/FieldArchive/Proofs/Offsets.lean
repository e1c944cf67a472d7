import FieldArchive.Offsets
import FieldArchive.Proofs.Index
import FieldArchive.Proofs.Metainfo.Identity
import Mathlib.Data.List.Nodup

/-!
# Coherent offset tables

An offset table has lists and indices over them.  A table is coherent if its
indices say what its lists say, so that the lists determine every answer.  The
empty table is coherent, and each operation keeps tables so; the lemmas say what
an operation does to the lists.
-/

namespace FieldArchive

/-- True for the entry of a key. -/
def OffsetEntry.hasKey (savepoint : Nat) (field : String) (e : OffsetEntry) : Bool :=
  e.savepoint == savepoint && e.field == field

namespace OffsetTable

/-- The indices of a table agree with its lists, in which nothing comes twice. -/
structure IsCoherent (t : OffsetTable) : Prop where
  savepointIds : ∀ s, t.savepointIds.get? s = t.savepoints.findIdx? fun known => known == s
  savepoints : t.savepoints.Pairwise fun a b => (a == b) = false
  length_positions : t.positions.length = t.savepoints.length
  position : ∀ i f, t.position? i f = t.entries.findIdx? (OffsetEntry.hasKey i f)
  savepoint_lt : ∀ e ∈ t.entries, e.savepoint < t.savepoints.length
  keys : (t.entries.map fun e => (e.savepoint, e.field)).Nodup
  byChecksum : ∀ c, t.byChecksum.get? c =
    (t.entries.find? fun e => e.record.checksum == c).map fun e => e.record.extent
  uniqueRanges : t.uniqueRanges = (t.entries.map fun e => e.record.checksum).eraseDups.length

theorem isCoherent_empty (algorithm : ChecksumAlgorithm) : (empty algorithm).IsCoherent where
  savepointIds _ := rfl
  savepoints := List.Pairwise.nil
  length_positions := rfl
  position _ _ := rfl
  savepoint_lt _ h := by cases h
  keys := List.nodup_nil
  byChecksum _ := rfl
  uniqueRanges := rfl

variable {t : OffsetTable}

/-! ## Savepoints -/

/-- The number of a savepoint is where an interchangeable one stands. -/
theorem IsCoherent.savepointId?_eq_some (h : t.IsCoherent) {s : Savepoint} {id : Nat}
    (hId : t.savepointId? s = some id) :
    ∃ known, t.savepoints[id]? = some known ∧ (known == s) = true := by
  have hFind := h.savepointIds s
  rw [savepointId?] at hId
  rw [hId] at hFind
  obtain ⟨hLt, hSame, -⟩ := List.findIdx?_eq_some_iff_getElem.1 hFind.symm
  exact ⟨t.savepoints[id], List.getElem?_eq_getElem hLt, hSame⟩

/-- A savepoint that stands in the list is found, by any interchangeable one. -/
theorem IsCoherent.savepointId?_of_getElem? (h : t.IsCoherent) {s known : Savepoint} {id : Nat}
    (hKnown : t.savepoints[id]? = some known) (hSame : (known == s) = true) :
    t.savepointId? s = some id := by
  obtain ⟨hLt, rfl⟩ := List.getElem?_eq_some_iff.1 hKnown
  rw [savepointId?, h.savepointIds, List.findIdx?_eq_some_iff_getElem]
  refine ⟨hLt, hSame, ?_⟩
  intro j hj hOther
  have hPair := List.pairwise_iff_getElem.1 h.savepoints j id (by omega) hLt hj
  rw [PartialEquivBEq.trans hOther (BEq.symm hSame)] at hPair
  cases hPair

theorem registerSavepoint_of_some {s : Savepoint} {id : Nat} (h : t.savepointId? s = some id) :
    t.registerSavepoint s = (id, t) := by
  simp only [registerSavepoint, h]

theorem registerSavepoint_of_none {s : Savepoint} (h : t.savepointId? s = none) :
    t.registerSavepoint s =
      (t.savepoints.length,
        { t with
          savepoints := t.savepoints ++ [s]
          savepointIds := t.savepointIds.insert s t.savepoints.length
          positions := t.positions ++ [.empty] }) := by
  simp only [registerSavepoint, h]

/-- A table that knows one more savepoint. -/
theorem IsCoherent.registerSavepoint (h : t.IsCoherent) (s : Savepoint) :
    (t.registerSavepoint s).2.IsCoherent := by
  cases hId : t.savepointId? s with
  | some id =>
      rw [registerSavepoint_of_some hId]
      exact h
  | none =>
      rw [registerSavepoint_of_none hId]
      have hFresh : ∀ known ∈ t.savepoints, (known == s) = false := by
        have hFind := h.savepointIds s
        rw [savepointId?] at hId
        rw [hId] at hFind
        exact List.findIdx?_eq_none_iff.1 hFind.symm
      refine ⟨?_, ?_, ?_, ?_, ?_, h.keys, h.byChecksum, h.uniqueRanges⟩
      · -- the new savepoint is found by what matches it, which no older one does
        intro probe
        simp only [Index.get?_insert, List.findIdx?_append, h.savepointIds]
        by_cases hSame : (s == probe) = true
        · have hNone : t.savepoints.findIdx? (fun known => known == probe) = none := by
            refine List.findIdx?_eq_none_iff.2 fun known hKnown => ?_
            rw [← BEq.congr_right hSame]
            exact hFresh known hKnown
          simp [hSame, hNone]
        · simp [hSame]
      · refine List.pairwise_append.2 ⟨h.savepoints, List.pairwise_singleton _ _, ?_⟩
        intro known hKnown s' hs'
        rw [List.mem_singleton.1 hs']
        exact hFresh known hKnown
      · simp [h.length_positions]
      · -- the index of fields of the new savepoint is empty
        intro i f
        have hOld := h.position i f
        simp only [position?] at hOld ⊢
        by_cases hLt : i < t.positions.length
        · rwa [List.getElem?_append_left hLt]
        · rw [List.getElem?_eq_none (by omega)] at hOld
          rw [List.getElem?_append_right (by omega), ← hOld]
          cases i - t.positions.length <;> rfl
      · intro e he
        have hLt := h.savepoint_lt e he
        simp only [List.length_append]
        omega

theorem registerSavepoint_entries (t : OffsetTable) (s : Savepoint) :
    (t.registerSavepoint s).2.entries = t.entries := by
  cases hId : t.savepointId? s with
  | some id => rw [registerSavepoint_of_some hId]
  | none => rw [registerSavepoint_of_none hId]

theorem registerSavepoint_byChecksum (t : OffsetTable) (s : Savepoint) :
    (t.registerSavepoint s).2.byChecksum = t.byChecksum := by
  cases hId : t.savepointId? s with
  | some id => rw [registerSavepoint_of_some hId]
  | none => rw [registerSavepoint_of_none hId]

theorem registerSavepoint_algorithm (t : OffsetTable) (s : Savepoint) :
    (t.registerSavepoint s).2.algorithm = t.algorithm := by
  cases hId : t.savepointId? s with
  | some id => rw [registerSavepoint_of_some hId]
  | none => rw [registerSavepoint_of_none hId]

/-- The number that is returned is that of an interchangeable savepoint. -/
theorem IsCoherent.registerSavepoint_fst (h : t.IsCoherent) (s : Savepoint) :
    ∃ known, (t.registerSavepoint s).2.savepoints[(t.registerSavepoint s).1]? = some known ∧
      (known == s) = true := by
  cases hId : t.savepointId? s with
  | some id =>
      rw [registerSavepoint_of_some hId]
      exact h.savepointId?_eq_some hId
  | none =>
      rw [registerSavepoint_of_none hId]
      exact ⟨s, by simp, BEq.rfl⟩

/-- A key is taken only at a savepoint that is known. -/
theorem IsCoherent.registerSavepoint_of_taken (h : t.IsCoherent) {s : Savepoint} {field : String}
    {n : Nat}
    (hTaken : (t.registerSavepoint s).2.position? (t.registerSavepoint s).1 field = some n) :
    (t.registerSavepoint s).2 = t := by
  cases hId : t.savepointId? s with
  | some id => rw [registerSavepoint_of_some hId]
  | none =>
      -- a new savepoint has no entry at all
      rw [registerSavepoint_of_none hId] at hTaken
      simp [position?, ← h.length_positions] at hTaken

/-! ## Entries -/

/-- A table with one more entry.  The index of checksums is told of the range
unless it has one for the checksum. -/
def add (t : OffsetTable) (savepoint : Nat) (field : String) (record : OffsetRecord) :
    OffsetTable :=
  match t.byChecksum.get? record.checksum with
  | some _ => t.insert savepoint field record
  | none =>
      { t with byChecksum := t.byChecksum.insert record.checksum record.extent }.insert
        savepoint field record

variable (i : Nat) (f : String) (record : OffsetRecord)

theorem add_entries (t : OffsetTable) :
    (t.add i f record).entries = t.entries ++ [⟨i, f, record⟩] := by
  unfold add
  split <;> rfl

theorem add_savepoints (t : OffsetTable) : (t.add i f record).savepoints = t.savepoints := by
  unfold add
  split <;> rfl

theorem add_savepointIds (t : OffsetTable) :
    (t.add i f record).savepointIds = t.savepointIds := by
  unfold add
  split <;> rfl

theorem add_algorithm (t : OffsetTable) : (t.add i f record).algorithm = t.algorithm := by
  unfold add
  split <;> rfl

theorem add_positions (t : OffsetTable) :
    (t.add i f record).positions =
      t.positions.modify i fun fields => fields.insert f t.entries.length := by
  unfold add
  split <;> rfl

theorem add_byChecksum (t : OffsetTable) :
    (t.add i f record).byChecksum =
      match t.byChecksum.get? record.checksum with
      | some _ => t.byChecksum
      | none => t.byChecksum.insert record.checksum record.extent := by
  unfold add
  split <;> rfl

/-- Only the new key has another position. -/
theorem position?_add (hLt : i < t.positions.length) (j : Nat) (g : String) :
    (t.add i f record).position? j g =
      if i = j ∧ f = g then some t.entries.length else t.position? j g := by
  simp only [position?, add_positions, List.getElem?_modify]
  by_cases hSame : i = j
  · subst hSame
    rw [List.getElem?_eq_getElem hLt]
    simp only [Option.map_eq_map, Option.map_some, if_true, Option.bind_some, Index.get?_insert,
      beq_iff_eq, true_and]
  · simp [hSame]

theorem IsCoherent.position_add (h : t.IsCoherent) (hLt : i < t.savepoints.length)
    (hFree : t.position? i f = none) (j : Nat) (g : String) :
    (t.add i f record).position? j g =
      (t.add i f record).entries.findIdx? (OffsetEntry.hasKey j g) := by
  rw [position?_add i f record (by rwa [h.length_positions]), add_entries, List.findIdx?_append,
    ← h.position]
  by_cases hKey : i = j ∧ f = g
  · obtain ⟨rfl, rfl⟩ := hKey
    simp [hFree, OffsetEntry.hasKey]
  · have hOther : OffsetEntry.hasKey j g ⟨i, f, record⟩ = false := by
      simpa [OffsetEntry.hasKey] using hKey
    simp [hKey, hOther]

theorem IsCoherent.keys_add (h : t.IsCoherent) (hFree : t.position? i f = none) :
    ((t.add i f record).entries.map fun e => (e.savepoint, e.field)).Nodup := by
  have hNoEntry : ∀ e ∈ t.entries, e.hasKey i f = false := by
    rw [h.position] at hFree
    exact List.findIdx?_eq_none_iff.1 hFree
  rw [add_entries, List.map_append, List.nodup_append]
  refine ⟨h.keys, by simp, ?_⟩
  intro a ha b hb hSame
  obtain ⟨e, he, rfl⟩ := List.mem_map.1 ha
  simp only [List.map_cons, List.map_nil, List.mem_singleton] at hb
  rw [hb] at hSame
  have hKey := hNoEntry e he
  simp [OffsetEntry.hasKey, (Prod.mk.inj hSame).1, (Prod.mk.inj hSame).2] at hKey

theorem IsCoherent.byChecksum_add (h : t.IsCoherent) (c : Checksum) :
    (t.add i f record).byChecksum.get? c =
      ((t.add i f record).entries.find? fun e => e.record.checksum == c).map
        fun e => e.record.extent := by
  rw [add_byChecksum, add_entries, List.find?_append, Option.map_or, ← h.byChecksum c]
  by_cases hSame : record.checksum = c
  · subst hSame
    cases hStored : t.byChecksum.get? record.checksum with
    | some extent => simp [hStored]
    | none => simp [Index.get?_insert]
  · cases t.byChecksum.get? record.checksum <;> simp [Index.get?_insert, hSame]

/-- A checksum has a range if and only if an entry has it. -/
theorem IsCoherent.byChecksum_isSome_iff (h : t.IsCoherent) (c : Checksum) :
    (t.byChecksum.get? c).isSome ↔ c ∈ t.entries.map fun e => e.record.checksum := by
  rw [h.byChecksum, Option.isSome_map, List.find?_isSome]
  simp

/-- The index of checksums gets that of a new entry, unless an older entry has it. -/
theorem IsCoherent.keys_byChecksum_add (h : t.IsCoherent) :
    (t.add i f record).byChecksum.keys =
      if record.checksum ∈ t.entries.map fun e => e.record.checksum then t.byChecksum.keys
      else t.byChecksum.keys ++ [record.checksum] := by
  have hKnown := h.byChecksum_isSome_iff record.checksum
  rw [add_byChecksum]
  cases hStored : t.byChecksum.get? record.checksum with
  | some extent =>
      rw [hStored] at hKnown
      rw [if_pos (hKnown.1 rfl)]
  | none =>
      have hNew : record.checksum ∉ t.entries.map fun e => e.record.checksum := by
        intro hMem
        rw [hStored] at hKnown
        cases hKnown.2 hMem
      rw [if_neg hNew, Index.insert_of_get?_eq_none hStored]
      exact List.map_append

theorem IsCoherent.uniqueRanges_add (h : t.IsCoherent) :
    (t.add i f record).uniqueRanges =
      ((t.add i f record).entries.map fun e => e.record.checksum).eraseDups.length := by
  have hSize : ∀ t : OffsetTable, t.uniqueRanges = t.byChecksum.keys.length :=
    fun _ => (List.length_map _).symm
  have hOld := h.uniqueRanges
  rw [hSize] at hOld
  rw [hSize, h.keys_byChecksum_add, add_entries, List.map_append, List.map_singleton,
    Index.eraseDups_concat]
  split
  · exact hOld
  · rw [List.length_append, List.length_append, hOld]

/-- A table stays coherent with one more entry, if its key had none. -/
theorem IsCoherent.add (h : t.IsCoherent) (hLt : i < t.savepoints.length)
    (hFree : t.position? i f = none) : (t.add i f record).IsCoherent where
  savepointIds s := by
    rw [add_savepointIds, add_savepoints]
    exact h.savepointIds s
  savepoints := by
    rw [add_savepoints]
    exact h.savepoints
  length_positions := by
    rw [add_savepoints, add_positions, List.length_modify]
    exact h.length_positions
  position := h.position_add i f record hLt hFree
  savepoint_lt e he := by
    rw [add_savepoints]
    rw [add_entries] at he
    rcases List.mem_append.1 he with hOld | hNew
    · exact h.savepoint_lt e hOld
    · rw [List.mem_singleton.1 hNew]
      exact hLt
  keys := h.keys_add i f record hFree
  byChecksum := h.byChecksum_add i f record
  uniqueRanges := h.uniqueRanges_add i f record

/-! ## Looking up -/

/-- A position is that of the one entry of its key. -/
theorem IsCoherent.position?_eq_some_iff (h : t.IsCoherent) {i n : Nat} {f : String} :
    t.position? i f = some n ↔ ∃ e, t.entries[n]? = some e ∧ e.savepoint = i ∧ e.field = f := by
  rw [h.position, List.findIdx?_eq_some_iff_getElem]
  constructor
  · rintro ⟨hLt, hKey, -⟩
    simp only [OffsetEntry.hasKey, Bool.and_eq_true, beq_iff_eq] at hKey
    exact ⟨t.entries[n], List.getElem?_eq_getElem hLt, hKey⟩
  · rintro ⟨e, hEntry, rfl, rfl⟩
    obtain ⟨hLt, rfl⟩ := List.getElem?_eq_some_iff.1 hEntry
    refine ⟨hLt, by simp [OffsetEntry.hasKey], ?_⟩
    -- an earlier entry with this key would be the same key twice
    intro m hm hKey
    have hInjective := List.pairwise_iff_getElem.1 h.keys m n (by simp; omega) (by simp; omega) hm
    simp only [List.getElem_map] at hInjective
    simp only [OffsetEntry.hasKey, Bool.and_eq_true, beq_iff_eq] at hKey
    exact hInjective (Prod.ext hKey.1 hKey.2)

/-- A key with an entry has the record of that entry. -/
theorem IsCoherent.lookup_of_mem (h : t.IsCoherent) {e : OffsetEntry} (he : e ∈ t.entries)
    {known probe : Savepoint} (hKnown : t.savepoints[e.savepoint]? = some known)
    (hSame : (known == probe) = true) : t.lookup probe e.field = .ok e.record := by
  have hId := h.savepointId?_of_getElem? hKnown hSame
  obtain ⟨n, hEntry⟩ := List.getElem?_of_mem he
  have hPosition : t.position? e.savepoint e.field = some n :=
    h.position?_eq_some_iff.2 ⟨e, hEntry, rfl, rfl⟩
  simp only [lookup, hId, hPosition, Option.bind_some, hEntry]

/-- A lookup that succeeds finds an entry of an interchangeable savepoint. -/
theorem IsCoherent.exists_mem_of_lookup (h : t.IsCoherent) {probe : Savepoint} {field : String}
    {record : OffsetRecord} (hLookup : t.lookup probe field = .ok record) :
    ∃ e ∈ t.entries, e.field = field ∧ e.record = record ∧
      ∃ known, t.savepoints[e.savepoint]? = some known ∧ (known == probe) = true := by
  unfold lookup at hLookup
  cases hId : t.savepointId? probe with
  | none =>
      rw [hId] at hLookup
      cases hLookup
  | some id =>
      obtain ⟨known, hKnown, hSame⟩ := h.savepointId?_eq_some hId
      simp only [hId, h.position] at hLookup
      cases hFind : t.entries.findIdx? (OffsetEntry.hasKey id field) with
      | none =>
          rw [hFind] at hLookup
          cases hLookup
      | some n =>
          obtain ⟨hLt, hKey, -⟩ := List.findIdx?_eq_some_iff_getElem.1 hFind
          simp only [hFind, Option.bind_some, List.getElem?_eq_getElem hLt] at hLookup
          simp only [OffsetEntry.hasKey, Bool.and_eq_true, beq_iff_eq] at hKey
          refine ⟨t.entries[n], List.getElem_mem hLt, hKey.2, ?_, known, ?_, hSame⟩
          · exact Except.ok.inj hLookup
          · rw [hKey.1]
            exact hKnown

/-- A lookup that fails says whether it knows the savepoint. -/
theorem eq_of_lookup_eq_error {probe : Savepoint} {field : String} {e : Error}
    (h : t.lookup probe field = .error e) :
    e = if (t.savepointId? probe).isSome then .fieldNotFound probe field
      else .savepointNotFound probe := by
  unfold lookup at h
  cases hId : t.savepointId? probe with
  | none =>
      rw [hId] at h
      cases h
      rfl
  | some id =>
      simp only [hId] at h
      split at h
      · cases h
      · cases h
        rfl

/-- A lookup fails only by missing. -/
theorem isMiss_of_lookup {probe : Savepoint} {field : String} {e : Error}
    (h : t.lookup probe field = .error e) : e.isMiss = true := by
  rw [eq_of_lookup_eq_error h]
  split <;> rfl

/-- An entry is the one of a key: of the field, at the savepoint that a probe stands
for. -/
structure IsEntryAt (t : OffsetTable) (e : OffsetEntry) (probe : Savepoint)
    (field : String) : Prop where
  mem : e ∈ t.entries
  field_eq : e.field = field
  at_probe : ∃ known, t.savepoints[e.savepoint]? = some known ∧ (known == probe) = true

/-- How a table misses a key. -/
def missOf (t : OffsetTable) (probe : Savepoint) (field : String) : Error :=
  if t.savepoints.any (· == probe) then .fieldNotFound probe field
  else .savepointNotFound probe

theorem IsCoherent.isSome_savepointId? (h : t.IsCoherent) (probe : Savepoint) :
    (t.savepointId? probe).isSome = t.savepoints.any (· == probe) := by
  rw [savepointId?, h.savepointIds, List.findIdx?_isSome]

theorem IsCoherent.lookup_of_no_entry (h : t.IsCoherent) {probe : Savepoint} {field : String}
    (hNone : ¬ ∃ e, t.IsEntryAt e probe field) :
    t.lookup probe field = .error (t.missOf probe field) := by
  cases hLookup : t.lookup probe field with
  | ok record =>
      obtain ⟨e, he, hField, -, hAt⟩ := h.exists_mem_of_lookup hLookup
      exact absurd ⟨e, he, hField, hAt⟩ hNone
  | error x => rw [eq_of_lookup_eq_error hLookup, h.isSome_savepointId?, missOf]

/-- Only one entry is that of a key: the savepoint of the probe has one number, and no
field comes twice at it. -/
theorem IsCoherent.isEntryAt_unique (h : t.IsCoherent) {e e' : OffsetEntry} {probe : Savepoint}
    {field : String} (hEntry : t.IsEntryAt e probe field) (hEntry' : t.IsEntryAt e' probe field) :
    e = e' := by
  obtain ⟨hMem, hField, known, hKnown, hSame⟩ := hEntry
  obtain ⟨hMem', hField', known', hKnown', hSame'⟩ := hEntry'
  have hNumber : e.savepoint = e'.savepoint := by
    have hFound := h.savepointId?_of_getElem? hKnown hSame
    exact Option.some.inj (hFound.symm.trans (h.savepointId?_of_getElem? hKnown' hSame'))
  exact List.inj_on_of_nodup_map h.keys hMem hMem' (Prod.ext hNumber (hField.trans hField'.symm))

theorem IsCoherent.lookup_eq_ok_iff (h : t.IsCoherent) {probe : Savepoint} {field : String}
    {record : OffsetRecord} :
    t.lookup probe field = .ok record ↔ ∃ e, t.IsEntryAt e probe field ∧ e.record = record := by
  constructor
  · intro hLookup
    obtain ⟨e, he, hField, hRecord, hAt⟩ := h.exists_mem_of_lookup hLookup
    exact ⟨e, ⟨he, hField, hAt⟩, hRecord⟩
  · rintro ⟨e, ⟨hMem, rfl, known, hKnown, hSame⟩, rfl⟩
    exact h.lookup_of_mem hMem hKnown hSame

/-- A key is contained if and only if it has an entry. -/
theorem IsCoherent.contains_iff (h : t.IsCoherent) {probe : Savepoint} {field : String} :
    t.contains probe field = true ↔ ∃ e, t.IsEntryAt e probe field := by
  constructor
  · intro hContains
    cases hLookup : t.lookup probe field with
    | error e => simp [contains, hLookup, Except.isOk, Except.toBool] at hContains
    | ok record =>
        obtain ⟨e, hEntry, -⟩ := h.lookup_eq_ok_iff.1 hLookup
        exact ⟨e, hEntry⟩
  · rintro ⟨e, hEntry⟩
    rw [contains, h.lookup_eq_ok_iff.2 ⟨e, hEntry, rfl⟩]
    rfl

theorem IsCoherent.savepointId?_eq_some_iff (h : t.IsCoherent) {s : Savepoint} {id : Nat} :
    t.savepointId? s = some id ↔
      ∃ known, t.savepoints[id]? = some known ∧ (known == s) = true := by
  constructor
  · exact h.savepointId?_eq_some
  · rintro ⟨known, hKnown, hSame⟩
    exact h.savepointId?_of_getElem? hKnown hSame

/-- A key is taken if and only if it has an entry: a savepoint that is made known for it
has none. -/
theorem IsCoherent.contains_eq (h : t.IsCoherent) (point : Savepoint) (field : String) :
    t.contains point field =
      ((t.registerSavepoint point).2.position? (t.registerSavepoint point).1 field).isSome := by
  cases hId : t.savepointId? point with
  | none =>
      rw [registerSavepoint_of_none hId]
      simp [contains, lookup, hId, position?, ← h.length_positions, Except.isOk, Except.toBool]
  | some id =>
      rw [registerSavepoint_of_some hId]
      cases hPosition : t.position? id field with
      | none => simp [contains, lookup, hId, hPosition, Except.isOk, Except.toBool]
      | some n =>
          obtain ⟨e, hEntry, -⟩ := h.position?_eq_some_iff.1 hPosition
          simp [contains, lookup, hId, hPosition, hEntry, Except.isOk, Except.toBool]

/-! ## Positions and ranges -/

/-- Numbers of savepoints and positions of entries stand in their lists, and
there is an index of fields for every savepoint. -/
structure InRange (t : OffsetTable) : Prop where
  savepointId : ∀ s id, t.savepointId? s = some id → id < t.savepoints.length
  positions : t.positions.length = t.savepoints.length
  position : ∀ i f n, t.position? i f = some n → n < t.entries.length
  savepoint : ∀ e ∈ t.entries, e.savepoint < t.savepoints.length

theorem IsCoherent.inRange (h : t.IsCoherent) : t.InRange where
  savepointId s id hId := by
    obtain ⟨known, hKnown, -⟩ := h.savepointId?_eq_some hId
    exact (List.getElem?_eq_some_iff.1 hKnown).1
  positions := h.length_positions
  position i f n hPosition := by
    rw [h.position] at hPosition
    exact (List.findIdx?_eq_some_iff_getElem.1 hPosition).1
  savepoint := h.savepoint_lt

/-- Entries with the same checksum have the same range. -/
def SharesExtents (t : OffsetTable) : Prop :=
  ∀ e ∈ t.entries, ∀ e' ∈ t.entries, e.record.checksum = e'.record.checksum →
    e.record.extent = e'.record.extent

/-- A range that may join the table is that of every entry with its checksum: the index
knows the range of the first of them, and they all agree. -/
theorem IsCoherent.extent_eq (h : t.IsCoherent) (hShares : t.SharesExtents) {record : OffsetRecord}
    (hStored : ∀ extent, t.byChecksum.get? record.checksum = some extent →
      extent = record.extent) {e : OffsetEntry} (he : e ∈ t.entries)
    (hSame : e.record.checksum = record.checksum) : e.record.extent = record.extent := by
  have hSome : (t.byChecksum.get? record.checksum).isSome := by
    rw [h.byChecksum_isSome_iff]
    exact List.mem_map.2 ⟨e, he, hSame⟩
  obtain ⟨extent, hGet⟩ := Option.isSome_iff_exists.1 hSome
  have hFirst := hGet
  rw [h.byChecksum] at hFirst
  obtain ⟨first, hFind, rfl⟩ := Option.map_eq_some_iff.1 hFirst
  have hChecksum : first.record.checksum = record.checksum := by
    simpa using List.find?_some hFind
  rw [← hStored _ hGet]
  exact hShares e he first (List.mem_of_find?_eq_some hFind) (hSame.trans hChecksum.symm)

theorem IsCoherent.sharesExtents_add (h : t.IsCoherent) (hShares : t.SharesExtents)
    {record : OffsetRecord} (hStored : ∀ extent, t.byChecksum.get? record.checksum = some extent →
      extent = record.extent) (i : Nat) (f : String) : (t.add i f record).SharesExtents := by
  -- of two entries with one checksum at most one is new
  unfold SharesExtents
  rw [add_entries]
  simp only [List.mem_append, List.mem_singleton]
  rintro a (ha | rfl) b (hb | rfl) hSame
  · exact hShares a ha b hb hSame
  · exact h.extent_eq hShares hStored ha hSame
  · exact (h.extent_eq hShares hStored hb hSame.symm).symm
  · rfl

end OffsetTable
end FieldArchive

import FieldArchive.Proofs.Checksum
import FieldArchive.Proofs.Disk.Machine
import FieldArchive.Proofs.Offsets.Storing

/-!
# Offset tables under updates

An offset table has two lists and three kinds of indices over them.  Savepoints are made
known, snapshots are stored, and entries of a document are put back, in any order and with
any arguments; the store that snapshots are written to may give any offset, or fail.

* `OffsetTable.IsInvariant.perform` and `OffsetTable.IsInvariant.run`: what every update
  keeps, whether it succeeds or fails;
* `OffsetTable.IsExact`: the indices have what follows from the lists and nothing else, which is
  kept;
* `OffsetTable.indices_exact`: what this means for positions, lookups and failures.

Offsets are not compared with what the store holds, which a table never looks at.
-/

namespace FieldArchive.OffsetTable

/-! ## Updates -/

/-- The state that an action leaves, whether it succeeds or fails. -/
def stateOf {ε σ α : Type} : EStateM.Result ε σ α → σ
  | .ok _ s => s
  | .error _ s => s

/-- Put back an entry in a table that is changed in place, after all checks were made. -/
def restoreInPlace (savepoint : Nat) (field : String) (record : OffsetRecord) :
    EStateM Error OffsetTable Unit := do
  let t ← get
  match t.savepoints[savepoint]? with
  | none => throw (.corruptMetadata (.unknownSavepoint field savepoint t.savepoints.length))
  | some point =>
      if (t.position? savepoint field).isSome then
        throw (.corruptMetadata (.entryTwice field point))
      if !record.checksum.isWellFormed t.algorithm then
        throw (.corruptMetadata (.malformedChecksum t.algorithm record.checksum field))
      match t.byChecksum.get? record.checksum with
      | some extent =>
          if extent ≠ record.extent then
            throw (.corruptMetadata (.twoExtents record.checksum extent record.extent))
      | none =>
          modify fun t => { t with byChecksum := t.byChecksum.insert record.checksum record.extent }
      modify fun t => t.insert savepoint field record

/-- In place the table is what putting back makes of it, and as before if that fails. -/
theorem restoreInPlace_eq (i : Nat) (f : String) (record : OffsetRecord) (t : OffsetTable) :
    restoreInPlace i f record t =
      match t.restore i f record with
      | .ok t' => .ok () t'
      | .error e => .error e t := by
  -- the checks come in the same order, and the table is changed after the last of them
  rw [restoreInPlace, get_bind, restore]
  cases t.savepoints[i]? with
  | none => rfl
  | some point =>
      cases (t.position? i f).isSome with
      | true => rfl
      | false =>
          cases record.checksum.isWellFormed t.algorithm with
          | false => rfl
          | true =>
              cases t.byChecksum.get? record.checksum with
              | none => rfl
              | some extent =>
                  by_cases hSame : extent = record.extent
                  · simp only [Bool.false_eq_true, ↓reduceIte, Bool.not_true, hSame, ne_eq,
                      not_true_eq_false]
                    rfl
                  · simp only [Bool.false_eq_true, ↓reduceIte, Bool.not_true, ne_eq, hSame,
                      not_false_eq_true]
                    rfl

/-- One update of a table, with all that its caller chooses. -/
inductive Update (σ : Type) where
  /-- Make a savepoint known. -/
  | register (point : Savepoint)
  /-- Store a snapshot, with an action that writes it to the store. -/
  | append (write : List UInt8 → EStateM Error σ Nat) (point : Savepoint) (field : String)
      (bytes : List UInt8)
  /-- Put back an entry of a document. -/
  | restore (savepoint : Nat) (field : String) (record : OffsetRecord)

/-- The table and the store after an update. -/
def Update.perform {σ : Type} : Update σ → OffsetTable × σ → OffsetTable × σ
  | register point, (t, store) => ((t.registerSavepoint point).2, store)
  | append write point field bytes, (t, store) =>
      stateOf (OffsetTable.append write point field bytes (t, store))
  | restore savepoint field record, (t, store) =>
      (stateOf (restoreInPlace savepoint field record t), store)

/-- The table and the store after some updates. -/
def run {σ : Type} (updates : List (Update σ)) (state : OffsetTable × σ) : OffsetTable × σ :=
  updates.foldl (fun state update => update.perform state) state

/-! ## What updates keep -/

/-- What an entry is like that may be added: its key is free, its checksum has the form of the
algorithm, and no other range is known for that checksum. -/
structure Accepts (t : OffsetTable) (i : Nat) (f : String) (record : OffsetRecord) : Prop where
  free : t.position? i f = none
  formed : record.checksum.isWellFormed t.algorithm = true
  shared : ∀ extent, t.byChecksum.get? record.checksum = some extent → extent = record.extent

/-- A property of tables is kept when a savepoint is made known, and when an entry that may be
added is added, at a savepoint that was just made known or at one that is known by its number. -/
structure IsInvariant (P : OffsetTable → Prop) : Prop where
  register : ∀ {t : OffsetTable} (s : Savepoint), P t → P (t.registerSavepoint s).2
  store : ∀ {t : OffsetTable} (s : Savepoint) (f : String) (record : OffsetRecord), P t →
    (t.registerSavepoint s).2.Accepts (t.registerSavepoint s).1 f record →
      P ((t.registerSavepoint s).2.add (t.registerSavepoint s).1 f record)
  restore : ∀ {t : OffsetTable} (i : Nat) (f : String) (record : OffsetRecord), P t →
    i < t.savepoints.length → t.Accepts i f record → P (t.add i f record)

section Kept

variable {P : OffsetTable → Prop} {σ : Type}

/-- Storing adds an entry or only makes the savepoint known, whatever the store does. -/
theorem IsInvariant.append (hInvariant : IsInvariant P) {t : OffsetTable} (h : P t)
    (write : List UInt8 → EStateM Error σ Nat) (point : Savepoint) (field : String)
    (bytes : List UInt8) (store : σ) :
    P (stateOf (OffsetTable.append write point field bytes (t, store))).1 := by
  cases hAppend : OffsetTable.append write point field bytes (t, store) with
  | error e state =>
      obtain ⟨hTable, -⟩ := append_error hAppend
      show P state.1
      rw [hTable]
      exact hInvariant.register point h
  | ok r state =>
      obtain ⟨hFree, hTable, hStored, -⟩ := append_ok hAppend
      show P state.1
      rw [hTable]
      refine hInvariant.store point field r.record h ⟨hFree, ?_, ?_⟩
      · rw [registerSavepoint_algorithm, checksum_of_append_ok hAppend]
        exact Checksum.isWellFormed_compute _ _
      · rw [registerSavepoint_byChecksum]
        exact hStored

/-- Putting back adds an entry or changes nothing, whatever is put back. -/
theorem IsInvariant.restoreInPlace (hInvariant : IsInvariant P) {t : OffsetTable}
    (h : P t) (i : Nat) (f : String) (record : OffsetRecord) :
    P (stateOf (OffsetTable.restoreInPlace i f record t)) := by
  rw [restoreInPlace_eq]
  cases hRestore : t.restore i f record with
  | error e => exact h
  | ok t' =>
      obtain ⟨hLt, hFree, hForm, hStored, rfl⟩ := restore_eq_ok_iff.1 hRestore
      exact hInvariant.restore i f record h hLt ⟨hFree, hForm, hStored⟩

theorem IsInvariant.perform (hInvariant : IsInvariant P) {state : OffsetTable × σ} (h : P state.1)
    (update : Update σ) : P (update.perform state).1 := by
  obtain ⟨t, store⟩ := state
  cases update with
  | register point => exact hInvariant.register point h
  | append write point field bytes => exact hInvariant.append h write point field bytes store
  | restore savepoint field record => exact hInvariant.restoreInPlace h savepoint field record

theorem IsInvariant.run (hInvariant : IsInvariant P) (updates : List (Update σ))
    {state : OffsetTable × σ} (h : P state.1) : P (OffsetTable.run updates state).1 := by
  induction updates generalizing state with
  | nil => exact h
  | cons update rest ih => exact ih (hInvariant.perform h update)

end Kept

/-! ## What the indices have -/

/-- The indices of a table have what its lists say and nothing else: numbers are places in
the list of savepoints, and a checksum has one range, which is that of all its entries. -/
structure IsExact (t : OffsetTable) : Prop where
  coherent : t.IsCoherent
  numbered : t.savepointIds.pairs = t.savepoints.zipIdx
  checksums : t.byChecksum.keys = (t.entries.map fun e => e.record.checksum).eraseDups
  shared : t.SharesExtents

theorem isExact_empty (algorithm : ChecksumAlgorithm) : (empty algorithm).IsExact where
  coherent := isCoherent_empty algorithm
  numbered := rfl
  checksums := rfl
  shared e he := by cases he

variable {t : OffsetTable}

/-- The number of a new savepoint is its place in the list. -/
theorem numbered_registerSavepoint (h : t.savepointIds.pairs = t.savepoints.zipIdx)
    (s : Savepoint) :
    (t.registerSavepoint s).2.savepointIds.pairs = (t.registerSavepoint s).2.savepoints.zipIdx := by
  cases hId : t.savepointId? s with
  | some id =>
      rw [registerSavepoint_of_some hId]
      exact h
  | none =>
      rw [registerSavepoint_of_none hId]
      show (t.savepointIds.insert s t.savepoints.length).pairs = (t.savepoints ++ [s]).zipIdx
      rw [Index.insert_of_get?_eq_none hId, h, List.zipIdx_append, List.zipIdx_singleton,
        Nat.zero_add]

theorem IsExact.registerSavepoint (h : t.IsExact) (s : Savepoint) :
    (t.registerSavepoint s).2.IsExact where
  coherent := h.coherent.registerSavepoint s
  numbered := numbered_registerSavepoint h.numbered s
  checksums := by
    rw [registerSavepoint_byChecksum, registerSavepoint_entries]
    exact h.checksums
  shared := by
    unfold SharesExtents
    rw [registerSavepoint_entries]
    exact h.shared

/-- A table stays exact with one more entry, if its key had none and its range is that of
its checksum. -/
theorem IsExact.add (h : t.IsExact) {i : Nat} {f : String} {record : OffsetRecord}
    (hLt : i < t.savepoints.length) (hFree : t.position? i f = none)
    (hStored : ∀ extent, t.byChecksum.get? record.checksum = some extent →
      extent = record.extent) : (t.add i f record).IsExact where
  coherent := h.coherent.add i f record hLt hFree
  numbered := by
    rw [add_savepointIds, add_savepoints]
    exact h.numbered
  checksums := by
    rw [h.coherent.keys_byChecksum_add, add_entries, List.map_append, List.map_singleton,
      Index.eraseDups_concat, h.checksums]
  shared := h.coherent.sharesExtents_add h.shared hStored i f

/-- Every update keeps a table exact. -/
theorem isInvariant_isExact : IsInvariant IsExact where
  register s h := h.registerSavepoint s
  store s f record h hEntry := by
    obtain ⟨known, hKnown, -⟩ := h.coherent.registerSavepoint_fst s
    exact (h.registerSavepoint s).add (List.getElem?_eq_some_iff.1 hKnown).1 hEntry.free
      hEntry.shared
  restore i f record h hLt hEntry := h.add hLt hEntry.free hEntry.shared

theorem isExact_run {σ : Type} (updates : List (Update σ)) {state : OffsetTable × σ}
    (h : state.1.IsExact) : (run updates state).1.IsExact :=
  isInvariant_isExact.run updates h

/-! ## Answers of an exact table -/

/-- The range of a checksum is that of every entry with it, of which there is one. -/
theorem IsExact.byChecksum_eq_some_iff (h : t.IsExact) {c : Checksum} {extent : Extent} :
    t.byChecksum.get? c = some extent ↔
      (∃ e ∈ t.entries, e.record.checksum = c) ∧
      ∀ e ∈ t.entries, e.record.checksum = c → e.record.extent = extent := by
  -- the index has the range of the first entry with a checksum, and all others share it
  rw [h.coherent.byChecksum, Option.map_eq_some_iff]
  constructor
  · rintro ⟨first, hFind, rfl⟩
    have hMem : first ∈ t.entries := List.mem_of_find?_eq_some hFind
    have hChecksum : first.record.checksum = c := by simpa using List.find?_some hFind
    constructor
    · exact ⟨first, hMem, hChecksum⟩
    · intro e he hSame
      exact h.shared e he first hMem (hSame.trans hChecksum.symm)
  · rintro ⟨⟨e, he, hChecksum⟩, hAll⟩
    have hSome : (t.entries.find? fun e => e.record.checksum == c).isSome := by
      rw [List.find?_isSome]
      exact ⟨e, he, by simpa using hChecksum⟩
    obtain ⟨first, hFind⟩ := Option.isSome_iff_exists.1 hSome
    have hFirst : first.record.checksum = c := by simpa using List.find?_some hFind
    exact ⟨first, hFind, hAll first (List.mem_of_find?_eq_some hFind) hFirst⟩

/-- A key without an entry misses the field only, if the savepoint is known. -/
theorem IsCoherent.lookup_of_known (h : t.IsCoherent) {probe : Savepoint} {field : String}
    (hKnown : ∃ known ∈ t.savepoints, (known == probe) = true)
    (hNone : ¬ ∃ e, t.IsEntryAt e probe field) :
    t.lookup probe field = .error (.fieldNotFound probe field) := by
  have hAny : t.savepoints.any (· == probe) = true := List.any_eq_true.2 hKnown
  rw [h.lookup_of_no_entry hNone, missOf, if_pos hAny]

/-- A savepoint that is not known has no entries, and is itself what is missed. -/
theorem IsCoherent.lookup_of_unknown (h : t.IsCoherent) {probe : Savepoint} {field : String}
    (hUnknown : ∀ known ∈ t.savepoints, (known == probe) = false) :
    t.lookup probe field = .error (.savepointNotFound probe) := by
  have hNone : ¬ ∃ e, t.IsEntryAt e probe field := by
    rintro ⟨e, -, -, known, hKnown, hSame⟩
    rw [hUnknown known (List.mem_of_getElem? hKnown)] at hSame
    cases hSame
  have hAny : t.savepoints.any (· == probe) = false := by
    rw [List.any_eq_false]
    intro known hKnown
    rw [hUnknown known hKnown]
    exact Bool.false_ne_true
  rw [h.lookup_of_no_entry hNone, missOf, hAny]
  rfl

/-- The number of a savepoint that has been made known is in range. -/
theorem IsCoherent.registerSavepoint_lt (h : t.IsCoherent) (s : Savepoint) :
    (t.registerSavepoint s).1 < (t.registerSavepoint s).2.positions.length := by
  obtain ⟨known, hKnown, -⟩ := h.registerSavepoint_fst s
  rw [(h.registerSavepoint s).length_positions]
  exact (List.getElem?_eq_some_iff.1 hKnown).1

/-- A key that has an entry is refused, before the store is asked and with the table as it
was: the savepoint of an entry is known. -/
theorem IsCoherent.append_of_taken {σ : Type} (h : t.IsCoherent)
    (write : List UInt8 → EStateM Error σ Nat) {point : Savepoint} {field : String}
    (bytes : List UInt8) (store : σ) (hTaken : ∃ e, t.IsEntryAt e point field) :
    append write point field bytes (t, store) =
      .error (.duplicateField point field) (t, store) := by
  have hContains := h.contains_iff.2 hTaken
  rw [h.contains_eq, Option.isSome_iff_exists] at hContains
  obtain ⟨n, hPosition⟩ := hContains
  rw [append_of_position?_eq_some write store bytes hPosition,
    h.registerSavepoint_of_taken hPosition]

/-- A key without an entry is refused by the store only. -/
theorem IsCoherent.append_error_of_free {σ : Type} (h : t.IsCoherent)
    {write : List UInt8 → EStateM Error σ Nat} {point : Savepoint} {field : String}
    {bytes : List UInt8} {store : σ} (hFree : ¬ ∃ e, t.IsEntryAt e point field) {e : Error}
    {state : OffsetTable × σ}
    (hError : append write point field bytes (t, store) = .error e state) :
    state.1 = (t.registerSavepoint point).2 ∧ write bytes store = .error e state.2 := by
  have hPosition : (t.registerSavepoint point).2.position? (t.registerSavepoint point).1 field =
      none := by
    rw [← h.contains_iff, h.contains_eq, Bool.not_eq_true, Option.isSome_eq_false_iff] at hFree
    exact Option.isNone_iff_eq_none.1 hFree
  cases hStored : t.byChecksum.get? (Checksum.compute t.algorithm bytes) with
  | some extent =>
      rw [append_of_byChecksum_eq_some write store hPosition hStored] at hError
      cases hError
  | none =>
      rw [append_of_byChecksum_eq_none write store hPosition hStored] at hError
      split at hError
      · next hWrite =>
          cases hError
          exact ⟨rfl, hWrite⟩
      · cases hError

/-- Putting back that fails leaves the table as it was. -/
theorem eq_of_restoreInPlace_eq_error {i : Nat} {f : String} {record : OffsetRecord} {e : Error}
    {t' : OffsetTable} (h : restoreInPlace i f record t = .error e t') : t' = t := by
  rw [restoreInPlace_eq] at h
  split at h
  · cases h
  · cases h
    rfl

/-! ## Tables that updates lead to -/

/-- After any updates of an empty table:

* no savepoint is known twice, and the number of a savepoint is its place in the list;
* every savepoint has an index of fields, in which a field is at `n` exactly if entry `n` is of
  that savepoint and field, so no key has two entries;
* a checksum has a range exactly if an entry has it, and all entries with it have that range,
  so there are as many ranges as checksums;
* no number of a savepoint and no position is out of range;
* a lookup gives the record of the one entry of its key, and misses the field if only the
  savepoint is known and the savepoint if not even that;
* putting back that fails changes nothing, and storing that fails makes at most the savepoint
  known.  A key that has an entry is refused without asking the store, and any other only if
  the store fails, with its error. -/
theorem indices_exact {σ : Type} (algorithm : ChecksumAlgorithm) (updates : List (Update σ))
    (store : σ) :
    let t := (run updates (empty algorithm, store)).1
    (t.savepoints.Pairwise (fun a b => (a == b) = false) ∧
      t.savepointIds.pairs = t.savepoints.zipIdx ∧
      ∀ s id, t.savepointId? s = some id ↔
        ∃ known, t.savepoints[id]? = some known ∧ (known == s) = true) ∧
    (t.positions.length = t.savepoints.length ∧
      (∀ i f n, t.position? i f = some n ↔
        ∃ e, t.entries[n]? = some e ∧ e.savepoint = i ∧ e.field = f) ∧
      (t.entries.map fun e => (e.savepoint, e.field)).Nodup) ∧
    (t.byChecksum.keys = (t.entries.map fun e => e.record.checksum).eraseDups ∧
      (∀ c extent, t.byChecksum.get? c = some extent ↔
        (∃ e ∈ t.entries, e.record.checksum = c) ∧
        ∀ e ∈ t.entries, e.record.checksum = c → e.record.extent = extent) ∧
      t.uniqueRanges = (t.entries.map fun e => e.record.checksum).eraseDups.length) ∧
    (t.InRange ∧
      ∀ s, (t.registerSavepoint s).1 < (t.registerSavepoint s).2.positions.length) ∧
    (∀ probe field,
      (∀ e e', t.IsEntryAt e probe field → t.IsEntryAt e' probe field → e = e') ∧
      (∀ e, t.IsEntryAt e probe field → t.lookup probe field = .ok e.record) ∧
      ((∃ known ∈ t.savepoints, (known == probe) = true) →
        (¬ ∃ e, t.IsEntryAt e probe field) →
          t.lookup probe field = .error (.fieldNotFound probe field)) ∧
      ((∀ known ∈ t.savepoints, (known == probe) = false) →
        t.lookup probe field = .error (.savepointNotFound probe))) ∧
    (∀ i f record e t', restoreInPlace i f record t = .error e t' → t' = t) ∧
    ∀ (write : List UInt8 → EStateM Error σ Nat) (point : Savepoint) (field : String)
      (bytes : List UInt8) (outer : σ),
      ((∃ e, t.IsEntryAt e point field) →
        append write point field bytes (t, outer) =
          .error (.duplicateField point field) (t, outer)) ∧
      ((¬ ∃ e, t.IsEntryAt e point field) →
        ∀ e state, append write point field bytes (t, outer) = .error e state →
          state.1 = (t.registerSavepoint point).2 ∧ write bytes outer = .error e state.2) := by
  intro t
  have hExact : t.IsExact := isExact_run updates (isExact_empty algorithm)
  have hCoherent := hExact.coherent
  refine ⟨⟨hCoherent.savepoints, hExact.numbered, ?_⟩, ⟨hCoherent.length_positions, ?_,
    hCoherent.keys⟩, ⟨hExact.checksums, ?_, hCoherent.uniqueRanges⟩,
    ⟨hCoherent.inRange, hCoherent.registerSavepoint_lt⟩, ?_, ?_, ?_⟩
  · intro s id
    exact hCoherent.savepointId?_eq_some_iff
  · intro i f n
    exact hCoherent.position?_eq_some_iff
  · intro c extent
    exact hExact.byChecksum_eq_some_iff
  · intro probe field
    refine ⟨?_, ?_, hCoherent.lookup_of_known, hCoherent.lookup_of_unknown⟩
    · intro e e' hEntry hEntry'
      exact hCoherent.isEntryAt_unique hEntry hEntry'
    · intro e hEntry
      exact hCoherent.lookup_eq_ok_iff.2 ⟨e, hEntry, rfl⟩
  · intro i f record e t' hError
    exact eq_of_restoreInPlace_eq_error hError
  · intro write point field bytes outer
    constructor
    · exact hCoherent.append_of_taken write bytes outer
    · intro hFree e state hError
      exact hCoherent.append_error_of_free hFree hError

/-- Two fields share a range; a key that is put back twice and a savepoint that is not known
are refused. -/
example :
    let record : OffsetRecord := ⟨⟨"0123456789abcdef"⟩, ⟨0, 8⟩⟩
    let t := (run [.register ⟨"s", .empty⟩, .restore 0 "T" record, .restore 0 "T" record,
      .restore 0 "U" record, .restore 1 "T" record] (empty .xxh3, ())).1
    t.entries = [⟨0, "T", record⟩, ⟨0, "U", record⟩] ∧ t.uniqueRanges = 1 := by
  decide

end FieldArchive.OffsetTable

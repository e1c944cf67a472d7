import FieldArchive.Proofs.Archive.Writing
import FieldArchive.Proofs.Arena
import FieldArchive.Proofs.Offsets.Storing

/-!
# Storing snapshots

Storing a snapshot is refused without effect, or fails because the data file
cannot be written, or adds the snapshot to the ledger in memory
(`Archive.FollowsLedger.append_cases`).  A payload that is stored already is not
written again: this is decided by its checksum, and right because the digest
tells the payloads of the ledger apart.
-/

namespace FieldArchive

namespace Disk.KeepsLedger

variable {l : Layout} {s : Settings} {dir : NodeId} {live saved : Ledger} {file : NodeId}
  {data : List UInt8} {d : Disk} {m m' : Machine}

/-- Bytes written after the contents in memory leave the saved contents. -/
theorem write_data (h : d.KeepsLedger l s dir saved file data)
    (hWrites : saved.writes <+: live.writes) {junk : List UInt8}
    (hData : data = live.content ++ junk) (bytes : List UInt8) :
    (d.apply (.write file live.content.length bytes)).KeepsLedger l s dir saved file
      (live.content ++ bytes ++ junk.drop bytes.length) := by
  have hSaved := Ledger.content_isPrefix hWrites
  have hEdit := h.edit_data (fun contents => overwrite contents live.content.length bytes) (by
    rw [hData, overwrite_append, List.append_assoc]
    exact hSaved.trans (List.prefix_append _ _))
  rwa [hData, overwrite_append] at hEdit

end Disk.KeepsLedger

/-! ## The data file -/

/-- Appending to the data file: the bytes stand after the contents in memory, or,
if it fails, perhaps some of them. -/
theorem Arena.append_cases {l : Layout} {s : Settings} {dir : NodeId} {live saved : Ledger}
    {arena : Arena} {data : List UInt8} {m : Machine} (hWritable : arena.writable = true)
    (hLength : arena.length = live.content.length)
    (hKeeps : m.disk.KeepsLedger l s dir saved arena.file data)
    (hWrites : saved.writes <+: live.writes) (hContent : live.content <+: data)
    (bytes : List UInt8) :
    (∃ e m' data', Arena.append bytes (arena, m) = .error (.io e) (arena, m') ∧
      Machine.Proceeds (Disk.HoldsLedger l s dir saved) m m' ∧
      m'.disk.KeepsLedger l s dir saved arena.file data' ∧ live.content <+: data') ∨
    (∃ m' data', Arena.append bytes (arena, m) =
        .ok live.content.length ({ arena with length := live.content.length + bytes.length }, m') ∧
      Machine.Proceeds (Disk.HoldsLedger l s dir saved) m m' ∧
      m'.disk.KeepsLedger l s dir saved arena.file data' ∧ live.content ++ bytes <+: data' ∧
      (data = live.content → data' = live.content ++ bytes) ∧
      (bytes = [] ∨ live.content.length + bytes.length ≤ Disk.maxFileLength)) := by
  -- behind the contents there may be what a failed write has left
  obtain ⟨junk, hJunk⟩ := hContent
  have hPart : ∀ part, part <+: bytes → Disk.HoldsLedger l s dir saved
      (m.disk.apply (.write arena.file live.content.length part)) := by
    intro part _
    exact ⟨_, _, hKeeps.write_data hWrites hJunk.symm part⟩
  have hStart : m.disk.HoldsLedger l s dir saved := ⟨_, _, hKeeps⟩
  cases hWrite : Machine.write arena.file live.content.length bytes m with
  | error e m' =>
      refine Or.inl ⟨e, m', ?_⟩
      have hTo := (Machine.write_proceeds hStart hPart).2 e hWrite
      have hResult : Arena.append bytes (arena, m) = .error (.io e) (arena, m') := by
        rw [Arena.append_eq hWritable, hLength, hWrite]
      -- nothing was written, or some of the first bytes
      rcases Machine.write_error hWrite with rfl | rfl | ⟨count, rfl⟩
      · exact ⟨data, hResult, hTo, hKeeps, ⟨junk, hJunk⟩⟩
      · exact ⟨data, hResult, hTo, hKeeps, ⟨junk, hJunk⟩⟩
      · refine ⟨_, hResult, hTo, hKeeps.write_data hWrites hJunk.symm (bytes.take count), ?_⟩
        rw [List.append_assoc]
        exact List.prefix_append _ _
  | ok u m' =>
      refine Or.inr ⟨m', ?_⟩
      have hTo := (Machine.write_proceeds hStart hPart).1 u hWrite
      have hResult : Arena.append bytes (arena, m) = .ok live.content.length
          ({ arena with length := live.content.length + bytes.length }, m') := by
        rw [Arena.append_eq hWritable, hLength, hWrite]
      rcases Machine.write_ok hWrite with ⟨rfl, rfl⟩ | ⟨hFits, rfl⟩
      · refine ⟨data, hResult, hTo, hKeeps, ⟨junk, by simpa using hJunk⟩, ?_, Or.inl rfl⟩
        intro hExact
        simpa using hExact
      · refine ⟨_, hResult, hTo, hKeeps.write_data hWrites hJunk.symm bytes,
          List.prefix_append _ _, ?_, Or.inr hFits⟩
        intro hExact
        have hNone : junk = [] := by simpa [hExact] using hJunk
        simp [hNone]

namespace Archive

variable {l : Layout} {s : Settings} {dir : NodeId} {exact intact : Prop} {live saved : Ledger}
  {a : Archive} {m m' : Machine} {point : Savepoint} {field : String} {bytes : List UInt8}

/-! ## Archives -/

theorem requireMode_eq_ok_iff {mode : Mode} {operation : Operation} {arena : Arena} :
    a.requireMode mode operation = .ok arena ↔ a.mode = mode ∧ a.arena = some arena := by
  unfold requireMode
  cases a.arena with
  | none => simp
  | some opened =>
      by_cases hMode : a.mode = mode
      · simp [hMode]
      · simp [hMode]

/-- Bytes are stored only by an archive that is open for writing, and for a field that is
described, in its size. -/
theorem checkAppend_ok {arena : Arena}
    (h : a.checkAppend point field bytes = .ok arena) :
    (∃ info, a.tables.catalog.find? field = some info ∧ bytes.length = info.byteSize) ∧
      a.mode = .write ∧ a.arena = some arena := by
  obtain ⟨opened, hMode, hChecked⟩ := except_bind_eq_ok_iff.1 h
  obtain ⟨_, -, hRest⟩ := except_bind_eq_ok_iff.1 hChecked
  cases hFind : a.tables.catalog.find? field with
  | none =>
      simp only [hFind] at hRest
      cases hRest
  | some info =>
      simp only [hFind] at hRest
      split at hRest
      · cases hRest
      · next hSize =>
          cases hRest
          exact ⟨⟨info, rfl, Decidable.of_not_not hSize⟩, requireMode_eq_ok_iff.1 hMode⟩

theorem finite_of_checkAppend {arena : Arena} (h : a.checkAppend point field bytes = .ok arena) :
    point.metainfo.firstNonFinite? = none := by
  obtain ⟨opened, -, hChecked⟩ := except_bind_eq_ok_iff.1 h
  obtain ⟨_, hFinite, -⟩ := except_bind_eq_ok_iff.1 hChecked
  exact checkFinite_eq_ok_iff.1 hFinite

/-- What storing does to the tables. -/
theorem tables_of_append_ok {a' : Archive} {r : Appended}
    (h : append point field bytes (a, m) = .ok r (a', m')) :
    (a.tables.offsets.registerSavepoint point).2.position?
        (a.tables.offsets.registerSavepoint point).1 field = none ∧
      a.tables.catalog.recordPresence point field = .ok a'.tables.catalog ∧
      a'.tables.offsets = (a.tables.offsets.registerSavepoint point).2.add
        (a.tables.offsets.registerSavepoint point).1 field r.record := by
  simp only [append] at h
  split at h
  · cases h
  · split at h
    · cases h
    · next hAppend =>
        obtain ⟨hFree, hTable, -, -⟩ := OffsetTable.append_ok hAppend
        split at h
        · cases h
        · next hPresence =>
            cases h
            exact ⟨hFree, hPresence, hTable⟩

/-- Storing keeps the identity of an archive and changes at most its data file. -/
theorem disk_of_append_ok {a' : Archive} {r : Appended}
    (h : append point field bytes (a, m) = .ok r (a', m')) :
    a'.id = a.id ∧ a'.createdAt = a.createdAt ∧ m'.environment = m.environment ∧
      (m'.disk = m.disk ∨ ∃ arena edit, a.arena = some arena ∧
        m'.disk = m.disk.edit arena.file edit) := by
  simp only [append] at h
  split at h
  · cases h
  · next arena hCheck =>
      obtain ⟨-, -, hArena⟩ := checkAppend_ok hCheck
      split at h
      · cases h
      · next hAppend =>
          obtain ⟨-, -, -, hStore⟩ := OffsetTable.append_ok hAppend
          split at h
          · cases h
          · cases h
            rcases hStore with hSame | ⟨offset, hWrite⟩
            · obtain rfl := (Prod.mk.inj hSame).2
              exact ⟨rfl, rfl, rfl, Or.inl rfl⟩
            · rcases Machine.write_ok (Arena.write_of_append_ok hWrite) with ⟨-, rfl⟩ | ⟨-, rfl⟩
              · exact ⟨rfl, rfl, rfl, Or.inl rfl⟩
              · exact ⟨rfl, rfl, rfl, Or.inr ⟨arena, _, hArena, rfl⟩⟩

/-- Storing that fails changes nothing, or makes the savepoint known. -/
theorem tables_of_append_error {a' : Archive} {e : Error}
    (h : append point field bytes (a, m) = .error e (a', m')) :
    a'.tables.catalog = a.tables.catalog ∧
      (a'.tables.offsets = a.tables.offsets ∨
        a'.tables.offsets = (a.tables.offsets.registerSavepoint point).2) := by
  simp only [append] at h
  split at h
  · cases h
    exact ⟨rfl, Or.inl rfl⟩
  · next hCheck =>
      obtain ⟨⟨info, hFind, -⟩, -⟩ := checkAppend_ok hCheck
      obtain ⟨catalog, hPresence, -⟩ := Catalog.recordPresence_of_find? hFind point
      split at h
      · next hAppend =>
          cases h
          exact ⟨rfl, Or.inr (OffsetTable.append_error hAppend).1⟩
      · simp only [hPresence] at h
        cases h

/-- The ledger in memory after a snapshot was stored. -/
def stored (live : Ledger) (point : Savepoint) (field : String) (bytes : List UInt8) : Ledger :=
  (live.register point).addWrite ⟨live.numberOf point, field, bytes⟩

theorem FollowsLedger.checkAppend_cases (h : FollowsLedger l s dir exact intact live saved a m)
    (point : Savepoint) (field : String) (bytes : List UInt8) :
    (∃ e, a.checkAppend point field bytes = .error e ∧ e.isIo = false) ∨
    ∃ arena info, a.arena = some arena ∧ a.checkAppend point field bytes = .ok arena ∧
      a.tables.catalog.find? field = some info ∧ bytes.length = info.byteSize := by
  obtain ⟨arena, hArena, hMode⟩ := h.requireMode_eq_ok .writeField
  simp only [checkAppend, hMode, checkFinite, bind, Except.bind]
  cases point.metainfo.firstNonFinite? with
  | some key => exact Or.inl ⟨_, rfl, rfl⟩
  | none =>
      cases hFind : a.tables.catalog.find? field with
      | none => exact Or.inl ⟨_, rfl, rfl⟩
      | some info =>
          by_cases hSize : bytes.length = info.byteSize
          · refine Or.inr ⟨arena, info, hArena, ?_, rfl, hSize⟩
            simp [hSize, pure, Except.pure]
          · refine Or.inl ⟨.sizeMismatch field info.byteSize bytes.length, ?_, rfl⟩
            simp [hSize, throw, throwThe, MonadExceptOf.throw]

/-- The key of a snapshot is free exactly if no stored snapshot has it. -/
theorem FollowsLedger.position?_register (h : FollowsLedger l s dir exact intact live saved a m)
    (point : Savepoint) (field : String) :
    (a.tables.offsets.registerSavepoint point).2.position?
        (a.tables.offsets.registerSavepoint point).1 field = none ↔
      ∀ w ∈ live.writes, (w.savepoint, w.field) ≠ (live.numberOf point, field) := by
  obtain ⟨hNumber, hRecords⟩ := h.tables.registerSavepoint point
  have hFree := hRecords.position?_eq_none_iff (live.numberOf point) field
  rw [Ledger.register_writes] at hFree
  rw [hNumber]
  exact hFree

/-- The ledger with a stored snapshot is valid. -/
theorem FollowsLedger.isValid_stored (h : FollowsLedger l s dir exact intact live saved a m)
    {info : FieldInfo} (hFinite : point.metainfo.firstNonFinite? = none)
    (hFind : a.tables.catalog.find? field = some info) (hSize : bytes.length = info.byteSize)
    (hFree : (a.tables.offsets.registerSavepoint point).2.position?
      (a.tables.offsets.registerSavepoint point).1 field = none)
    (hInjective : Set.InjOn (Checksum.compute s.checksum) {p | p ∈ live.payloads ++ [bytes]})
    (hContent : (stored live point field bytes).content.length ≤ Disk.maxFileLength) :
    (stored live point field bytes).IsValid s.checksum := by
  obtain ⟨hInfo, hName⟩ := h.tables.find?_eq_some_iff.1 hFind
  refine (h.isValid.register hFinite).addWrite (live.numberOf_lt_register point) ?_ ?_ ?_ hContent
  · rw [Ledger.register_writes]
    exact (h.position?_register point field).1 hFree
  · refine ⟨info, ?_, hName, hSize.symm⟩
    rw [Ledger.register_fields]
    exact hInfo
  · rw [Ledger.register_payloads]
    exact hInjective

theorem stored_payloads (live : Ledger) (point : Savepoint) (field : String)
    (bytes : List UInt8) :
    (stored live point field bytes).payloads = live.payloads ++ [bytes] := by
  rw [stored, Ledger.payloads_addWrite, Ledger.register_payloads]

/-- An archive with one more entry, after its data file has been written. -/
def withEntry (a : Archive) (point : Savepoint) (field : String) (record : OffsetRecord)
    (arena : Arena) (catalog : Catalog) : Archive :=
  { a with
    tables :=
      { a.tables with
        offsets :=
          (a.tables.offsets.registerSavepoint point).2.add
            (a.tables.offsets.registerSavepoint point).1 field record
        catalog := catalog }
    arena := some arena
    dirty := true }

/-- The archive after a snapshot was stored under a record. -/
theorem FollowsLedger.of_stored (h : FollowsLedger l s dir exact intact live saved a m)
    {arena : Arena} {record : OffsetRecord} {data : List UInt8} {catalog : Catalog}
    (hValid : (stored live point field bytes).IsValid s.checksum)
    (hFree : (a.tables.offsets.registerSavepoint point).2.position?
      (a.tables.offsets.registerSavepoint point).1 field = none)
    (hRecord : record = (stored live point field bytes).recordOf s.checksum bytes)
    (hWritable : arena.writable = true)
    (hLength : arena.length = (stored live point field bytes).content.length)
    (hKeeps : m'.disk.KeepsLedger l s dir saved arena.file data)
    (hContent : (stored live point field bytes).content <+: data)
    (hIntact : intact → data = (stored live point field bytes).content)
    (hFields : catalog.fields = a.tables.catalog.fields)
    (hByName : catalog.byName = a.tables.catalog.byName) :
    FollowsLedger l s dir exact intact (stored live point field bytes) saved
      (a.withEntry point field record arena catalog) m' := by
  obtain ⟨hNumber, hRecords⟩ := h.tables.registerSavepoint point
  rw [withEntry, hNumber]
  rw [hNumber] at hFree
  have hAdded := hRecords.add (w := ⟨live.numberOf point, field, bytes⟩)
    (live.numberOf_lt_register point) hFree
  refine ⟨h.usable, h.layout, h.mode, h.settings, ?_, hValid, ?_,
    ⟨arena, data, rfl, hWritable, hLength, hKeeps, hContent, hIntact⟩, ?_⟩
  · rw [hRecord]
    exact hAdded.of_catalog hFields hByName
  · refine h.writes.trans ?_
    rw [stored, Ledger.addWrite, Ledger.register_writes]
    exact List.prefix_append _ _
  · -- the archive is marked as changed, so nothing is claimed of the last flush
    intro hDirty
    cases hDirty

/-- The archive after the data file could not be written: the savepoint is known,
and nothing else has changed. -/
theorem FollowsLedger.of_failed (h : FollowsLedger l s dir exact intact live saved a m)
    {arena : Arena} {data : List UInt8} (hFinite : point.metainfo.firstNonFinite? = none)
    (hArena : a.arena = some arena)
    (hKeeps : m'.disk.KeepsLedger l s dir saved arena.file data)
    (hContent : live.content <+: data) :
    FollowsLedger l s dir exact False (live.register point) saved
      { a with
        tables := { a.tables with offsets := (a.tables.offsets.registerSavepoint point).2 }
        arena := some arena } m' := by
  obtain ⟨arena', data', hArena', hWritable, hLength, -, -, -⟩ := h.arena
  obtain rfl : arena = arena' := Option.some.inj (hArena.symm.trans hArena')
  refine ⟨h.usable, h.layout, h.mode, h.settings, (h.tables.registerSavepoint point).2,
    h.isValid.register hFinite, ?_, ⟨arena, data, rfl, hWritable, ?_, hKeeps, ?_, False.elim⟩, ?_⟩
  · rw [Ledger.register_writes]
    exact h.writes
  · rw [Ledger.register_content]
    exact hLength
  · rw [Ledger.register_content]
    exact hContent
  · intro hDirty
    obtain ⟨hRecorded, hCovers, -⟩ := h.clean hDirty
    refine ⟨?_, hCovers.register point, fun _ => False.elim⟩
    rw [Ledger.register_content]
    exact hRecorded

/-- An archive is open for writing after a snapshot was stored. -/
theorem open_of_append_ok {r : Appended} {a' : Archive}
    (h : append point field bytes (a, m) = .ok r (a', m')) :
    a'.mode = .write ∧ ∃ arena, a'.arena = some arena := by
  simp only [append] at h
  split at h
  · cases h
  · next arena hCheck =>
      split at h
      · cases h
      · split at h
        · cases h
        · cases h
          exact ⟨(checkAppend_ok hCheck).2.1, _, rfl⟩

/-- Storing under a key that is taken fails and changes nothing. -/
theorem FollowsLedger.append_of_taken (h : FollowsLedger l s dir exact intact live saved a m)
    {arena : Arena} (hArena : a.arena = some arena)
    (hCheck : a.checkAppend point field bytes = .ok arena) {n : Nat}
    (hTaken : (a.tables.offsets.registerSavepoint point).2.position?
      (a.tables.offsets.registerSavepoint point).1 field = some n) :
    append point field bytes (a, m) = .error (.duplicateField point field) (a, m) := by
  -- a key is taken at a known savepoint only, so the table stays
  have hSame := h.tables.offsets.registerSavepoint_of_taken hTaken
  have hAppend := OffsetTable.append_of_position?_eq_some Arena.append (arena, m) bytes hTaken
  simp only [append, hCheck, hAppend, hSame, ← hArena]

/-- Storing under a free key fails in the file system or adds the snapshot. -/
theorem FollowsLedger.append_of_free (h : FollowsLedger l s dir exact intact live saved a m)
    {arena : Arena} {info : FieldInfo} (hArena : a.arena = some arena)
    (hCheck : a.checkAppend point field bytes = .ok arena)
    (hFind : a.tables.catalog.find? field = some info) (hSize : bytes.length = info.byteSize)
    (hFree : (a.tables.offsets.registerSavepoint point).2.position?
      (a.tables.offsets.registerSavepoint point).1 field = none)
    (hInjective : ∀ r state, append point field bytes (a, m) = .ok r state →
      Set.InjOn (Checksum.compute s.checksum) {p | p ∈ live.payloads ++ [bytes]}) :
    (∃ e a' m', append point field bytes (a, m) = .error (.io e) (a', m') ∧
      Machine.Proceeds (Disk.HoldsLedger l s dir saved) m m' ∧
      FollowsLedger l s dir exact False (live.register point) saved a' m') ∨
    (∃ r a' m', append point field bytes (a, m) = .ok r (a', m') ∧
      Machine.Proceeds (Disk.HoldsLedger l s dir saved) m m' ∧
      FollowsLedger l s dir exact intact (stored live point field bytes) saved a' m' ∧
      a'.dirty = true ∧
      r.record = (stored live point field bytes).recordOf s.checksum bytes ∧
      (r.deduplicated = true ↔ bytes ∈ live.payloads)) := by
  obtain ⟨arena', data, hArena', hWritable, hLength, hKeeps, hContent, hExact⟩ := h.arena
  obtain rfl : arena = arena' := Option.some.inj (hArena.symm.trans hArena')
  have hAlgorithm : a.tables.offsets.algorithm = s.checksum := h.tables.algorithm
  have hFinite := finite_of_checkAppend hCheck
  obtain ⟨catalog, hPresence, hFields, hByName⟩ := Catalog.recordPresence_of_find? hFind point
  cases hStored : a.tables.offsets.byChecksum.get?
      (Checksum.compute a.tables.offsets.algorithm bytes) with
  | some extent =>
      -- the digest tells payloads apart, so the range found is that of the same bytes
      have hAppend := OffsetTable.append_of_byChecksum_eq_some Arena.append (arena, m) hFree hStored
      have hOk : append point field bytes (a, m) =
          .ok ⟨⟨Checksum.compute s.checksum bytes, extent⟩, true⟩
            (a.withEntry point field ⟨Checksum.compute s.checksum bytes, extent⟩ arena catalog,
              m) := by
        simp only [append, hCheck, hAppend, hPresence, hAlgorithm, withEntry]
      have hDigest := hInjective _ _ hOk
      rw [hAlgorithm] at hStored
      obtain ⟨hMem, hExtent⟩ := h.tables.mem_payloads hDigest hStored
      have hRecord : (⟨Checksum.compute s.checksum bytes, extent⟩ : OffsetRecord) =
          (stored live point field bytes).recordOf s.checksum bytes := by
        rw [Ledger.recordOf, stored_payloads, Packing.extentOf_append_of_mem hMem, hExtent]
      have hSame : (stored live point field bytes).content = live.content := by
        rw [Ledger.content, stored_payloads, Packing.content_append_of_mem hMem, Ledger.content]
      have hValid := h.isValid_stored hFinite hFind hSize hFree hDigest
        (by rw [hSame]; exact h.isValid.content_le)
      refine Or.inr ⟨_, _, m, hOk, .refl h.holds, ?_, rfl, hRecord, by simp [hMem]⟩
      exact h.of_stored hValid hFree hRecord hWritable (by rw [hSame]; exact hLength)
        hKeeps (by rw [hSame]; exact hContent) (by rw [hSame]; exact hExact) hFields hByName
  | none =>
      -- the bytes are new and go to the end, unless the write fails and leaves some of them there
      have hAppend := OffsetTable.append_of_byChecksum_eq_none Arena.append (arena, m) hFree hStored
      rcases Arena.append_cases hWritable hLength hKeeps h.writes hContent bytes with
        ⟨e, m', data', hFailed, hTo, hKeeps', hContent'⟩ |
        ⟨m', data', hDone, hTo, hKeeps', hContent', hExact', hFits⟩
      · refine Or.inl ⟨e, _, m', ?_, hTo, h.of_failed hFinite hArena hKeeps' hContent'⟩
        simp only [append, hCheck, hAppend, hFailed]
      · have hOk : append point field bytes (a, m) =
            .ok ⟨⟨Checksum.compute s.checksum bytes, ⟨live.content.length, bytes.length⟩⟩, false⟩
              (a.withEntry point field
                ⟨Checksum.compute s.checksum bytes, ⟨live.content.length, bytes.length⟩⟩
                { arena with length := live.content.length + bytes.length } catalog, m') := by
          simp only [append, hCheck, hAppend, hDone, hPresence, hAlgorithm, withEntry]
        have hDigest := hInjective _ _ hOk
        rw [hAlgorithm] at hStored
        have hNew := h.tables.not_mem_payloads hStored
        have hRecord : (⟨Checksum.compute s.checksum bytes,
            ⟨live.content.length, bytes.length⟩⟩ : OffsetRecord) =
            (stored live point field bytes).recordOf s.checksum bytes := by
          rw [Ledger.recordOf, stored_payloads, Packing.extentOf_append_self hNew, Ledger.content]
        have hGrown : (stored live point field bytes).content = live.content ++ bytes := by
          rw [Ledger.content, stored_payloads, Packing.content_append_of_not_mem hNew,
            Ledger.content]
        have hValid := h.isValid_stored hFinite hFind hSize hFree hDigest (by
          rw [hGrown, List.length_append]
          have hOld := h.isValid.content_le
          rcases hFits with rfl | hFits
          · simpa using hOld
          · exact hFits)
        refine Or.inr ⟨_, _, m', hOk, hTo, ?_, rfl, hRecord, by simp [hNew]⟩
        exact h.of_stored hValid hFree hRecord hWritable
          (by rw [hGrown, List.length_append]) hKeeps' (by rw [hGrown]; exact hContent')
          (fun hIntact => by rw [hGrown]; exact hExact' (hExact hIntact)) hFields hByName

/-- How storing a snapshot can end. -/
theorem FollowsLedger.append_cases (h : FollowsLedger l s dir exact intact live saved a m)
    (hInjective : ∀ r state, append point field bytes (a, m) = .ok r state →
      Set.InjOn (Checksum.compute s.checksum) {p | p ∈ live.payloads ++ [bytes]}) :
    (∃ e, append point field bytes (a, m) = .error e (a, m) ∧ e.isIo = false) ∨
    (∃ e a' m', append point field bytes (a, m) = .error (.io e) (a', m') ∧
      Machine.Proceeds (Disk.HoldsLedger l s dir saved) m m' ∧
      FollowsLedger l s dir exact False (live.register point) saved a' m') ∨
    (∃ r a' m', append point field bytes (a, m) = .ok r (a', m') ∧
      Machine.Proceeds (Disk.HoldsLedger l s dir saved) m m' ∧
      FollowsLedger l s dir exact intact (stored live point field bytes) saved a' m' ∧
      a'.dirty = true ∧
      r.record = (stored live point field bytes).recordOf s.checksum bytes ∧
      (r.deduplicated = true ↔ bytes ∈ live.payloads) ∧
      (∀ w ∈ live.writes, (w.savepoint, w.field) ≠ (live.numberOf point, field)) ∧
      ∃ info ∈ live.fields, info.name = field) := by
  rcases h.checkAppend_cases point field bytes with ⟨e, hCheck, hIo⟩ |
    ⟨arena, info, hArena, hCheck, hFind, hSize⟩
  · exact Or.inl ⟨e, by simp only [append, hCheck], hIo⟩
  cases hPosition : (a.tables.offsets.registerSavepoint point).2.position?
      (a.tables.offsets.registerSavepoint point).1 field with
  | some n =>
      exact Or.inl ⟨.duplicateField point field, h.append_of_taken hArena hCheck hPosition, rfl⟩
  | none =>
      rcases h.append_of_free hArena hCheck hFind hSize hPosition hInjective with hFailed |
        ⟨r, a', m', hOk, hTo, hNext, hDirty, hRecord, hShared⟩
      · exact Or.inr (Or.inl hFailed)
      · exact Or.inr (Or.inr ⟨r, a', m', hOk, hTo, hNext, hDirty, hRecord, hShared,
          (h.position?_register point field).1 hPosition,
          ⟨info, h.tables.find?_eq_some_iff.1 hFind⟩⟩)

end Archive
end FieldArchive

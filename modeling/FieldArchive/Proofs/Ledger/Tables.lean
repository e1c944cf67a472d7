import FieldArchive.Proofs.Ledger.Basic

/-!
# The tables of a ledger

Tables record a ledger if they are those of its document.  Each operation on the
tables is an operation on the ledger.  What an offset table answers about a key
or a payload is said in terms of the stored snapshots; for payloads this is
where the digest must tell them apart.
-/

namespace FieldArchive

/-- Tables with the lists of a ledger and coherent indices. -/
def Tables.Records (t : Tables) (s : Settings) (l : Ledger) : Prop :=
  t.Represents (l.document default "" "" s)

theorem Tables.Represents.records {t : Tables} {s : Settings} {l : Ledger} {id : ArchiveId}
    {createdAt updatedAt : String} (h : t.Represents (l.document id createdAt updatedAt s)) :
    t.Records s l :=
  ⟨h.metainfo, h.fields, h.savepoints, h.entries, h.algorithm, h.catalog, h.offsets⟩

namespace Tables.Records

variable {t : Tables} {s : Settings} {l : Ledger}

theorem of_empty (s : Settings) :
    Tables.Records ⟨.empty, .empty, .empty s.checksum⟩ s Ledger.empty :=
  ⟨rfl, rfl, rfl, rfl, rfl, Catalog.isCoherent_empty, OffsetTable.isCoherent_empty _⟩

/-! ## Savepoints -/

/-- Registering a savepoint gives it its number in the ledger. -/
theorem registerSavepoint (h : t.Records s l) (point : Savepoint) :
    (t.offsets.registerSavepoint point).1 = l.numberOf point ∧
      Tables.Records { t with offsets := (t.offsets.registerSavepoint point).2 } s
        (l.register point) := by
  have hSavepoints : t.offsets.savepoints = l.savepoints := h.savepoints
  have hEntries : t.offsets.entries = l.entries s.checksum := h.entries
  have hFind : t.offsets.savepointId? point =
      l.savepoints.findIdx? fun known => known == point := by
    rw [OffsetTable.savepointId?, h.offsets.savepointIds, hSavepoints]
  have hCoherent := h.offsets.registerSavepoint point
  unfold Ledger.numberOf Ledger.register
  cases hId : l.savepoints.findIdx? fun known => known == point with
  | some n =>
      rw [hId] at hFind
      rw [OffsetTable.registerSavepoint_of_some hFind]
      exact ⟨rfl, h⟩
  | none =>
      rw [hId] at hFind
      rw [OffsetTable.registerSavepoint_of_none hFind] at hCoherent ⊢
      refine ⟨by rw [hSavepoints]; rfl, h.metainfo, h.fields, ?_, hEntries, h.algorithm, h.catalog,
        hCoherent⟩
      change t.offsets.savepoints ++ [point] = l.savepoints ++ [point]
      rw [hSavepoints]

/-! ## Snapshots -/

theorem position?_eq_none_iff (h : t.Records s l) (i : Nat) (f : String) :
    t.offsets.position? i f = none ↔ ∀ w ∈ l.writes, (w.savepoint, w.field) ≠ (i, f) := by
  have hEntries : t.offsets.entries = l.entries s.checksum := h.entries
  rw [h.offsets.position, hEntries, List.findIdx?_eq_none_iff, Ledger.entries,
    List.forall_mem_map]
  refine forall₂_congr fun w _ => ?_
  simp [OffsetEntry.hasKey, Ledger.entryOf]

/-- A checksum without a range is that of a new payload. -/
theorem not_mem_payloads (h : t.Records s l) {p : List UInt8}
    (hNone : t.offsets.byChecksum.get? (Checksum.compute s.checksum p) = none) :
    p ∉ l.payloads := by
  have hEntries : t.offsets.entries = l.entries s.checksum := h.entries
  intro hMem
  obtain ⟨w, hw, rfl⟩ := List.mem_map.1 hMem
  have hSome := (h.offsets.byChecksum_isSome_iff (Checksum.compute s.checksum w.payload)).2
  rw [hNone] at hSome
  refine absurd (hSome ?_) (by simp)
  rw [hEntries]
  exact List.mem_map.2 ⟨_, Ledger.mem_entries.2 ⟨w, hw, rfl⟩, rfl⟩

/-- A checksum with a range is that of a stored payload, and the range is where
that payload is stored. -/
theorem mem_payloads (h : t.Records s l) {p : List UInt8} {extent : Extent}
    (hInjective : Set.InjOn (Checksum.compute s.checksum) {q | q ∈ l.payloads ++ [p]})
    (hSome : t.offsets.byChecksum.get? (Checksum.compute s.checksum p) = some extent) :
    p ∈ l.payloads ∧ extent = Packing.extentOf l.payloads p := by
  have hEntries : t.offsets.entries = l.entries s.checksum := h.entries
  rw [h.offsets.byChecksum, hEntries] at hSome
  obtain ⟨e, hFind, rfl⟩ := Option.map_eq_some_iff.1 hSome
  obtain ⟨w, hw, rfl⟩ := Ledger.mem_entries.1 (List.mem_of_find?_eq_some hFind)
  have hSame : Checksum.compute s.checksum w.payload = Checksum.compute s.checksum p := by
    have hFound := List.find?_some hFind
    rwa [beq_iff_eq] at hFound
  have hOld := Ledger.mem_payloads_of_mem hw
  have hPayload : w.payload = p :=
    hInjective (List.mem_append_left _ hOld) (by simp) hSame
  subst hPayload
  exact ⟨hOld, rfl⟩

/-- One more stored snapshot is one more entry. -/
theorem add (h : t.Records s l) {w : Write} (hLt : w.savepoint < l.savepoints.length)
    (hFree : t.offsets.position? w.savepoint w.field = none) :
    Tables.Records
      { t with
        offsets :=
          t.offsets.add w.savepoint w.field ((l.addWrite w).recordOf s.checksum w.payload) } s
      (l.addWrite w) := by
  have hSavepoints : t.offsets.savepoints = l.savepoints := h.savepoints
  have hEntries : t.offsets.entries = l.entries s.checksum := h.entries
  refine ⟨h.metainfo, h.fields, ?_, ?_, ?_, h.catalog, ?_⟩
  · exact (OffsetTable.add_savepoints _ _ _ t.offsets).trans hSavepoints
  · change (t.offsets.add _ _ _).entries = (l.addWrite w).entries s.checksum
    rw [OffsetTable.add_entries, hEntries, Ledger.entries_addWrite]
    rfl
  · exact (OffsetTable.add_algorithm _ _ _ t.offsets).trans h.algorithm
  · exact h.offsets.add _ _ _ (by rw [hSavepoints]; exact hLt) hFree

/-- A digest that tells payloads apart keeps the number of different ones. -/
theorem length_eraseDups_map {algorithm : ChecksumAlgorithm} {ps : List (List UInt8)}
    (h : Set.InjOn (Checksum.compute algorithm) {p | p ∈ ps}) :
    (ps.map (Checksum.compute algorithm)).eraseDups.length = ps.eraseDups.length := by
  -- from the end, since the last payload is new or among those before it
  induction ps using List.reverseRecOn with
  | nil => simp
  | append_singleton ps p ih =>
      have hOld := ih (h.mono fun q hq => List.mem_append_left _ hq)
      rw [List.map_append, List.map_singleton]
      by_cases hMem : p ∈ ps
      · rw [Index.eraseDups_concat_of_mem hMem,
          Index.eraseDups_concat_of_mem (List.mem_map_of_mem hMem), hOld]
      · have hNew : Checksum.compute algorithm p ∉ ps.map (Checksum.compute algorithm) := by
          intro hImage
          obtain ⟨q, hq, hSame⟩ := List.mem_map.1 hImage
          have hEqual : q = p := h (List.mem_append_left _ hq) (by simp) hSame
          exact hMem (hEqual ▸ hq)
        rw [Index.eraseDups_concat_of_not_mem hMem, Index.eraseDups_concat_of_not_mem hNew,
          List.length_append, List.length_append, hOld, List.length_singleton,
          List.length_singleton]

/-- One range is stored for each payload. -/
theorem uniqueRanges_eq (h : t.Records s l) (hValid : l.IsValid s.checksum) :
    t.offsets.uniqueRanges = (Packing.blocks l.payloads).length := by
  have hEntries : t.offsets.entries = l.entries s.checksum := h.entries
  have hChecksums : (l.entries s.checksum).map (fun e => e.record.checksum) =
      l.payloads.map (Checksum.compute s.checksum) := by
    rw [Ledger.entries, Ledger.payloads, List.map_map, List.map_map]
    rfl
  rw [h.offsets.uniqueRanges, hEntries, hChecksums]
  exact length_eraseDups_map hValid.injective

/-! ## Fields and metainfo -/

theorem addMetainfo (h : t.Records s l) (key : String) (value : MetaValue) :
    Tables.Records { t with metainfo := t.metainfo.set key value } s (l.setMetainfo key value) := by
  have hMetainfo : t.metainfo = l.metainfo := h.metainfo
  refine ⟨?_, h.fields, h.savepoints, h.entries, h.algorithm, h.catalog, h.offsets⟩
  change t.metainfo.set key value = l.metainfo.set key value
  rw [hMetainfo]

/-- Tables that differ in the presence of fields only. -/
theorem of_catalog (h : t.Records s l) {catalog : Catalog}
    (hFields : catalog.fields = t.catalog.fields) (hByName : catalog.byName = t.catalog.byName) :
    Tables.Records { t with catalog := catalog } s l :=
  ⟨h.metainfo, hFields.trans h.fields, h.savepoints, h.entries, h.algorithm,
    h.catalog.congr hFields hByName, h.offsets⟩

theorem addField (h : t.Records s l) {catalog : Catalog} {info : FieldInfo}
    (hCoherent : catalog.IsCoherent) (hFields : catalog.fields = t.catalog.fields ++ [info]) :
    Tables.Records { t with catalog := catalog } s (l.addField info) := by
  have hList : t.catalog.fields = l.fields := h.fields
  refine ⟨h.metainfo, ?_, h.savepoints, h.entries, h.algorithm, hCoherent, h.offsets⟩
  change catalog.fields = l.fields ++ [info]
  rw [hFields, hList]

theorem setFieldMetainfo (h : t.Records s l) {catalog : Catalog} {i : Nat} {key : String}
    {value : MetaValue} (hCoherent : catalog.IsCoherent)
    (hFields : catalog.fields = t.catalog.fields.modify i fun info =>
      { info with metainfo := info.metainfo.set key value }) :
    Tables.Records { t with catalog := catalog } s (l.setFieldMetainfo i key value) := by
  have hList : t.catalog.fields = l.fields := h.fields
  refine ⟨h.metainfo, ?_, h.savepoints, h.entries, h.algorithm, hCoherent, h.offsets⟩
  change catalog.fields = l.fields.modify i fun info =>
    { info with metainfo := info.metainfo.set key value }
  rw [hFields, hList]

theorem find?_eq_some_iff (h : t.Records s l) {name : String} {info : FieldInfo} :
    t.catalog.find? name = some info ↔ info ∈ l.fields ∧ info.name = name := by
  have hList : t.catalog.fields = l.fields := h.fields
  rw [h.catalog.find?_eq_some_iff, hList]

theorem find?_eq_none_iff (h : t.Records s l) {name : String} :
    t.catalog.find? name = none ↔ name ∉ l.fields.map FieldInfo.name := by
  have hList : t.catalog.fields = l.fields := h.fields
  rw [h.catalog.find?_eq_none_iff, hList]

end Tables.Records
end FieldArchive

import FieldArchive.Proofs.Document.Acceptance

/-!
# Tables that answer alike

A document holds lists only.  That loading it gives back tables which answer every
question as before needs two things of the tables it was taken from: that their
indices say what their lists say (`Catalog.IsCoherent`, `OffsetTable.IsCoherent`),
and that the fields noted at a savepoint are those of its entries, in order
(`Tables.NotesPresence`).  The second is kept by every operation on the tables:
`NotesPresence.add` is the step for one more entry, which loading and storing share.

`Tables.Agrees` lists the questions, and `Tables.Agrees.of_represents` says that two
tables of one document agree.
-/

namespace FieldArchive

/-- The fields of the entries at the savepoint that a probe stands for, in order. -/
def OffsetTable.namesAt (t : OffsetTable) (probe : Savepoint) : List String :=
  (t.entries.filter fun e => (t.savepoints[e.savepoint]?).any (· == probe)).map OffsetEntry.field

/-- The fields noted at each savepoint are those of its entries. -/
def Tables.NotesPresence (c : Catalog) (t : OffsetTable) : Prop :=
  ∀ probe, c.fieldsAt probe = t.namesAt probe

/-! ## Entries at a savepoint -/

namespace OffsetTable

variable {t : OffsetTable} {i : Nat} {known point : Savepoint} {f : String}

theorem namesAt_add (hKnown : t.savepoints[i]? = some known) (record : OffsetRecord)
    (probe : Savepoint) :
    (t.add i f record).namesAt probe = t.namesAt probe ++ if known == probe then [f] else [] := by
  simp only [namesAt, add_entries, add_savepoints, List.filter_append, List.map_append]
  cases hSame : known == probe with
  | true => simp [hKnown, hSame]
  | false => simp [hKnown, hSame]

/-- A new savepoint has no entries. -/
theorem IsCoherent.namesAt_registerSavepoint (h : t.IsCoherent) (point probe : Savepoint) :
    (t.registerSavepoint point).2.namesAt probe = t.namesAt probe := by
  cases hId : t.savepointId? point with
  | some id => rw [registerSavepoint_of_some hId]
  | none =>
      rw [registerSavepoint_of_none hId]
      simp only [namesAt]
      congr 1
      refine List.filter_congr fun e he => ?_
      rw [List.getElem?_append_left (h.savepoint_lt e he)]

/-- A field whose key is free is not among those of the savepoint. -/
theorem IsCoherent.not_mem_namesAt (h : t.IsCoherent) (hKnown : t.savepoints[i]? = some known)
    (hSame : (known == point) = true) (hFree : t.position? i f = none) :
    f ∉ t.namesAt point := by
  intro hMem
  obtain ⟨e, he, rfl⟩ := List.mem_map.1 hMem
  obtain ⟨hEntry, hAt⟩ := List.mem_filter.1 he
  obtain ⟨other, hOther, hProbe⟩ := (Option.any_eq_true _ _).1 hAt
  -- both savepoints are the one that is found for the point
  have hNumber : some e.savepoint = some i :=
    (h.savepointId?_of_getElem? hOther hProbe).symm.trans (h.savepointId?_of_getElem? hKnown hSame)
  rw [h.position] at hFree
  have hKey := List.findIdx?_eq_none_iff.1 hFree e hEntry
  simp [OffsetEntry.hasKey, Option.some.inj hNumber] at hKey

end OffsetTable

/-! ## Noting presence -/

namespace Catalog

variable {c c' : Catalog} {point : Savepoint} {name : String}

theorem fieldsAt_congr (h : c'.presence = c.presence) (probe : Savepoint) :
    c'.fieldsAt probe = c.fieldsAt probe := by
  rw [fieldsAt, fieldsAt, h]

/-- A name that is not there yet stands at the end. -/
theorem fieldsAt_recordPresence (hOk : c.recordPresence point name = .ok c')
    (hNew : name ∉ c.fieldsAt point) (probe : Savepoint) :
    c'.fieldsAt probe = c.fieldsAt probe ++ if point == probe then [name] else [] := by
  have hAbsent : (c.fieldsAt point).contains name = false := by
    rw [← Bool.not_eq_true, List.contains_iff_mem]
    exact hNew
  unfold recordPresence at hOk
  split at hOk
  · simp only [hAbsent, Bool.false_eq_true, if_false, Except.ok.injEq] at hOk
    subst hOk
    simp only [fieldsAt, Index.get?_insert]
    cases hSame : point == probe with
    | true => rw [if_pos rfl, Option.getD_some, if_pos rfl, c.presence.get?_congr hSame]
    | false => simp
  · cases hOk

theorem presence_of_register {info : FieldInfo} {r : Registration}
    (hOk : c.register info = .ok (r, c')) : c'.presence = c.presence := by
  unfold register at hOk
  split at hOk
  · obtain ⟨_, -, hDone⟩ := except_bind_eq_ok_iff.1 hOk
    cases hDone
    rfl
  · cases hOk
    rfl

theorem presence_of_addMetainfo {key : String} {value : MetaValue}
    (hOk : c.addMetainfo name key value = .ok c') : c'.presence = c.presence := by
  unfold addMetainfo at hOk
  split at hOk
  · cases hOk
  · cases hOk
    rfl

end Catalog

namespace Tables

variable {c c' : Catalog} {t : OffsetTable}

theorem NotesPresence.congr (h : NotesPresence c t) (hPresence : c'.presence = c.presence) :
    NotesPresence c' t := by
  intro probe
  rw [Catalog.fieldsAt_congr hPresence]
  exact h probe

theorem NotesPresence.registerSavepoint (h : NotesPresence c t) (hTable : t.IsCoherent)
    (point : Savepoint) : NotesPresence c (t.registerSavepoint point).2 := by
  intro probe
  rw [hTable.namesAt_registerSavepoint]
  exact h probe

/-- One more entry is noted at its savepoint, by whichever interchangeable point. -/
theorem NotesPresence.add (h : NotesPresence c t) (hTable : t.IsCoherent) {i : Nat}
    {known point : Savepoint} (hKnown : t.savepoints[i]? = some known)
    (hSame : (known == point) = true) {f : String} (hFree : t.position? i f = none)
    (hOk : c.recordPresence point f = .ok c') (record : OffsetRecord) :
    NotesPresence c' (t.add i f record) := by
  intro probe
  have hNew : f ∉ c.fieldsAt point := by
    rw [h point]
    exact hTable.not_mem_namesAt hKnown hSame hFree
  rw [Catalog.fieldsAt_recordPresence hOk hNew, OffsetTable.namesAt_add hKnown, h probe,
    BEq.congr_left hSame]

end Tables

/-! ## Loaded tables -/

namespace Document

variable {c : Catalog} {t : OffsetTable}

theorem presence_of_addField {info : FieldInfo} {c' : Catalog}
    (hOk : addField c info = .ok c') : c'.presence = c.presence :=
  Catalog.presence_of_register (addField_eq_ok_iff.1 hOk).2.2

/-- Adding an entry notes its field. -/
theorem notesPresence_addOffset (h : Tables.NotesPresence c t) (hTable : t.IsCoherent)
    {e : OffsetEntry} {c' : Catalog} {t' : OffsetTable}
    (hOk : addOffset (c, t) e = .ok (c', t')) : Tables.NotesPresence c' t' := by
  obtain ⟨-, point, -, -, hRestore, hPoint, hPresence⟩ := addOffset_eq_ok_iff.1 hOk
  obtain ⟨-, hFree, -, -, rfl⟩ := OffsetTable.restore_eq_ok_iff.1 hRestore
  exact h.add hTable hPoint BEq.rfl hFree hPresence e.record

/-- Tables that are built note the fields of their entries. -/
theorem notesPresence_of_tables {doc : Document} {tables : Tables}
    (hOk : doc.tables = .ok tables) : Tables.NotesPresence tables.catalog tables.offsets := by
  obtain ⟨catalog, offsets, hFields, hSavepoints, hOffsets, -, -⟩ := tables_eq_ok_iff.1 hOk
  obtain ⟨hCatalog, -⟩ := foldlM_addField_ok Catalog.isCoherent_empty hFields
  obtain ⟨hTable, -, hNone, -⟩ :=
    foldlM_addSavepoint_ok (OffsetTable.isCoherent_empty _) hSavepoints
  have hEmpty : catalog.presence = .empty :=
    foldlM_invariant (P := fun c => c.presence = .empty)
      (fun _ _ _ h hStep => (presence_of_addField hStep).trans h) rfl hFields
  have hStart : Tables.NotesPresence catalog offsets := by
    intro probe
    simp [Catalog.fieldsAt, hEmpty, OffsetTable.namesAt, hNone, OffsetTable.empty]
  refine (foldlM_invariant (P := fun next => next.1.IsCoherent ∧ next.2.IsCoherent ∧
    Tables.NotesPresence next.1 next.2) ?_ ⟨hCatalog, hTable, hStart⟩ hOffsets).2.2
  rintro ⟨c, t⟩ e ⟨c', t'⟩ ⟨hc, ht, h⟩ hStep
  obtain ⟨hc', -, ht', -⟩ := addOffset_ok hc ht hStep
  exact ⟨hc', ht', notesPresence_addOffset h ht hStep⟩

end Document

/-! ## Agreement -/

/-- Two tables give the same answer to every question. -/
structure Tables.Agrees (t u : Tables) : Prop where
  metainfo : t.metainfo = u.metainfo
  /-- Descriptions, in the order of registration. -/
  fields : t.catalog.fields = u.catalog.fields
  find : ∀ name, t.catalog.find? name = u.catalog.find? name
  /-- Names at a savepoint, in the order of writing. -/
  fieldsAt : ∀ probe, t.catalog.fieldsAt probe = u.catalog.fieldsAt probe
  /-- Savepoints, by number. -/
  savepoints : t.offsets.savepoints = u.offsets.savepoints
  savepointId : ∀ probe, t.offsets.savepointId? probe = u.offsets.savepointId? probe
  /-- Entries, in the order of insertion. -/
  entries : t.offsets.entries = u.offsets.entries
  lookup : ∀ probe field, t.offsets.lookup probe field = u.offsets.lookup probe field
  /-- The range that a payload with a checksum would share. -/
  range : ∀ checksum, t.offsets.byChecksum.get? checksum = u.offsets.byChecksum.get? checksum
  uniqueRanges : t.offsets.uniqueRanges = u.offsets.uniqueRanges
  algorithm : t.offsets.algorithm = u.offsets.algorithm

/-- The lists and the presence determine every answer. -/
theorem Tables.Agrees.of_represents {t u : Tables} {doc : Document} (ht : t.Represents doc)
    (hu : u.Represents doc) (hPresence : NotesPresence t.catalog t.offsets)
    (hPresence' : NotesPresence u.catalog u.offsets) : t.Agrees u := by
  have hFields := ht.fields.trans hu.fields.symm
  have hSavepoints := ht.savepoints.trans hu.savepoints.symm
  have hEntries := ht.entries.trans hu.entries.symm
  have hId : ∀ probe, t.offsets.savepointId? probe = u.offsets.savepointId? probe := by
    intro probe
    rw [OffsetTable.savepointId?, ht.offsets.savepointIds, OffsetTable.savepointId?,
      hu.offsets.savepointIds, hSavepoints]
  refine ⟨ht.metainfo.trans hu.metainfo.symm, hFields, ?_, ?_, hSavepoints, hId, hEntries, ?_, ?_,
    ?_, ht.algorithm.trans hu.algorithm.symm⟩
  · intro name
    rw [ht.catalog.find?_eq, hu.catalog.find?_eq, hFields]
  · intro probe
    rw [hPresence, hPresence', OffsetTable.namesAt, OffsetTable.namesAt, hSavepoints, hEntries]
  · intro probe field
    simp only [OffsetTable.lookup, hId, ht.offsets.position, hu.offsets.position, hEntries]
  · intro checksum
    rw [ht.offsets.byChecksum, hu.offsets.byChecksum, hEntries]
  · rw [ht.offsets.uniqueRanges, hu.offsets.uniqueRanges, hEntries]

namespace Document

/-- Tables with the lists of a sound document and with presence noted are given back
by a snapshot, up to what no question can tell. -/
theorem exists_agrees {doc : Document} (hSound : doc.IsSound) {t : Tables}
    (ht : t.Represents doc) (hPresence : Tables.NotesPresence t.catalog t.offsets) :
    ∃ u, doc.tables = .ok u ∧ u.Agrees t := by
  obtain ⟨u, hOk, hRepresents⟩ := exists_tables hSound
  exact ⟨u, hOk, .of_represents hRepresents ht (notesPresence_of_tables hOk) hPresence⟩

/-- A document is given back by a snapshot of its tables, but for the time and the
version. -/
theorem snapshot_of_tables {doc : Document} {t : Tables} (hOk : doc.tables = .ok t)
    (updatedAt : String) :
    snapshot doc.id doc.createdAt updatedAt doc.settings t doc.dataLength =
      { doc with updatedAt := updatedAt, formatVersion := currentVersion } := by
  obtain ⟨hMetainfo, hFields, hSavepoints, hEntries, -, -, -⟩ := tables_ok hOk
  simp only [snapshot, hMetainfo, hFields, hSavepoints, hEntries]

end Document
end FieldArchive

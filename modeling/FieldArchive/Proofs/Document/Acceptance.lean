import FieldArchive.Proofs.Document.Tables

/-!
# Which documents are accepted

`Document.IsSound` is a law on the lists of a document: what must hold of single
fields and entries, and of every two of them.  The loader checks it one element
at a time against indices that it is still building.  Here the two are shown to
agree.

* `Document.isSound_of_tables`: tables are built from sound documents only, so
  together with `Document.exists_tables` soundness is exactly what is accepted;
* `Document.isCorrupt_of_tables`: a document that is refused is called corrupt.
  The other errors of the helpers, such as two descriptions of one field that do
  not fit, cannot come up;
* `Document.Reaches.inRange`: whatever tables the loader has at hand on its way,
  every position that they give stands in the list that it is a position of.
-/

namespace FieldArchive

/-- An error that blames the files. -/
def Error.isCorrupt : Error → Bool
  | corruptMetadata _ => true
  | _ => false

theorem Error.isCorrupt_iff {e : Error} :
    e.isCorrupt = true ↔ ∃ cause, e = .corruptMetadata cause := by
  cases e <;> simp [isCorrupt]

/-- Positions that the index of names gives stand in the list of fields. -/
def Catalog.InRange (c : Catalog) : Prop :=
  ∀ name i, c.byName.get? name = some i → i < c.fields.length

theorem Catalog.IsCoherent.inRange {c : Catalog} (h : c.IsCoherent) : c.InRange := by
  intro name i hGet
  rw [h.byName] at hGet
  exact (List.findIdx?_eq_some_iff_getElem.1 hGet).1

/-- A range fits if its end is a word and not past the data. -/
theorem OffsetTable.fits_iff {dataLength : Nat} {extent : Extent} :
    OffsetTable.fits dataLength extent = true ↔
      extent.offset + extent.length < wordBound ∧
        extent.offset + extent.length ≤ dataLength := by
  unfold OffsetTable.fits Extent.stop?
  by_cases hWord : extent.offset + extent.length < wordBound <;> simp [hWord]

/-! ## Folds that can fail -/

section Folds

variable {ε α β : Type} {f : β → α → Except ε β} {xs : List α} {b b' : β}

/-- A fold fails at an element, with those before it done. -/
theorem exists_of_foldlM_eq_error {e : ε} (h : xs.foldlM f b = .error e) :
    ∃ done x, f done x = .error e := by
  induction xs generalizing b with
  | nil => cases h
  | cons x xs ih =>
      rw [List.foldlM_cons] at h
      cases hx : f b x with
      | error e' =>
          rw [hx] at h
          cases h
          exact ⟨b, x, hx⟩
      | ok next =>
          rw [hx] at h
          exact ih h

/-- What every step makes sure of its element holds of all elements. -/
theorem forall_of_foldlM_eq_ok {P : α → Prop} (hStep : ∀ b x b', f b x = .ok b' → P x)
    (h : xs.foldlM f b = .ok b') : ∀ x ∈ xs, P x := by
  induction xs generalizing b with
  | nil => simp
  | cons x xs ih =>
      rw [List.foldlM_cons] at h
      obtain ⟨next, hx, hRest⟩ := except_bind_eq_ok_iff.1 h
      simp only [List.mem_cons, forall_eq_or_imp]
      exact ⟨hStep _ _ _ hx, ih hRest⟩

/-- What every step keeps, the fold keeps. -/
theorem foldlM_invariant {P : β → Prop} (hStep : ∀ b x b', P b → f b x = .ok b' → P b')
    (hStart : P b) (h : xs.foldlM f b = .ok b') : P b' := by
  induction xs generalizing b with
  | nil =>
      cases h
      exact hStart
  | cons x xs ih =>
      rw [List.foldlM_cons] at h
      obtain ⟨next, hx, hRest⟩ := except_bind_eq_ok_iff.1 h
      exact ih (hStep _ _ _ hStart hx) hRest

end Folds

namespace Document

variable {doc : Document} {c : Catalog} {t : OffsetTable}

/-! ## Accepted documents are sound -/

/-- What the entries that have been added satisfy, each and pairwise. -/
structure Admits (c : Catalog) (t : OffsetTable) : Prop where
  catalog : c.IsCoherent
  table : t.IsCoherent
  described : ∀ e ∈ t.entries, ∃ f ∈ c.fields, f.name = e.field ∧
    f.byteSize = e.record.extent.length
  wellFormed : ∀ e ∈ t.entries, e.record.checksum.isWellFormed t.algorithm = true
  shared : ∀ e ∈ t.entries, ∀ e' ∈ t.entries, e.record.checksum = e'.record.checksum →
    e.record.extent = e'.record.extent

/-- Adding an entry keeps the law on entries. -/
theorem Admits.addOffset (h : Admits c t) {e : OffsetEntry} {c' : Catalog} {t' : OffsetTable}
    (hOk : Document.addOffset (c, t) e = .ok (c', t')) : Admits c' t' := by
  obtain ⟨hCatalog, hFields, hTable, -, hEntries, hAlgorithm⟩ := addOffset_ok h.catalog h.table hOk
  obtain ⟨info, -, hFind, hLength, hRestore, -⟩ := addOffset_eq_ok_iff.1 hOk
  obtain ⟨-, -, hWellFormed, hStored, rfl⟩ := OffsetTable.restore_eq_ok_iff.1 hRestore
  obtain ⟨hInfo, hName⟩ := h.catalog.find?_eq_some_iff.1 hFind
  refine ⟨hCatalog, hTable, ?_, ?_, ?_⟩
  · rw [hEntries, hFields]
    simp only [List.mem_append, List.mem_singleton, or_imp, forall_and, forall_eq]
    exact ⟨h.described, info, hInfo, hName, hLength.symm⟩
  · rw [hEntries, hAlgorithm]
    simp only [List.mem_append, List.mem_singleton, or_imp, forall_and, forall_eq]
    exact ⟨h.wellFormed, hWellFormed⟩
  · exact h.table.sharesExtents_add h.shared hStored _ _

/-- Tables are built from sound documents only. -/
theorem isSound_of_tables {tables : Tables} (hOk : doc.tables = .ok tables) : doc.IsSound := by
  obtain ⟨hMetainfo, hList, hPoints, hEntries, hAlgorithm, hCatalog, hTable⟩ := tables_ok hOk
  obtain ⟨catalog, table, hFields, hSavepoints, hOffsets, hExtent, -⟩ := tables_eq_ok_iff.1 hOk
  have hAdmits : Admits tables.catalog tables.offsets := by
    refine foldlM_invariant (P := fun next => Admits next.1 next.2)
      (fun _ _ _ h hStep => h.addOffset hStep) ?_ hOffsets
    obtain ⟨hCoherent, -⟩ := foldlM_addField_ok Catalog.isCoherent_empty hFields
    obtain ⟨hCoherent', -, hNone, -⟩ :=
      foldlM_addSavepoint_ok (OffsetTable.isCoherent_empty _) hSavepoints
    refine ⟨hCoherent, hCoherent', ?_, ?_, ?_⟩ <;> simp [hNone, OffsetTable.empty]
  rw [validateExtent_eq_ok_iff, hEntries] at hExtent
  exact
    { names := hList ▸ hCatalog.names
      valid := forall_of_foldlM_eq_ok (fun _ _ _ h => (addField_eq_ok_iff.1 h).2.1) hFields
      savepoints := hPoints ▸ hTable.savepoints
      savepoint_lt := hPoints ▸ hEntries ▸ hTable.savepoint_lt
      keys := hEntries ▸ hTable.keys
      described := hList ▸ hEntries ▸ hAdmits.described
      wellFormed := hAlgorithm ▸ hEntries ▸ hAdmits.wellFormed
      shared := hEntries ▸ hAdmits.shared
      fits := hExtent }

/-! ## Refused documents are corrupt -/

variable {e : Error}

theorem isCorrupt_of_addField {info : FieldInfo} (h : addField c info = .error e) :
    e.isCorrupt = true := by
  unfold addField at h
  cases hFind : c.find? info.name with
  | some registered =>
      simp only [hFind, Option.isSome_some, if_true] at h
      cases h
      rfl
  | none =>
      simp only [hFind, Option.isSome_none, Bool.false_eq_true, if_false] at h
      cases hValid : info.validate with
      | error d =>
          rw [hValid] at h
          cases h
          rfl
      | ok _ =>
          -- A name that is new is always registered, so no descriptions are compared.
          simp only [hValid, Catalog.register, hFind] at h
          cases h

theorem isCorrupt_of_addSavepoint {s : Savepoint} (h : addSavepoint t s = .error e) :
    e.isCorrupt = true := by
  unfold addSavepoint at h
  simp only at h
  split at h
  · cases h
    rfl
  · cases h

theorem isCorrupt_of_restore {i : Nat} {f : String} {record : OffsetRecord}
    (h : t.restore i f record = .error e) : e.isCorrupt = true := by
  unfold OffsetTable.restore at h
  repeat' split at h
  all_goals
    cases h
    try rfl

theorem isCorrupt_of_addOffset {entry : OffsetEntry} (h : addOffset (c, t) entry = .error e) :
    e.isCorrupt = true := by
  unfold addOffset at h
  cases hFind : c.find? entry.field with
  | none =>
      simp only [hFind] at h
      cases h
      rfl
  | some info =>
      simp only [hFind] at h
      split at h
      · cases h
        rfl
      · cases hRestore : t.restore entry.savepoint entry.field entry.record with
        | error x =>
            rw [hRestore] at h
            cases h
            exact isCorrupt_of_restore hRestore
        | ok next =>
            -- The field is described, so noting its presence cannot fail.
            rw [hRestore] at h
            simp only [bind, Except.bind] at h
            split at h
            · next point _ =>
                obtain ⟨c', hPresence, -⟩ := Catalog.recordPresence_of_find? hFind point
                rw [hPresence] at h
                cases h
            · cases h

theorem isCorrupt_of_validateExtent {dataLength : Nat}
    (h : t.validateExtent dataLength = .error e) : e.isCorrupt = true := by
  unfold OffsetTable.validateExtent at h
  split at h
  · cases h
  · cases h
    rfl

theorem isCorrupt_of_tables (h : doc.tables = .error e) : e.isCorrupt = true := by
  -- the first stage that fails gives the error
  unfold Document.tables at h
  cases hFields : doc.fields.foldlM addField .empty with
  | error x =>
      rw [hFields] at h
      cases h
      obtain ⟨_, _, hStep⟩ := exists_of_foldlM_eq_error hFields
      exact isCorrupt_of_addField hStep
  | ok catalog =>
      rw [hFields] at h
      cases hSavepoints : doc.savepoints.foldlM addSavepoint (.empty doc.settings.checksum) with
      | error x =>
          simp only [bind, Except.bind, hSavepoints] at h
          cases h
          obtain ⟨_, _, hStep⟩ := exists_of_foldlM_eq_error hSavepoints
          exact isCorrupt_of_addSavepoint hStep
      | ok table =>
          simp only [bind, Except.bind, hSavepoints] at h
          cases hOffsets : doc.offsets.foldlM addOffset (catalog, table) with
          | error x =>
              rw [hOffsets] at h
              cases h
              obtain ⟨_, _, hStep⟩ := exists_of_foldlM_eq_error hOffsets
              exact isCorrupt_of_addOffset hStep
          | ok next =>
              obtain ⟨c', t'⟩ := next
              rw [hOffsets] at h
              cases hExtent : t'.validateExtent doc.dataLength with
              | error x =>
                  simp only [hExtent] at h
                  cases h
                  exact isCorrupt_of_validateExtent hExtent
              | ok _ =>
                  simp only [hExtent] at h
                  cases h

/-! ## Positions on the way -/

/-- The tables that the loader has at hand after some of the fields, then after
some of the savepoints, then after some of the entries. -/
inductive Reaches (doc : Document) : Catalog → OffsetTable → Prop where
  | fields {front : List FieldInfo} {c : Catalog} (hFront : front <+: doc.fields)
      (hc : front.foldlM addField .empty = .ok c) :
      Reaches doc c (.empty doc.settings.checksum)
  | savepoints {front : List Savepoint} {c : Catalog} {t : OffsetTable}
      (hc : doc.fields.foldlM addField .empty = .ok c) (hFront : front <+: doc.savepoints)
      (ht : front.foldlM addSavepoint (.empty doc.settings.checksum) = .ok t) :
      Reaches doc c t
  | entries {front : List OffsetEntry} {c c' : Catalog} {t t' : OffsetTable}
      (hc : doc.fields.foldlM addField .empty = .ok c)
      (ht : doc.savepoints.foldlM addSavepoint (.empty doc.settings.checksum) = .ok t)
      (hFront : front <+: doc.offsets)
      (hOk : front.foldlM addOffset (c, t) = .ok (c', t')) : Reaches doc c' t'

/-- Tables on the way are coherent, and their savepoints are the first of the
document. -/
theorem Reaches.isCoherent (h : doc.Reaches c t) :
    c.IsCoherent ∧ t.IsCoherent ∧ t.savepoints <+: doc.savepoints := by
  cases h with
  | fields hFront hc =>
      obtain ⟨hCatalog, -⟩ := foldlM_addField_ok Catalog.isCoherent_empty hc
      exact ⟨hCatalog, OffsetTable.isCoherent_empty _, List.nil_prefix⟩
  | savepoints hc hFront ht =>
      obtain ⟨hCatalog, -⟩ := foldlM_addField_ok Catalog.isCoherent_empty hc
      obtain ⟨hTable, hPoints, -⟩ := foldlM_addSavepoint_ok (OffsetTable.isCoherent_empty _) ht
      exact ⟨hCatalog, hTable, by rw [hPoints]; exact hFront⟩
  | entries hc ht hFront hOk =>
      obtain ⟨hCatalog, -⟩ := foldlM_addField_ok Catalog.isCoherent_empty hc
      obtain ⟨hTable, hPoints, -⟩ := foldlM_addSavepoint_ok (OffsetTable.isCoherent_empty _) ht
      obtain ⟨hCatalog', -, hTable', hPoints', -⟩ := foldlM_addOffset_ok hCatalog hTable hOk
      exact ⟨hCatalog', hTable', by rw [hPoints', hPoints]; exact List.prefix_rfl⟩

/-- Positions that tables on the way give are in range, and so is the number of
the savepoint of an entry that was put back. -/
theorem Reaches.inRange (h : doc.Reaches c t) :
    c.InRange ∧ t.InRange ∧
      ∀ i f record t', t.restore i f record = .ok t' →
        i < t'.savepoints.length ∧ i < doc.savepoints.length := by
  obtain ⟨hCatalog, hTable, hPrefix⟩ := h.isCoherent
  refine ⟨hCatalog.inRange, hTable.inRange, ?_⟩
  intro i f record t' hRestore
  obtain ⟨hLt, -, -, -, rfl⟩ := OffsetTable.restore_eq_ok_iff.1 hRestore
  rw [OffsetTable.add_savepoints]
  exact ⟨hLt, Nat.lt_of_lt_of_le hLt hPrefix.length_le⟩

/-! ## Acceptance -/

/-- Acceptance is exact.  Tables are built from a document if and only if its
lists satisfy the law that is spelled out here; a document that does not is
called corrupt; and no position on the way is out of range. -/
theorem acceptance_exact (doc : Document) :
    ((∃ tables, doc.tables = .ok tables) ↔
      (doc.fields.map FieldInfo.name).Nodup ∧
      (∀ f ∈ doc.fields, f.validate = .ok ()) ∧
      doc.savepoints.Pairwise (fun a b => (a == b) = false) ∧
      (∀ e ∈ doc.offsets,
        (∃ f ∈ doc.fields, f.name = e.field ∧ e.record.extent.length = f.byteSize) ∧
        e.savepoint < doc.savepoints.length ∧
        e.record.checksum.isWellFormed doc.settings.checksum = true) ∧
      (doc.offsets.map fun e => (e.savepoint, e.field)).Nodup ∧
      (∀ e ∈ doc.offsets, ∀ e' ∈ doc.offsets, e.record.checksum = e'.record.checksum →
        e.record.extent = e'.record.extent) ∧
      ∀ e ∈ doc.offsets,
        e.record.extent.offset + e.record.extent.length < wordBound ∧
        e.record.extent.offset + e.record.extent.length ≤ doc.dataLength) ∧
    (∀ e, doc.tables = .error e → ∃ cause, e = .corruptMetadata cause) ∧
    ∀ c t, doc.Reaches c t → c.InRange ∧ t.InRange ∧
      ∀ e ∈ doc.offsets, ∀ t', t.restore e.savepoint e.field e.record = .ok t' →
        e.savepoint < t'.savepoints.length ∧ e.savepoint < doc.savepoints.length := by
  refine ⟨⟨?_, ?_⟩, fun e h => Error.isCorrupt_iff.1 (isCorrupt_of_tables h), ?_⟩
  · rintro ⟨tables, hOk⟩
    have hSound := isSound_of_tables hOk
    refine ⟨hSound.names, hSound.valid, hSound.savepoints, ?_, hSound.keys, hSound.shared,
      fun e he => OffsetTable.fits_iff.1 (hSound.fits e he)⟩
    intro e he
    obtain ⟨f, hf, hName, hSize⟩ := hSound.described e he
    exact ⟨⟨f, hf, hName, hSize.symm⟩, hSound.savepoint_lt e he, hSound.wellFormed e he⟩
  · rintro ⟨hNames, hValid, hSavepoints, hEntries, hKeys, hShared, hFits⟩
    have hSound : doc.IsSound :=
      { names := hNames
        valid := hValid
        savepoints := hSavepoints
        savepoint_lt := fun e he => (hEntries e he).2.1
        keys := hKeys
        described := fun e he =>
          have ⟨f, hf, hName, hSize⟩ := (hEntries e he).1
          ⟨f, hf, hName, hSize.symm⟩
        wellFormed := fun e he => (hEntries e he).2.2
        shared := hShared
        fits := fun e he => OffsetTable.fits_iff.2 (hFits e he) }
    obtain ⟨tables, hOk, -⟩ := exists_tables hSound
    exact ⟨tables, hOk⟩
  · intro c t hReaches
    obtain ⟨hCatalog, hTable, hRestored⟩ := hReaches.inRange
    exact ⟨hCatalog, hTable, fun e _ t' => hRestored _ _ _ t'⟩

end Document
end FieldArchive

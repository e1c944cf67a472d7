import FieldArchive.Document.Basic
import FieldArchive.Proofs.Catalog
import FieldArchive.Proofs.Offsets.Storing

/-!
# The tables of a document

Loading a document builds the indices again and checks what the tables rely on.
`Document.tables_ok` says that tables which are built have the lists of the
document and are coherent, and `Document.exists_tables` that they are built
whenever the document is sound.
-/

namespace FieldArchive

theorem except_bind_eq_ok_iff {ε α β : Type} {x : Except ε α} {f : α → Except ε β} {b : β} :
    (x >>= f) = .ok b ↔ ∃ a, x = .ok a ∧ f a = .ok b := by
  cases x <;> simp [bind, Except.bind]

theorem except_bind_eq_error_iff {ε α β : Type} {x : Except ε α} {f : α → Except ε β} {e : ε} :
    (x >>= f) = .error e ↔ x = .error e ∨ ∃ a, x = .ok a ∧ f a = .error e := by
  cases x <;> simp [bind, Except.bind]

theorem mapError_eq_ok_iff {ε ε' α : Type} {x : Except ε α} {f : ε → ε'} {a : α} :
    x.mapError f = .ok a ↔ x = .ok a := by
  cases x <;> simp [Except.mapError]

instance decidableExistsExceptOk {ε α : Type} :
    (x : Except ε α) → Decidable (∃ a, x = .ok a)
  | .ok a => isTrue ⟨a, rfl⟩
  | .error _ => isFalse nofun

/-- The lists of tables are those of a document, and the indices agree with
them. -/
structure Tables.Represents (t : Tables) (doc : Document) : Prop where
  metainfo : t.metainfo = doc.metainfo
  fields : t.catalog.fields = doc.fields
  savepoints : t.offsets.savepoints = doc.savepoints
  entries : t.offsets.entries = doc.offsets
  algorithm : t.offsets.algorithm = doc.settings.checksum
  catalog : t.catalog.IsCoherent
  offsets : t.offsets.IsCoherent

namespace Document

/-- What a document must satisfy to be loaded. -/
structure IsSound (doc : Document) : Prop where
  names : (doc.fields.map FieldInfo.name).Nodup
  valid : ∀ f ∈ doc.fields, f.validate = .ok ()
  savepoints : doc.savepoints.Pairwise fun a b => (a == b) = false
  savepoint_lt : ∀ e ∈ doc.offsets, e.savepoint < doc.savepoints.length
  keys : (doc.offsets.map fun e => (e.savepoint, e.field)).Nodup
  described : ∀ e ∈ doc.offsets, ∃ f ∈ doc.fields, f.name = e.field ∧
    f.byteSize = e.record.extent.length
  wellFormed : ∀ e ∈ doc.offsets,
    e.record.checksum.isWellFormed doc.settings.checksum = true
  shared : ∀ e ∈ doc.offsets, ∀ e' ∈ doc.offsets, e.record.checksum = e'.record.checksum →
    e.record.extent = e'.record.extent
  fits : ∀ e ∈ doc.offsets, OffsetTable.fits doc.dataLength e.record.extent = true

/-! ## Fields -/

variable {c : Catalog} {t : OffsetTable}

/-- A field is added if and only if its name is new and its description valid. -/
theorem addField_eq_ok_iff {info : FieldInfo} {c' : Catalog} :
    addField c info = .ok c' ↔ c.find? info.name = none ∧ info.validate = .ok () ∧
      c.register info = .ok (.inserted, c') := by
  unfold addField
  cases hFind : c.find? info.name with
  | some registered => simp [throw, throwThe, MonadExceptOf.throw, bind, Except.bind]
  | none =>
      cases hValid : info.validate with
      | error d => simp [throw, throwThe, MonadExceptOf.throw]
      | ok _ => simp [hFind, Catalog.register, bind, Except.bind, pure, Except.pure]

theorem addField_ok (h : c.IsCoherent) {info : FieldInfo} {c' : Catalog}
    (hOk : addField c info = .ok c') : c'.IsCoherent ∧ c'.fields = c.fields ++ [info] := by
  obtain ⟨hFind, -, hRegister⟩ := addField_eq_ok_iff.1 hOk
  obtain ⟨c'', hSame, hCoherent, hFields⟩ := h.register_of_none hFind
  rw [hRegister] at hSame
  cases hSame
  exact ⟨hCoherent, hFields⟩

theorem exists_addField (h : c.IsCoherent) {info : FieldInfo}
    (hFresh : info.name ∉ c.fields.map FieldInfo.name) (hValid : info.validate = .ok ()) :
    ∃ c', addField c info = .ok c' := by
  have hFind := h.find?_eq_none_iff.2 hFresh
  obtain ⟨c', hRegister, -⟩ := h.register_of_none hFind
  exact ⟨c', addField_eq_ok_iff.2 ⟨hFind, hValid, hRegister⟩⟩

theorem foldlM_addField_ok (h : c.IsCoherent) {fields : List FieldInfo} {c' : Catalog}
    (hOk : fields.foldlM addField c = .ok c') :
    c'.IsCoherent ∧ c'.fields = c.fields ++ fields := by
  induction fields generalizing c with
  | nil =>
      cases hOk
      exact ⟨h, by simp⟩
  | cons info fields ih =>
      rw [List.foldlM_cons] at hOk
      obtain ⟨next, hAdd, hRest⟩ := except_bind_eq_ok_iff.1 hOk
      obtain ⟨hNext, hFields⟩ := addField_ok h hAdd
      obtain ⟨hCoherent, hAll⟩ := ih hNext hRest
      exact ⟨hCoherent, by rw [hAll, hFields]; simp⟩

theorem exists_foldlM_addField (h : c.IsCoherent) {fields : List FieldInfo}
    (hNames : ((c.fields ++ fields).map FieldInfo.name).Nodup)
    (hValid : ∀ f ∈ fields, f.validate = .ok ()) :
    ∃ c', fields.foldlM addField c = .ok c' := by
  induction fields generalizing c with
  | nil => exact ⟨c, rfl⟩
  | cons info fields ih =>
      have hFresh : info.name ∉ c.fields.map FieldInfo.name := by
        rw [List.map_append, List.nodup_append] at hNames
        intro hMem
        exact hNames.2.2 _ hMem info.name (by simp) rfl
      obtain ⟨next, hAdd⟩ := exists_addField h hFresh (hValid info (by simp))
      obtain ⟨hNext, hFields⟩ := addField_ok h hAdd
      obtain ⟨c', hRest⟩ := ih hNext (by rw [hFields]; simpa using hNames)
        fun f hf => hValid f (by simp [hf])
      exact ⟨c', by rw [List.foldlM_cons, hAdd]; exact hRest⟩

/-! ## Savepoints -/

theorem addSavepoint_ok (h : t.IsCoherent) {s : Savepoint} {t' : OffsetTable}
    (hOk : addSavepoint t s = .ok t') :
    t'.IsCoherent ∧ t'.savepoints = t.savepoints ++ [s] ∧ t'.entries = t.entries ∧
      t'.algorithm = t.algorithm := by
  have hCoherent := h.registerSavepoint s
  unfold addSavepoint at hOk
  cases hId : t.savepointId? s with
  | some id =>
      obtain ⟨known, hKnown, -⟩ := h.savepointId?_eq_some hId
      have hLt : id < t.savepoints.length := (List.getElem?_eq_some_iff.1 hKnown).1
      rw [OffsetTable.registerSavepoint_of_some hId] at hOk
      simp only [ne_eq, Nat.ne_of_lt hLt, not_false_eq_true, if_true] at hOk
      cases hOk
  | none =>
      rw [OffsetTable.registerSavepoint_of_none hId] at hOk hCoherent
      simp only [ne_eq, not_true_eq_false, if_false, Except.ok.injEq] at hOk
      subst hOk
      exact ⟨hCoherent, rfl, rfl, rfl⟩

theorem exists_addSavepoint (h : t.IsCoherent) {s : Savepoint}
    (hFresh : ∀ known ∈ t.savepoints, (known == s) = false) :
    ∃ t', addSavepoint t s = .ok t' := by
  have hId : t.savepointId? s = none := by
    rw [OffsetTable.savepointId?, h.savepointIds]
    exact List.findIdx?_eq_none_iff.2 hFresh
  refine ⟨(t.registerSavepoint s).2, ?_⟩
  simp only [addSavepoint, OffsetTable.registerSavepoint_of_none hId, ne_eq, not_true_eq_false,
    if_false]

theorem foldlM_addSavepoint_ok (h : t.IsCoherent) {savepoints : List Savepoint}
    {t' : OffsetTable} (hOk : savepoints.foldlM addSavepoint t = .ok t') :
    t'.IsCoherent ∧ t'.savepoints = t.savepoints ++ savepoints ∧ t'.entries = t.entries ∧
      t'.algorithm = t.algorithm := by
  induction savepoints generalizing t with
  | nil =>
      cases hOk
      exact ⟨h, by simp, rfl, rfl⟩
  | cons s savepoints ih =>
      rw [List.foldlM_cons] at hOk
      obtain ⟨next, hAdd, hRest⟩ := except_bind_eq_ok_iff.1 hOk
      obtain ⟨hNext, hSavepoints, hEntries, hAlgorithm⟩ := addSavepoint_ok h hAdd
      obtain ⟨hCoherent, hAll, hSame, hSameAlgorithm⟩ := ih hNext hRest
      refine ⟨hCoherent, ?_, hSame.trans hEntries, hSameAlgorithm.trans hAlgorithm⟩
      rw [hAll, hSavepoints]
      simp

theorem exists_foldlM_addSavepoint (h : t.IsCoherent) {savepoints : List Savepoint}
    (hDistinct : (t.savepoints ++ savepoints).Pairwise fun a b => (a == b) = false) :
    ∃ t', savepoints.foldlM addSavepoint t = .ok t' := by
  induction savepoints generalizing t with
  | nil => exact ⟨t, rfl⟩
  | cons s savepoints ih =>
      have hFresh : ∀ known ∈ t.savepoints, (known == s) = false := by
        intro known hKnown
        exact (List.pairwise_append.1 hDistinct).2.2 known hKnown s (by simp)
      obtain ⟨next, hAdd⟩ := exists_addSavepoint h hFresh
      obtain ⟨hNext, hSavepoints, -⟩ := addSavepoint_ok h hAdd
      obtain ⟨t', hRest⟩ := ih hNext (by rw [hSavepoints]; simpa using hDistinct)
      exact ⟨t', by rw [List.foldlM_cons, hAdd]; exact hRest⟩

/-! ## Offsets -/

/-- Adding an entry succeeds if and only if its field is described with its
length and it can be put back; its field is then noted at its savepoint. -/
theorem addOffset_eq_ok_iff {e : OffsetEntry} {c' : Catalog} {t' : OffsetTable} :
    addOffset (c, t) e = .ok (c', t') ↔
      ∃ info point, c.find? e.field = some info ∧ e.record.extent.length = info.byteSize ∧
        t.restore e.savepoint e.field e.record = .ok t' ∧
        t.savepoints[e.savepoint]? = some point ∧
        c.recordPresence point e.field = .ok c' := by
  unfold addOffset
  cases hFind : c.find? e.field with
  | none => simp [hFind, throw, throwThe, MonadExceptOf.throw]
  | some info =>
      by_cases hLength : e.record.extent.length = info.byteSize
      · cases hRestore : t.restore e.savepoint e.field e.record with
        | error x => simp [hFind, hLength, hRestore, bind, Except.bind]
        | ok next =>
            obtain ⟨hLt, -, -, -, rfl⟩ := OffsetTable.restore_eq_ok_iff.1 hRestore
            obtain ⟨c'', hPresence, -⟩ :=
              Catalog.recordPresence_of_find? hFind t.savepoints[e.savepoint]
            simp [hFind, hLength, hRestore, bind, Except.bind, pure, Except.pure,
              OffsetTable.add_savepoints, List.getElem?_eq_getElem hLt, hPresence, and_comm]
      · simp [hFind, hLength, throw, throwThe, MonadExceptOf.throw, bind, Except.bind]

theorem addOffset_ok (hc : c.IsCoherent) (h : t.IsCoherent) {e : OffsetEntry}
    {c' : Catalog} {t' : OffsetTable} (hOk : addOffset (c, t) e = .ok (c', t')) :
    c'.IsCoherent ∧ c'.fields = c.fields ∧ t'.IsCoherent ∧
      t'.savepoints = t.savepoints ∧ t'.entries = t.entries ++ [e] ∧
      t'.algorithm = t.algorithm := by
  obtain ⟨info, point, hFind, -, hRestore, -, hPresence⟩ := addOffset_eq_ok_iff.1 hOk
  obtain ⟨hLt, hFree, -, -, rfl⟩ := OffsetTable.restore_eq_ok_iff.1 hRestore
  obtain ⟨c'', hSame, hFields, hByName⟩ := Catalog.recordPresence_of_find? hFind point
  rw [hPresence] at hSame
  cases hSame
  exact ⟨hc.congr hFields hByName, hFields, h.add _ _ _ hLt hFree,
    OffsetTable.add_savepoints .., OffsetTable.add_entries .., OffsetTable.add_algorithm ..⟩

theorem foldlM_addOffset_ok (hc : c.IsCoherent) (h : t.IsCoherent) {entries : List OffsetEntry}
    {c' : Catalog} {t' : OffsetTable} (hOk : entries.foldlM addOffset (c, t) = .ok (c', t')) :
    c'.IsCoherent ∧ c'.fields = c.fields ∧ t'.IsCoherent ∧
      t'.savepoints = t.savepoints ∧ t'.entries = t.entries ++ entries ∧
      t'.algorithm = t.algorithm := by
  induction entries generalizing c t with
  | nil =>
      cases hOk
      exact ⟨hc, rfl, h, rfl, by simp, rfl⟩
  | cons e entries ih =>
      rw [List.foldlM_cons] at hOk
      obtain ⟨next, hAdd, hRest⟩ := except_bind_eq_ok_iff.1 hOk
      obtain ⟨hCatalog, hFields, hTable, hSavepoints, hEntries, hAlgorithm⟩ :=
        addOffset_ok hc h hAdd
      obtain ⟨hCatalog', hFields', hTable', hSavepoints', hEntries', hAlgorithm'⟩ :=
        ih hCatalog hTable hRest
      refine ⟨hCatalog', hFields'.trans hFields, hTable', hSavepoints'.trans hSavepoints, ?_,
        hAlgorithm'.trans hAlgorithm⟩
      rw [hEntries', hEntries]
      simp

/-- An entry of a sound document can be added to the tables of those before it. -/
theorem exists_addOffset {doc : Document} (hSound : doc.IsSound) (hc : c.IsCoherent)
    (h : t.IsCoherent) (hFields : c.fields = doc.fields)
    (hSavepoints : t.savepoints = doc.savepoints)
    (hAlgorithm : t.algorithm = doc.settings.checksum) {e : OffsetEntry}
    {rest : List OffsetEntry} (hEntries : doc.offsets = t.entries ++ e :: rest) :
    ∃ next, addOffset (c, t) e = .ok next := by
  have hMem : e ∈ doc.offsets := by simp [hEntries]
  have hLt : e.savepoint < t.savepoints.length := by
    rw [hSavepoints]
    exact hSound.savepoint_lt e hMem
  have hFree : t.position? e.savepoint e.field = none := by
    rw [h.position]
    refine List.findIdx?_eq_none_iff.2 fun e' he' => ?_
    rw [← Bool.not_eq_true]
    intro hKey
    simp only [OffsetEntry.hasKey, Bool.and_eq_true, beq_iff_eq] at hKey
    have hKeys := hSound.keys
    rw [hEntries, List.map_append, List.nodup_append] at hKeys
    exact hKeys.2.2 _ (List.mem_map_of_mem he') (e.savepoint, e.field) (by simp)
      (Prod.ext hKey.1 hKey.2)
  -- an entry with the same checksum is before this one in the document
  have hShared : ∀ extent, t.byChecksum.get? e.record.checksum = some extent →
      extent = e.record.extent := by
    intro extent hGet
    rw [h.byChecksum] at hGet
    obtain ⟨e', hFind, rfl⟩ := Option.map_eq_some_iff.1 hGet
    have hSame : e'.record.checksum = e.record.checksum := by simpa using List.find?_some hFind
    refine hSound.shared e' ?_ e hMem hSame
    rw [hEntries]
    exact List.mem_append_left _ (List.mem_of_find?_eq_some hFind)
  have hRestore := OffsetTable.restore_eq_ok_iff.2
    ⟨hLt, hFree, by rw [hAlgorithm]; exact hSound.wellFormed e hMem, hShared, rfl⟩
  obtain ⟨info, hInfo, hName, hSize⟩ := hSound.described e hMem
  have hFind : c.find? e.field = some info :=
    hc.find?_eq_some_iff.2 ⟨by rw [hFields]; exact hInfo, hName⟩
  obtain ⟨c', hPresence, -⟩ := Catalog.recordPresence_of_find? hFind t.savepoints[e.savepoint]
  exact ⟨(c', t.add e.savepoint e.field e.record), addOffset_eq_ok_iff.2
    ⟨info, _, hFind, hSize.symm, hRestore, List.getElem?_eq_getElem hLt, hPresence⟩⟩

theorem exists_foldlM_addOffset {doc : Document} (hSound : doc.IsSound) (hc : c.IsCoherent)
    (h : t.IsCoherent) (hFields : c.fields = doc.fields)
    (hSavepoints : t.savepoints = doc.savepoints)
    (hAlgorithm : t.algorithm = doc.settings.checksum) {rest : List OffsetEntry}
    (hEntries : doc.offsets = t.entries ++ rest) :
    ∃ next, rest.foldlM addOffset (c, t) = .ok next := by
  induction rest generalizing c t with
  | nil => exact ⟨(c, t), rfl⟩
  | cons e rest ih =>
      obtain ⟨⟨c', t'⟩, hAdd⟩ :=
        exists_addOffset hSound hc h hFields hSavepoints hAlgorithm hEntries
      obtain ⟨hCatalog, hFields', hTable, hSavepoints', hEntries', hAlgorithm'⟩ :=
        addOffset_ok hc h hAdd
      obtain ⟨next, hRest⟩ := ih hCatalog hTable (hFields'.trans hFields)
        (hSavepoints'.trans hSavepoints) (hAlgorithm'.trans hAlgorithm)
        (by rw [hEntries', hEntries]; simp)
      exact ⟨next, by rw [List.foldlM_cons, hAdd]; exact hRest⟩

/-! ## All tables -/

theorem validateExtent_eq_ok_iff {dataLength : Nat} :
    t.validateExtent dataLength = .ok () ↔
      ∀ e ∈ t.entries, OffsetTable.fits dataLength e.record.extent = true := by
  unfold OffsetTable.validateExtent
  cases hFind : t.entries.find? fun e => !OffsetTable.fits dataLength e.record.extent with
  | none => simpa using hFind
  | some e =>
      have hLong := List.find?_some hFind
      simp only [reduceCtorEq, false_iff, not_forall]
      exact ⟨e, List.mem_of_find?_eq_some hFind, by simpa using hLong⟩

/-- Tables are built in three passes over the lists and a check of the ranges. -/
theorem tables_eq_ok_iff {doc : Document} {tables : Tables} :
    doc.tables = .ok tables ↔
      ∃ catalog offsets, doc.fields.foldlM addField .empty = .ok catalog ∧
        doc.savepoints.foldlM addSavepoint (.empty doc.settings.checksum) = .ok offsets ∧
        doc.offsets.foldlM addOffset (catalog, offsets) = .ok (tables.catalog, tables.offsets) ∧
        tables.offsets.validateExtent doc.dataLength = .ok () ∧
        tables.metainfo = doc.metainfo := by
  simp only [Document.tables, except_bind_eq_ok_iff, pure, Except.pure, Except.ok.injEq]
  constructor
  · rintro ⟨catalog, hFields, offsets, hSavepoints, ⟨c, t⟩, hOffsets, ⟨⟩, hExtent, rfl⟩
    exact ⟨catalog, offsets, hFields, hSavepoints, hOffsets, hExtent, rfl⟩
  · rintro ⟨catalog, offsets, hFields, hSavepoints, hOffsets, hExtent, hMetainfo⟩
    exact ⟨catalog, hFields, offsets, hSavepoints, _, hOffsets, (), hExtent, by rw [← hMetainfo]⟩

/-- Tables that are built have the lists of the document. -/
theorem tables_ok {doc : Document} {tables : Tables} (hOk : doc.tables = .ok tables) :
    tables.Represents doc := by
  obtain ⟨catalog, table, hFields, hSavepoints, hOffsets, -, hMetainfo⟩ :=
    tables_eq_ok_iff.1 hOk
  obtain ⟨hCatalog, hList⟩ := foldlM_addField_ok Catalog.isCoherent_empty hFields
  obtain ⟨hTable, hPoints, hNone, hAlgorithm⟩ :=
    foldlM_addSavepoint_ok (OffsetTable.isCoherent_empty _) hSavepoints
  obtain ⟨hCatalog', hList', hTable', hPoints', hEntries, hAlgorithm'⟩ :=
    foldlM_addOffset_ok hCatalog hTable hOffsets
  exact ⟨hMetainfo, hList'.trans hList, hPoints'.trans hPoints, by rw [hEntries, hNone]; rfl,
    hAlgorithm'.trans hAlgorithm, hCatalog', hTable'⟩

/-- Tables are built from every sound document. -/
theorem exists_tables {doc : Document} (h : doc.IsSound) :
    ∃ tables, doc.tables = .ok tables ∧ tables.Represents doc := by
  obtain ⟨catalog, hFields⟩ :=
    exists_foldlM_addField Catalog.isCoherent_empty h.names h.valid
  obtain ⟨table, hSavepoints⟩ := exists_foldlM_addSavepoint
    (OffsetTable.isCoherent_empty doc.settings.checksum) h.savepoints
  obtain ⟨hCatalog, hList⟩ := foldlM_addField_ok Catalog.isCoherent_empty hFields
  obtain ⟨hTable, hPoints, hNone, hAlgorithm⟩ :=
    foldlM_addSavepoint_ok (OffsetTable.isCoherent_empty _) hSavepoints
  obtain ⟨⟨c', t'⟩, hOffsets⟩ := exists_foldlM_addOffset h hCatalog hTable hList hPoints
    hAlgorithm (show doc.offsets = table.entries ++ doc.offsets by rw [hNone]; rfl)
  obtain ⟨-, -, -, -, hEntries, -⟩ := foldlM_addOffset_ok hCatalog hTable hOffsets
  have hAll : t'.entries = doc.offsets := by
    rw [hEntries, hNone]
    rfl
  have hExtent : t'.validateExtent doc.dataLength = .ok () :=
    validateExtent_eq_ok_iff.2 fun e he => h.fits e (by rwa [← hAll])
  have hOk : doc.tables = .ok ⟨doc.metainfo, c', t'⟩ :=
    tables_eq_ok_iff.2 ⟨catalog, table, hFields, hSavepoints, hOffsets, hExtent, rfl⟩
  exact ⟨_, hOk, tables_ok hOk⟩

end Document
end FieldArchive

import FieldArchive.Proofs.Archive.Reloading
import FieldArchive.Proofs.Document.Acceptance

/-!
# Orderly archives

The tables of an archive are coherent: their indices say what their lists say, and
every entry belongs to a field of the catalog.  This does not depend on who wrote the
archive, on the digest, on the descriptions that were given, or on which calls fail.
It holds of every archive that was opened for writing, and every command keeps it
(`Archive.IsOrderly.perform`).

Two lemmas say all that a command can do to an archive in memory.  A command that
changes the tables alone `Alters` them, and `Archive.IsOrderly.append_cases` lists the
ways in which storing bytes can end: it is refused and changes nothing at all, or the
data file cannot be written and only the savepoint is known afterwards, or the key has
an entry, which shares a range or has one of its own.
-/

namespace FieldArchive

/-- A description without its metainfo. -/
def FieldInfo.bare (f : FieldInfo) : FieldInfo := { f with metainfo := .empty }

/-- The indices of tables agree with their lists, and entries belong to fields of the
catalog. -/
structure Tables.IsCoherent (t : Tables) : Prop where
  catalog : t.catalog.IsCoherent
  offsets : t.offsets.IsCoherent
  described : ∀ e ∈ t.offsets.entries, e.field ∈ t.catalog.fields.map FieldInfo.name

namespace Tables

theorem isCoherent_empty (algorithm : ChecksumAlgorithm) :
    IsCoherent ⟨.empty, .empty, .empty algorithm⟩ :=
  ⟨Catalog.isCoherent_empty, OffsetTable.isCoherent_empty algorithm, fun e he => by cases he⟩

/-- The tables of a document are coherent. -/
theorem isCoherent_of_document {doc : Document} {t : Tables} (h : doc.tables = .ok t) :
    t.IsCoherent := by
  have hRepresents := Document.tables_ok h
  refine ⟨hRepresents.catalog, hRepresents.offsets, fun e he => ?_⟩
  rw [hRepresents.entries] at he
  obtain ⟨f, hf, hName, -⟩ := (Document.isSound_of_tables h).described e he
  rw [hRepresents.fields]
  exact List.mem_map.2 ⟨f, hf, hName⟩

variable {t : Tables}

/-- A catalog that describes no less keeps tables coherent. -/
theorem IsCoherent.of_catalog (h : t.IsCoherent) {catalog : Catalog}
    (hCatalog : catalog.IsCoherent)
    (hNames : t.catalog.fields.map FieldInfo.name ⊆ catalog.fields.map FieldInfo.name) :
    IsCoherent { t with catalog := catalog } :=
  ⟨hCatalog, h.offsets, fun e he => hNames (h.described e he)⟩

theorem IsCoherent.registerSavepoint (h : t.IsCoherent) (point : Savepoint) :
    IsCoherent { t with offsets := (t.offsets.registerSavepoint point).2 } := by
  refine ⟨h.catalog, h.offsets.registerSavepoint point, fun e he => h.described e ?_⟩
  rwa [OffsetTable.registerSavepoint_entries] at he

end Tables

/-- Setting metainfo changes no description otherwise. -/
theorem Catalog.map_bare_of_addMetainfo {c c' : Catalog} {name key : String} {value : MetaValue}
    (hOk : c.addMetainfo name key value = .ok c') :
    c'.fields.map FieldInfo.bare = c.fields.map FieldInfo.bare := by
  unfold addMetainfo at hOk
  split at hOk
  · cases hOk
  · cases hOk
    refine List.ext_getElem? fun n => ?_
    simp only [List.getElem?_map, List.getElem?_modify, Option.map_eq_map, Option.map_map]
    congr 1
    funext info
    simp only [Function.comp_apply]
    split <;> rfl

namespace OffsetTable

theorem savepoints_isPrefix_registerSavepoint (t : OffsetTable) (point : Savepoint) :
    t.savepoints <+: (t.registerSavepoint point).2.savepoints := by
  cases hId : t.savepointId? point with
  | some id => rw [registerSavepoint_of_some hId]
  | none =>
      rw [registerSavepoint_of_none hId]
      exact List.prefix_append _ _

/-- A savepoint that was made known is the last one. -/
theorem mem_savepoints_registerSavepoint (t : OffsetTable) (point : Savepoint) :
    ∃ more, (t.registerSavepoint point).2.savepoints = t.savepoints ++ more ∧
      ∀ p ∈ more, p = point := by
  cases hId : t.savepointId? point with
  | some id =>
      rw [registerSavepoint_of_some hId]
      exact ⟨[], by simp, by simp⟩
  | none =>
      rw [registerSavepoint_of_none hId]
      exact ⟨[point], rfl, by simp⟩

/-- The number of a savepoint that is made known stands in the list. -/
theorem IsCoherent.registerSavepoint_fst_lt {t : OffsetTable} (h : t.IsCoherent)
    (point : Savepoint) :
    (t.registerSavepoint point).1 < (t.registerSavepoint point).2.savepoints.length := by
  obtain ⟨known, hKnown, -⟩ := h.registerSavepoint_fst point
  exact (List.getElem?_eq_some_iff.1 hKnown).1

end OffsetTable

namespace Archive

variable {a a' : Archive} {m m' : Machine} {point : Savepoint} {field : String}
  {bytes : List UInt8}

/-! ## Commands on the tables -/

/-- An archive open for writing, and the same after a command on its tables. -/
structure Alters (a a' : Archive) : Prop where
  same : a' = { a with tables := a'.tables, dirty := a'.dirty }
  isOpen : a.mode = .write ∧ a.arena ≠ none
  coherent : a.tables.IsCoherent → a'.tables.IsCoherent
  savepoints : a.tables.offsets.savepoints <+: a'.tables.offsets.savepoints
  entries : a'.tables.offsets.entries = a.tables.offsets.entries
  byChecksum : a'.tables.offsets.byChecksum = a.tables.offsets.byChecksum
  fields : a.tables.catalog.fields.map FieldInfo.bare <+:
    a'.tables.catalog.fields.map FieldInfo.bare
  dirty : a'.dirty = false → a' = a

theorem isOpen_of_requireMode {mode : Mode} {operation : Operation} {arena : Arena}
    (h : a.requireMode mode operation = .ok arena) : a.mode = mode ∧ a.arena ≠ none := by
  obtain ⟨hMode, hArena⟩ := requireMode_eq_ok_iff.1 h
  exact ⟨hMode, by simp [hArena]⟩

theorem alters_of_addMetainfo {key : String} {value : MetaValue}
    (hOk : a.addMetainfo key value = .ok a') : Alters a a' := by
  obtain ⟨arena, hMode, hChecked⟩ := except_bind_eq_ok_iff.1 hOk
  obtain ⟨_, -, hDone⟩ := except_bind_eq_ok_iff.1 hChecked
  cases hDone
  exact ⟨rfl, isOpen_of_requireMode hMode, fun h => ⟨h.catalog, h.offsets, h.described⟩,
    List.prefix_refl _, rfl, rfl, List.prefix_refl _, nofun⟩

/-- Registering a field that is known changes nothing. -/
theorem registerField_of_known {info registered : FieldInfo} {r : Registration}
    (hKnown : a.tables.catalog.find? info.name = some registered)
    (hOk : a.registerField info = .ok (r, a')) : a' = a := by
  obtain ⟨arena, hMode, hChecked⟩ := except_bind_eq_ok_iff.1 hOk
  obtain ⟨_, -, hFinite⟩ := except_bind_eq_ok_iff.1 hChecked
  obtain ⟨⟨r', catalog⟩, hRegister, hDone⟩ := except_bind_eq_ok_iff.1 hFinite
  simp only [Catalog.register, hKnown] at hRegister
  obtain ⟨_, -, hConfirmed⟩ := except_bind_eq_ok_iff.1 hRegister
  cases hConfirmed
  cases hDone
  simp

/-- A new field stands last in the catalog, and the archive is marked as changed. -/
theorem registerField_of_new {info : FieldInfo} {r : Registration}
    (hNew : a.tables.catalog.find? info.name = none)
    (hOk : a.registerField info = .ok (r, a')) :
    ∃ catalog, a.tables.catalog.register info = .ok (.inserted, catalog) ∧
      catalog.fields = a.tables.catalog.fields ++ [info] ∧
      a' = { a with tables := { a.tables with catalog := catalog }, dirty := true } := by
  obtain ⟨arena, hMode, hChecked⟩ := except_bind_eq_ok_iff.1 hOk
  obtain ⟨_, -, hFinite⟩ := except_bind_eq_ok_iff.1 hChecked
  obtain ⟨⟨r', catalog⟩, hRegister, hDone⟩ := except_bind_eq_ok_iff.1 hFinite
  refine ⟨catalog, ?_⟩
  simp only [Catalog.register, hNew] at hRegister
  cases hRegister
  cases hDone
  refine ⟨by simp only [Catalog.register, hNew], rfl, by simp⟩

theorem exists_registration {info : FieldInfo}
    (h : (a.registerField info).map Prod.snd = .ok a') :
    ∃ r, a.registerField info = .ok (r, a') := by
  cases hRegister : a.registerField info with
  | error e =>
      rw [hRegister] at h
      cases h
  | ok result =>
      rw [hRegister] at h
      cases h
      exact ⟨result.1, rfl⟩

theorem alters_of_registerField {info : FieldInfo} {r : Registration}
    (hOk : a.registerField info = .ok (r, a')) : Alters a a' := by
  obtain ⟨arena, hMode, -⟩ := except_bind_eq_ok_iff.1 hOk
  have hOpen := isOpen_of_requireMode hMode
  cases hFind : a.tables.catalog.find? info.name with
  | some registered =>
      obtain rfl := registerField_of_known hFind hOk
      exact ⟨rfl, hOpen, fun h => h, List.prefix_refl _, rfl, rfl, List.prefix_refl _, fun _ => rfl⟩
  | none =>
      obtain ⟨catalog, hRegister, hFields, rfl⟩ := registerField_of_new hFind hOk
      refine ⟨rfl, hOpen, ?_, List.prefix_refl _, rfl, rfl, ?_, nofun⟩
      · intro h
        obtain ⟨c', hSame, hCoherent, -⟩ := h.catalog.register_of_none hFind
        rw [hRegister] at hSame
        cases hSame
        refine h.of_catalog hCoherent ?_
        rw [hFields, List.map_append]
        exact List.subset_append_left _ _
      · show _ <+: catalog.fields.map FieldInfo.bare
        rw [hFields, List.map_append]
        exact List.prefix_append _ _

theorem alters_of_registerSavepoint (hOk : a.registerSavepoint point = .ok a') :
    Alters a a' := by
  obtain ⟨arena, hMode, hChecked⟩ := except_bind_eq_ok_iff.1 hOk
  obtain ⟨_, -, hFinite⟩ := except_bind_eq_ok_iff.1 hChecked
  split at hFinite
  · cases hFinite
    exact ⟨rfl, isOpen_of_requireMode hMode, fun h => h, List.prefix_refl _, rfl, rfl,
      List.prefix_refl _, fun _ => rfl⟩
  · cases hFinite
    exact ⟨rfl, isOpen_of_requireMode hMode, fun h => h.registerSavepoint point,
      OffsetTable.savepoints_isPrefix_registerSavepoint _ _,
      OffsetTable.registerSavepoint_entries _ _, OffsetTable.registerSavepoint_byChecksum _ _,
      List.prefix_refl _, nofun⟩

theorem alters_of_addFieldMetainfo {key : String} {value : MetaValue}
    (hOk : a.addFieldMetainfo field key value = .ok a') : Alters a a' := by
  obtain ⟨arena, hMode, hChecked⟩ := except_bind_eq_ok_iff.1 hOk
  obtain ⟨_, -, hFinite⟩ := except_bind_eq_ok_iff.1 hChecked
  obtain ⟨catalog, hAdd, hDone⟩ := except_bind_eq_ok_iff.1 hFinite
  cases hDone
  have hBare := Catalog.map_bare_of_addMetainfo hAdd
  refine ⟨rfl, isOpen_of_requireMode hMode, ?_, List.prefix_refl _, rfl, rfl, ?_, nofun⟩
  · intro h
    refine h.of_catalog (h.catalog.addMetainfo_ok hAdd).1 ?_
    -- names are part of what stays
    have hNames := congrArg (List.map FieldInfo.name) hBare
    rw [List.map_map, List.map_map] at hNames
    exact fun name hName => hNames.symm ▸ hName
  · show _ <+: catalog.fields.map FieldInfo.bare
    rw [hBare]

/-! ## Storing bytes -/

/-- An archive is orderly if its tables are coherent and it can append to its data
file. -/
structure IsOrderly (a : Archive) : Prop where
  tables : a.tables.IsCoherent
  writable : a.mode = .write → ∀ arena, a.arena = some arena → arena.writable = true

theorem Alters.isOrderly (h : Alters a a') (hOrderly : a.IsOrderly) : a'.IsOrderly := by
  refine ⟨h.coherent hOrderly.tables, ?_⟩
  rw [h.same]
  exact hOrderly.writable

/-- What storing relies on and what it leaves of the archive, apart from the record. -/
structure Takes (a : Archive) (point : Savepoint) (field : String) (bytes : List UInt8)
    (arena : Arena) (catalog : Catalog) : Prop where
  mode : a.mode = .write
  arena : a.arena = some arena
  finite : point.metainfo.firstNonFinite? = none
  described : ∃ info, a.tables.catalog.find? field = some info ∧ bytes.length = info.byteSize
  free : (a.tables.offsets.registerSavepoint point).2.position?
    (a.tables.offsets.registerSavepoint point).1 field = none
  presence : a.tables.catalog.recordPresence point field = .ok catalog
  fields : catalog.fields = a.tables.catalog.fields
  byName : catalog.byName = a.tables.catalog.byName

/-- Bytes are refused by a check, or because their key has an entry. -/
def Refuses (a : Archive) (point : Savepoint) (field : String) (bytes : List UInt8)
    (e : Error) : Prop :=
  a.checkAppend point field bytes = .error e ∨
    e = .duplicateField point field ∧ ∃ entry ∈ a.tables.offsets.entries, entry.field = field

/-- The archive with one more savepoint. -/
def withSavepoint (a : Archive) (point : Savepoint) : Archive :=
  { a with tables := { a.tables with offsets := (a.tables.offsets.registerSavepoint point).2 } }

theorem isIo_of_checkAppend {e : Error} (h : a.checkAppend point field bytes = .error e) :
    e.isIo = false := by
  rcases except_bind_eq_error_iff.1 h with hMode | ⟨arena, -, hChecked⟩
  · unfold requireMode at hMode
    split at hMode
    · cases hMode
      rfl
    · split at hMode
      · cases hMode
        rfl
      · cases hMode
  · rcases except_bind_eq_error_iff.1 hChecked with hFinite | ⟨_, -, hRest⟩
    · unfold checkFinite at hFinite
      split at hFinite
      · cases hFinite
        rfl
      · cases hFinite
    · split at hRest
      · cases hRest
        rfl
      · split at hRest
        · cases hRest
          rfl
        · cases hRest

theorem Takes.isOrderly {arena : Arena} {catalog : Catalog}
    (h : a.Takes point field bytes arena catalog) (hOrderly : a.IsOrderly)
    (record : OffsetRecord) {arena' : Arena} (hWritable : arena'.writable = arena.writable) :
    (a.withEntry point field record arena' catalog).IsOrderly := by
  have hOffsets := hOrderly.tables.offsets
  refine ⟨⟨hOrderly.tables.catalog.congr h.fields h.byName, ?_, ?_⟩, ?_⟩
  · exact (hOffsets.registerSavepoint point).add _ _ _ (hOffsets.registerSavepoint_fst_lt point)
      h.free
  · intro e he
    show e.field ∈ catalog.fields.map FieldInfo.name
    rw [h.fields]
    simp only [withEntry, OffsetTable.add_entries, OffsetTable.registerSavepoint_entries,
      List.mem_append, List.mem_singleton] at he
    rcases he with hOld | rfl
    · exact hOrderly.tables.described e hOld
    · obtain ⟨info, hFind, -⟩ := h.described
      obtain ⟨hInfo, hName⟩ := hOrderly.tables.catalog.find?_eq_some_iff.1 hFind
      exact List.mem_map.2 ⟨info, hInfo, hName⟩
  · intro _ opened hOpened
    cases hOpened
    rw [hWritable]
    exact hOrderly.writable h.mode arena h.arena

/-- How storing bytes can end. -/
theorem IsOrderly.append_cases (h : a.IsOrderly) (point : Savepoint) (field : String)
    (bytes : List UInt8) (m : Machine) :
    (∃ e, append point field bytes (a, m) = .error e (a, m) ∧ e.isIo = false ∧
      a.Refuses point field bytes e) ∨
    (∃ arena catalog e m', a.Takes point field bytes arena catalog ∧
      Machine.write arena.file arena.length bytes m = .error e m' ∧
      append point field bytes (a, m) = .error (.io e) (a.withSavepoint point, m')) ∨
    (∃ arena catalog extent, a.Takes point field bytes arena catalog ∧
      a.tables.offsets.byChecksum.get? (Checksum.compute a.tables.offsets.algorithm bytes) =
        some extent ∧
      append point field bytes (a, m) =
        .ok ⟨⟨Checksum.compute a.tables.offsets.algorithm bytes, extent⟩, true⟩
          (a.withEntry point field ⟨Checksum.compute a.tables.offsets.algorithm bytes, extent⟩
            arena catalog, m)) ∨
    (∃ arena catalog m', a.Takes point field bytes arena catalog ∧
      Machine.write arena.file arena.length bytes m = .ok () m' ∧
      append point field bytes (a, m) =
        .ok ⟨⟨Checksum.compute a.tables.offsets.algorithm bytes, ⟨arena.length, bytes.length⟩⟩,
            false⟩
          (a.withEntry point field
            ⟨Checksum.compute a.tables.offsets.algorithm bytes, ⟨arena.length, bytes.length⟩⟩
            { arena with length := arena.length + bytes.length } catalog, m')) := by
  cases hCheck : a.checkAppend point field bytes with
  | error e =>
      exact Or.inl ⟨e, by simp only [append, hCheck], isIo_of_checkAppend hCheck, Or.inl hCheck⟩
  | ok arena =>
      obtain ⟨⟨info, hFind, hSize⟩, hMode, hArena⟩ := checkAppend_ok hCheck
      obtain ⟨catalog, hPresence, hFields, hByName⟩ := Catalog.recordPresence_of_find? hFind point
      have hWritable := h.writable hMode arena hArena
      cases hPosition : (a.tables.offsets.registerSavepoint point).2.position?
          (a.tables.offsets.registerSavepoint point).1 field with
      | some n =>
          -- the savepoint of a key that is taken was known before
          have hSame := h.tables.offsets.registerSavepoint_of_taken hPosition
          have hAppend :=
            OffsetTable.append_of_position?_eq_some Arena.append (arena, m) bytes hPosition
          refine Or.inl ⟨.duplicateField point field, ?_, rfl, Or.inr ⟨rfl, ?_⟩⟩
          · simp only [append, hCheck, hAppend, hSame, ← hArena]
          · rw [hSame, h.tables.offsets.position] at hPosition
            obtain ⟨hLt, hKey, -⟩ := List.findIdx?_eq_some_iff_getElem.1 hPosition
            simp only [OffsetEntry.hasKey, Bool.and_eq_true, beq_iff_eq] at hKey
            exact ⟨_, List.getElem_mem hLt, hKey.2⟩
      | none =>
          have hTakes : a.Takes point field bytes arena catalog :=
            ⟨hMode, hArena, finite_of_checkAppend hCheck, ⟨info, hFind, hSize⟩,
            hPosition, hPresence,
              hFields, hByName⟩
          cases hStored : a.tables.offsets.byChecksum.get?
              (Checksum.compute a.tables.offsets.algorithm bytes) with
          | some extent =>
              have hAppend := OffsetTable.append_of_byChecksum_eq_some Arena.append (arena, m)
                hPosition hStored
              refine Or.inr (Or.inr (Or.inl ⟨arena, catalog, extent, hTakes, rfl, ?_⟩))
              simp only [append, hCheck, hAppend, hPresence, withEntry]
          | none =>
              have hAppend := OffsetTable.append_of_byChecksum_eq_none Arena.append (arena, m)
                hPosition hStored
              cases hWrite : Machine.write arena.file arena.length bytes m with
              | error e m' =>
                  refine Or.inr (Or.inl ⟨arena, catalog, e, m', hTakes, hWrite, ?_⟩)
                  have hFailed : Arena.append bytes (arena, m) = .error (.io e) (arena, m') := by
                    simp only [Arena.append, hWritable, Bool.not_true, Bool.false_eq_true,
                      if_false, Effect.ofCall, EStateM.adaptExcept, hWrite]
                  simp only [append, hCheck, hAppend, hFailed, withSavepoint, ← hArena]
              | ok u m' =>
                  refine Or.inr (Or.inr (Or.inr ⟨arena, catalog, m', hTakes, hWrite, ?_⟩))
                  have hDone : Arena.append bytes (arena, m) = .ok arena.length
                      ({ arena with length := arena.length + bytes.length }, m') := by
                    simp only [Arena.append, hWritable, Bool.not_true, Bool.false_eq_true,
                      if_false, Effect.ofCall, EStateM.adaptExcept, hWrite]
                  simp only [append, hCheck, hAppend, hDone, hPresence, withEntry]

/-! ## All commands -/

theorem IsOrderly.withSavepoint (h : a.IsOrderly) (point : Savepoint) :
    (a.withSavepoint point).IsOrderly :=
  ⟨h.tables.registerSavepoint point, h.writable⟩

theorem IsOrderly.close (h : a.IsOrderly) : IsOrderly { a with arena := none } :=
  ⟨h.tables, fun _ arena hArena => by cases hArena⟩

/-- Flushing changes no more of an archive than what it notes of the metadata file, and
nothing if it fails. -/
theorem IsOrderly.flush_archive (h : a.IsOrderly) (m : Machine) (stored : Option Blob) :
    (Outcome.ofResult stored (flush (a, m))).archive = a ∨
      (Outcome.ofResult stored (flush (a, m))).error = none ∧
        (Outcome.ofResult stored (flush (a, m))).archive =
          { a with recordedLength := a.dataLength, dirty := false } := by
  cases hMode : a.mode with
  | read =>
      left
      simp only [flush, hMode, Outcome.ofResult]
  | write =>
      cases hArena : a.arena with
      | none =>
          left
          simp [flush, hMode, requireOpen, isClosed, hArena, Outcome.ofResult]
      | some arena =>
          have hWritable := h.writable hMode arena hArena
          rcases flush_cases (m := m) hMode hArena hWritable with ⟨-, hFlush⟩ | ⟨e, hFlush⟩ |
            ⟨-, m₁, -, hFlush⟩
          · left
            rw [hFlush]
            rfl
          · left
            rw [hFlush]
            rfl
          · rw [hFlush, persist_eq]
            split
            · right
              simp only [Outcome.ofResult, hMode, hArena, and_self]
            · exact Or.inl rfl

theorem IsOrderly.flush (h : a.IsOrderly) (m : Machine) (stored : Option Blob) :
    (Outcome.ofResult stored (flush (a, m))).archive.IsOrderly := by
  rcases h.flush_archive m stored with hSame | ⟨-, hSaved⟩
  · rw [hSame]
    exact h
  · rw [hSaved]
    exact ⟨h.tables, h.writable⟩

theorem isOrderly_ofDocument {l : Layout} {doc : Document} {tables : Tables} {arena : Arena}
    {sync : Bool} (hTables : doc.tables = .ok tables) (hWritable : arena.writable = true) :
    (ofDocument l .write doc tables arena sync).IsOrderly := by
  refine ⟨Tables.isCoherent_of_document hTables, ?_⟩
  rintro - opened hOpened
  cases hOpened
  exact hWritable

theorem isOrderly_fresh (l : Layout) (s : Settings) (sync : Bool) {arena : Arena}
    (id : ArchiveId) (createdAt : String) (hWritable : arena.writable = true) :
    (fresh l s sync arena id createdAt).IsOrderly := by
  refine ⟨Tables.isCoherent_empty s.checksum, ?_⟩
  rintro - opened hOpened
  cases hOpened
  exact hWritable

theorem writable_of_openData {l : Layout} {valid : Nat} {arena : Arena}
    (hOk : openData l valid m = .ok arena m') : arena.writable = true := by
  unfold openData at hOk
  split at hOk
  · obtain ⟨file, data, -, -, -, rfl, -⟩ := Arena.openAppend_ok hOk
    rfl
  · split at hOk
    · obtain ⟨file, -, rfl⟩ := Arena.create_ok hOk
      rfl
    · cases hOk

/-- An archive that was opened for writing has the tables of a document, or it is new. -/
theorem openForWrite_ok {l : Layout} {s : Settings} {sync : Bool}
    (hOk : openForWrite l s sync m = .ok a m') :
    (∃ m₁ doc tables arena, l.createDirectory m = .ok () m₁ ∧
      Document.load m₁.disk l.metadata = .ok doc ∧
      doc.tables = .ok tables ∧ openData l doc.dataLength m₁ = .ok arena m' ∧
      a = ofDocument l .write doc tables arena sync) ∨
    ∃ m₁ arena m₂ id createdAt, l.createDirectory m = .ok () m₁ ∧
      m₁.disk.exists? l.metadata = false ∧ Arena.create l.data m₁ = .ok arena m₂ ∧
      a = { fresh l s sync arena id createdAt with
        recordedLength := arena.length
        dirty := false } := by
  obtain ⟨_, m₁, hCreate, hOpened⟩ := bind_eq_ok hOk
  rw [get_bind] at hOpened
  split at hOpened
  · rw [reopenForWrite_eq] at hOpened
    split at hOpened
    · cases hOpened
    · next hLoad =>
        split at hOpened
        · cases hOpened
        · split at hOpened
          · cases hOpened
          · next hTables =>
              split at hOpened
              · cases hOpened
              · next hArena =>
                  cases hOpened
                  exact Or.inl ⟨m₁, _, _, _, hCreate, hLoad, hTables, hArena, rfl⟩
  · next hAbsent =>
    rw [createForWrite_eq] at hOpened
    split at hOpened
    · cases hOpened
    · next arena m₂ hArena =>
        rw [persist_eq] at hOpened
        split at hOpened
        · cases hOpened
          exact Or.inr ⟨m₁, arena, m₂, _, _, hCreate, by simpa using hAbsent, hArena, rfl⟩
        · cases hOpened

/-- An archive opened for writing is orderly, on any disk. -/
theorem isOrderly_of_openForWrite {l : Layout} {s : Settings} {sync : Bool}
    (hOk : openForWrite l s sync m = .ok a m') : a.IsOrderly := by
  rcases openForWrite_ok hOk with ⟨m₁, doc, tables, arena, -, -, hTables, hArena, rfl⟩ |
    ⟨m₁, arena, m₂, id, createdAt, -, -, hArena, rfl⟩
  · exact isOrderly_ofDocument hTables (writable_of_openData hArena)
  · obtain ⟨file, -, rfl⟩ := Arena.create_ok hArena
    have hFresh : (fresh l s sync ⟨l.data, file, 0, true⟩ id createdAt).IsOrderly :=
      isOrderly_fresh l s sync id createdAt rfl
    exact ⟨hFresh.tables, hFresh.writable⟩

/-- An archive opened for writing is the one of its layout. -/
theorem mode_of_openForWrite {l : Layout} {s : Settings} {sync : Bool}
    (hOk : openForWrite l s sync m = .ok a m') : a.layout = l ∧ a.mode = .write := by
  rcases openForWrite_ok hOk with ⟨m₁, doc, tables, arena, -, -, -, -, rfl⟩ |
    ⟨m₁, arena, m₂, id, createdAt, -, -, -, rfl⟩
  · exact ⟨rfl, rfl⟩
  · exact ⟨rfl, rfl⟩

theorem IsOrderly.ofTables (h : a.IsOrderly) {result : Except Error Archive} {m : Machine}
    (hAlters : ∀ a', result = .ok a' → Alters a a') :
    (Outcome.ofTables a m result).archive.IsOrderly := by
  cases result with
  | error e => exact h
  | ok a' => exact (hAlters a' rfl).isOrderly h

theorem IsOrderly.store (h : a.IsOrderly) (durability : Durability) (blob : Blob) (m : Machine) :
    ((Command.store durability blob).perform a m).archive.IsOrderly := by
  -- the flush after a durable write keeps what the write has left
  have hStored : ∀ {a₁ : Archive}, a₁.IsOrderly → ∀ m₁,
      (if durability = .always then Outcome.ofResult (some blob) (Archive.flush (a₁, m₁))
        else ⟨some blob, none, a₁, m₁⟩).archive.IsOrderly := by
    intro a₁ hNext m₁
    split
    · exact hNext.flush m₁ (some blob)
    · exact hNext
  simp only [Command.perform]
  rcases h.append_cases blob.point blob.field blob.bytes m with ⟨e, hAppend, -⟩ |
    ⟨arena, catalog, e, m', hTakes, -, hAppend⟩ | ⟨arena, catalog, extent, hTakes, -, hAppend⟩ |
    ⟨arena, catalog, m', hTakes, -, hAppend⟩
  · rw [hAppend]
    exact h
  · rw [hAppend]
    exact h.withSavepoint blob.point
  · rw [hAppend]
    exact hStored (hTakes.isOrderly h _ rfl) m
  · rw [hAppend]
    exact hStored (hTakes.isOrderly h _ (by rfl)) m'

/-- Every command keeps an archive orderly, whether it succeeds or fails. -/
theorem IsOrderly.perform (h : a.IsOrderly) (command : Command) (m : Machine) :
    (command.perform a m).archive.IsOrderly := by
  cases command with
  | registerField info =>
      refine h.ofTables fun a' hOk => ?_
      obtain ⟨r, hRegister⟩ := exists_registration hOk
      exact alters_of_registerField hRegister
  | registerSavepoint point => exact h.ofTables fun a' => alters_of_registerSavepoint
  | addMetainfo key value => exact h.ofTables fun a' => alters_of_addMetainfo
  | addFieldMetainfo field key value => exact h.ofTables fun a' => alters_of_addFieldMetainfo
  | store durability blob => exact h.store durability blob m
  | flush => exact h.flush m none
  | close =>
      cases hArena : a.arena with
      | none =>
          have hPerform : Command.close.perform a m = ⟨none, none, a, m⟩ := by
            simp [Command.perform, Archive.close, isClosed, hArena, Outcome.ofResult]
          rw [hPerform]
          exact h
      | some arena =>
          rw [perform_close_of_open hArena]
          exact (h.flush m none).close
  | reopen settings sync =>
      simp only [Command.perform]
      split
      · next hOpen => exact isOrderly_of_openForWrite hOpen
      · exact h.close

/-- A run keeps an archive orderly. -/
theorem isOrderly_afterRun (h : a.IsOrderly) (commands : List Command) (m : Machine) :
    (afterRun commands a m).1.IsOrderly := by
  induction commands generalizing a m with
  | nil => exact h
  | cons command rest ih => exact ih (h.perform command m) _

end Archive
end FieldArchive

import FieldArchive.Proofs.Archive.Writing
import FieldArchive.Proofs.Ledger.Rereading

/-!
# Opening archives for reading

An archive on a disk that keeps a ledger is opened with what documents give back
for the ledger.  If they give back savepoints that are apart, opening succeeds and
the tables record what they give back, which is the ledger itself if they give back
all metainfo as it was written.  Opening for reading changes nothing.
-/

namespace FieldArchive

variable {l : Layout} {s : Settings} {dir : NodeId} {saved : Ledger} {file : NodeId}
  {data : List UInt8} {d : Disk} {m m' : Machine}

/-! ## Loading the metadata -/

/-- A file with the text of a document is read as what documents give back for it. -/
theorem Document.load_of_text {path : String} {doc : Document} (hBounded : doc.IsBounded)
    (hVersion : doc.formatVersion = currentVersion)
    (hBytes : d.readBytes path = .ok (Disk.textBytes doc.text)) :
    load d path =
      match doc.reread? with
      | none => .error (.corruptMetadata (.unreadable path))
      | some again => .ok again := by
  have hParse := parse?_text hBounded
  simp only [load, Disk.readText, hBytes, Disk.fromUTF8?_textBytes, hParse]
  cases hRead : doc.reread? with
  | none => rfl
  | some again =>
      obtain ⟨metainfo, fields, savepoints, -, -, -, rfl⟩ := reread?_eq_some hRead
      simp [hVersion]

/-- The metadata file is read as what documents give back for the ledger. -/
theorem Document.load_of_keepsLedger (hUsable : l.IsUsable)
    (h : d.KeepsLedger l s dir saved file data) :
    ∃ id createdAt updatedAt, load d l.metadata =
      match (saved.document id createdAt updatedAt s).reread? with
      | none => .error (.corruptMetadata (.unreadable l.metadata))
      | some doc => .ok doc := by
  obtain ⟨node, id, createdAt, updatedAt, hFile⟩ := h.metadata
  refine ⟨id, createdAt, updatedAt, ?_⟩
  exact load_of_text (h.isValid.isBounded h.savepoints_le id createdAt updatedAt) rfl
    (l.readBytes_of_hasFile h.leadsTo hUsable.metadata hFile)

theorem Document.load_of_readsBack (hUsable : l.IsUsable)
    (h : d.KeepsLedger l s dir saved file data) (hReads : saved.readsBack = true) :
    ∃ id createdAt updatedAt,
      load d l.metadata = .ok (saved.document id createdAt updatedAt s) := by
  obtain ⟨id, createdAt, updatedAt, hLoad⟩ := load_of_keepsLedger hUsable h
  refine ⟨id, createdAt, updatedAt, ?_⟩
  have hDoc : (saved.document id createdAt updatedAt s).reread? =
      some (saved.document id createdAt updatedAt s) := reread?_of_readsBack hReads
  rw [hLoad, hDoc]

/-! ## Opening for reading -/

namespace Archive

/-- An archive open for reading, with the tables of a ledger and its contents at
hand. -/
structure ReadsLedger (l : Layout) (s : Settings) (saved : Ledger) (a : Archive) (d : Disk) :
    Prop where
  layout : a.layout = l
  mode : a.mode = .read
  settings : a.settings = s
  tables : a.tables.Records s saved
  isValid : saved.IsValid s.checksum
  arena : ∃ arena data, a.arena = some arena ∧ arena.length = saved.content.length ∧
    d.nodes[arena.file]? = some (.file data) ∧ saved.content <+: data

/-- Opening a data file for reading succeeds if it is there and long enough. -/
theorem openRead_eq_ok_iff {path : String} {valid : Nat} {arena : Arena} :
    Arena.openRead path valid m = .ok arena m' ↔
      m' = m ∧ ∃ file, m.disk.find path = .ok file ∧ valid ≤ m.disk.size file ∧
        arena = ⟨path, file, valid, false⟩ := by
  unfold Arena.openRead
  rw [get_bind]
  cases hFind : m.disk.find path with
  | error e =>
      constructor
      · intro h
        cases e <;> cases h
      · rintro ⟨-, file, ⟨⟩, -⟩
  | ok file =>
      dsimp only
      rw [get_bind, Effect.ofExcept_bind, Arena.checkPhysical]
      by_cases hShort : m.disk.size file < valid
      · rw [if_pos hShort]
        constructor
        · rintro ⟨⟩
        · rintro ⟨-, _, ⟨⟩, hLong, -⟩
          omega
      · rw [if_neg hShort]
        constructor
        · rintro ⟨⟩
          exact ⟨rfl, file, rfl, by omega, rfl⟩
        · rintro ⟨rfl, _, ⟨⟩, -, rfl⟩
          rfl

/-- What opening for reading takes, and what it gives. -/
theorem openForRead_eq_ok_iff {a : Archive} :
    openForRead l m = .ok a m' ↔
      m' = m ∧ l.checkReadable m.disk = .ok () ∧
      ∃ doc tables file, Document.load m.disk l.metadata = .ok doc ∧ doc.tables = .ok tables ∧
        m.disk.find l.data = .ok file ∧ doc.dataLength ≤ m.disk.size file ∧
        a = ofDocument l .read doc tables ⟨l.data, file, doc.dataLength, false⟩ false := by
  constructor
  · intro h
    unfold openForRead at h
    rw [get_bind] at h
    obtain ⟨_, m₁, hCheck, hChecked⟩ := bind_eq_ok h
    obtain ⟨hReadable, rfl⟩ := Effect.ofExcept_ok hCheck
    rw [get_bind] at hChecked
    obtain ⟨doc, m₂, hRead, hReadOn⟩ := bind_eq_ok hChecked
    obtain ⟨hLoad, rfl⟩ := Effect.ofExcept_ok hRead
    obtain ⟨tables, m₃, hBuild, hBuilt⟩ := bind_eq_ok hReadOn
    obtain ⟨hTables, rfl⟩ := Effect.ofExcept_ok hBuild
    obtain ⟨arena, m₄, hArena, hDone⟩ := bind_eq_ok hBuilt
    cases hDone
    obtain ⟨rfl, file, hFind, hLong, rfl⟩ := openRead_eq_ok_iff.1 hArena
    exact ⟨rfl, hReadable, doc, tables, file, hLoad, hTables, hFind, hLong, rfl⟩
  · rintro ⟨rfl, hReadable, doc, tables, file, hLoad, hTables, hFind, hLong, rfl⟩
    unfold openForRead
    rw [get_bind, hReadable, Effect.ofExcept_bind]
    dsimp only
    rw [get_bind, hLoad, Effect.ofExcept_bind]
    dsimp only
    rw [hTables, Effect.ofExcept_bind]
    dsimp only
    rw [bind_of_ok (openRead_eq_ok_iff.2 ⟨rfl, file, hFind, hLong, rfl⟩)]
    rfl

theorem checkReadable_of_keepsLedger (hUsable : l.IsUsable)
    (h : d.KeepsLedger l s dir saved file data) :
    l.checkReadable d = .ok () := by
  obtain ⟨node, id, createdAt, updatedAt, hFile⟩ := h.metadata
  have hMetadata : d.exists? l.metadata = true :=
    l.exists?_of_hasFile h.leadsTo hUsable.metadata hFile
  have hData : d.exists? l.data = true := l.exists?_of_hasFile h.leadsTo hUsable.data h.dataFile
  simp [Layout.checkReadable, hMetadata, hData]

theorem openRead_of_keepsLedger (hUsable : l.IsUsable)
    (h : m.disk.KeepsLedger l s dir saved file data) :
    Arena.openRead l.data saved.content.length m =
      .ok ⟨l.data, file, saved.content.length, false⟩ m := by
  have hFind : m.disk.find l.data = .ok file :=
    l.find_of_hasFile h.leadsTo hUsable.data h.dataFile
  have hSize : m.disk.size file = data.length := Disk.size_of_file h.dataFile.node
  have hLe := h.content.length_le
  exact openRead_eq_ok_iff.2 ⟨rfl, file, hFind, by omega, rfl⟩

/-- What opening for reading does on a disk that keeps a ledger. -/
theorem openForRead_of_keepsLedger (hUsable : l.IsUsable)
    (h : m.disk.KeepsLedger l s dir saved file data) :
    ∃ id createdAt updatedAt, openForRead l m =
      match (saved.document id createdAt updatedAt s).reread? with
      | none => .error (.corruptMetadata (.unreadable l.metadata)) m
      | some doc =>
          match doc.tables with
          | .error e => .error e m
          | .ok tables =>
              .ok (ofDocument l .read doc tables ⟨l.data, file, saved.content.length, false⟩ false)
                m := by
  obtain ⟨id, createdAt, updatedAt, hLoad⟩ := Document.load_of_keepsLedger hUsable h
  refine ⟨id, createdAt, updatedAt, ?_⟩
  have hCheck := checkReadable_of_keepsLedger hUsable h
  unfold openForRead
  rw [get_bind, hCheck, Effect.ofExcept_bind]
  dsimp only
  rw [get_bind, hLoad, Effect.ofExcept_bind]
  cases hRead : (saved.document id createdAt updatedAt s).reread? with
  | none => rfl
  | some doc =>
      obtain ⟨metainfo, fields, savepoints, -, -, -, hDoc⟩ := Document.reread?_eq_some hRead
      have hLength : doc.dataLength = saved.content.length := by
        rw [hDoc]
        rfl
      dsimp only
      rw [Effect.ofExcept_bind]
      cases hTables : doc.tables with
      | error e => rfl
      | ok tables =>
          dsimp only
          rw [hLength, bind_of_ok (openRead_of_keepsLedger hUsable h)]
          rfl

/-- An archive is opened for reading as documents give it back. -/
theorem openForRead_of_rereads (hUsable : l.IsUsable)
    (h : m.disk.KeepsLedger l s dir saved file data) {again : Ledger}
    (hRereads : saved.Rereads again)
    (hSavepoints : again.savepoints.Pairwise fun a b => (a == b) = false) :
    ∃ a, openForRead l m = .ok a m ∧ ReadsLedger l s again a m.disk := by
  obtain ⟨id, createdAt, updatedAt, hOpen⟩ := openForRead_of_keepsLedger hUsable h
  have hValid := hRereads.isValid h.isValid hSavepoints
  obtain ⟨tables, hTables, hRepresents⟩ :=
    Document.exists_tables (hValid.isSound id createdAt updatedAt)
  rw [hRereads.reread?_document] at hOpen
  simp only [hTables] at hOpen
  refine ⟨_, hOpen, rfl, rfl, rfl, hRepresents.records, hValid, _, data, rfl, ?_,
    h.dataFile.node, ?_⟩
  · rw [hRereads.content_eq]
  · rw [hRereads.content_eq]
    exact h.content

/-- An archive is opened for reading as it was saved. -/
theorem openForRead_of_readsBack (hUsable : l.IsUsable)
    (h : m.disk.KeepsLedger l s dir saved file data) (hReads : saved.readsBack = true) :
    ∃ a, openForRead l m = .ok a m ∧ ReadsLedger l s saved a m.disk :=
  openForRead_of_rereads hUsable h (Ledger.rereads_self hReads) h.isValid.savepoints

/-- An archive that is opened for reading has the tables that documents give back. -/
theorem openForRead_ok (hUsable : l.IsUsable) (h : m.disk.KeepsLedger l s dir saved file data)
    {a : Archive} (hOk : openForRead l m = .ok a m') :
    ∃ metainfo fields savepoints, saved.metainfo.reread? = some metainfo ∧
      saved.fields.mapM FieldInfo.reread? = some fields ∧
      saved.savepoints.mapM Savepoint.reread? = some savepoints ∧
      a.tables.metainfo = metainfo ∧ a.tables.catalog.fields = fields ∧
      a.tables.offsets.savepoints = savepoints ∧ a.tables.offsets.IsCoherent := by
  obtain ⟨id, createdAt, updatedAt, hOpen⟩ := openForRead_of_keepsLedger hUsable h
  rw [hOpen] at hOk
  cases hRead : (saved.document id createdAt updatedAt s).reread? with
  | none =>
      rw [hRead] at hOk
      cases hOk
  | some doc =>
      obtain ⟨metainfo, fields, savepoints, hMetainfo, hFields, hSavepoints, hDoc⟩ :=
        Document.reread?_eq_some hRead
      simp only [hRead] at hOk
      cases hTables : doc.tables with
      | error e =>
          rw [hTables] at hOk
          cases hOk
      | ok tables =>
          have hRepresents := Document.tables_ok hTables
          rw [hTables] at hOk
          cases hOk
          subst hDoc
          exact ⟨metainfo, fields, savepoints, hMetainfo, hFields, hSavepoints,
            hRepresents.metainfo, hRepresents.fields, hRepresents.savepoints,
            hRepresents.offsets⟩

end Archive
end FieldArchive

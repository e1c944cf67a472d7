import FieldArchive.Proofs.Archive.Reading
import FieldArchive.Proofs.Document.Acceptance

/-!
# Archives of unknown origin

Nothing is assumed here about who wrote the files of an archive.  If it opens for
reading, its document was accepted, and that alone makes every later read safe:
positions are in range, ranges lie in the data file and have the size that the
description of their field asks for, and that size is a whole number of elements.

* `Archive.isServed_of_openForRead`: what opening has made sure of;
* `IsServed.readBytes_of_entry` and `IsServed.readBytes_of_no_entry`: the bytes of a
  key, or a miss;
* `Archive.reading_safe`: every answer that a read can give.

Whether the bytes are those that their checksum was computed from is not checked,
neither here nor by a read.
-/

namespace FieldArchive

namespace Archive

variable {l : Layout} {m m' : Machine} {a : Archive} {d : Disk} {data : List UInt8}
  {probe : Savepoint} {field : String}

/-- An archive whose tables can be relied on, over a data file with the given
contents. -/
structure IsServed (a : Archive) (d : Disk) (data : List UInt8) : Prop where
  mode : a.mode = .read
  catalog : a.tables.catalog.IsCoherent
  offsets : a.tables.offsets.IsCoherent
  /-- The field of an entry is described, with its size. -/
  described : ∀ e ∈ a.tables.offsets.entries, ∃ f, a.tables.catalog.find? e.field = some f ∧
    f.byteSize = e.record.extent.length ∧
    f.byteSize = f.elementCount * f.elementType.byteWidth
  arena : ∃ arena, a.arena = some arena ∧ arena.length ≤ data.length ∧
    d.nodes[arena.file]? = some (.file data) ∧
    ∀ e ∈ a.tables.offsets.entries,
      e.record.extent.offset + e.record.extent.length < wordBound ∧
      e.record.extent.offset + e.record.extent.length ≤ arena.length

/-- An archive that opens for reading can be relied on, for as long as its data file
stays as it was. -/
theorem isServed_of_openForRead (h : openForRead l m = .ok a m') {file : NodeId}
    (hFind : m.disk.find l.data = .ok file) (hBefore : m.disk.nodes[file]? = some (.file data))
    (hAfter : d.nodes[file]? = some (.file data)) : a.IsServed d data := by
  obtain ⟨-, -, doc, tables, file', -, hTables, hSame, hLong, rfl⟩ := openForRead_eq_ok_iff.1 h
  rw [hFind] at hSame
  cases hSame
  have hSize : m.disk.size file = data.length := Disk.size_of_file hBefore
  obtain ⟨-, hFields, -, hEntries, -, hCatalog, hOffsets⟩ := Document.tables_ok hTables
  have hSound := Document.isSound_of_tables hTables
  refine ⟨rfl, hCatalog, hOffsets, ?_, _, rfl, by rw [← hSize]; exact hLong, hAfter, ?_⟩
  · intro e he
    obtain ⟨f, hf, hName, hLength⟩ := hSound.described e (hEntries ▸ he)
    exact ⟨f, hCatalog.find?_eq_some_iff.2 ⟨hFields ▸ hf, hName⟩, hLength,
      FieldInfo.byteSize_of_validate (hSound.valid f hf)⟩
  · intro e he
    exact OffsetTable.fits_iff.1 (hSound.fits e (hEntries ▸ he))

theorem IsServed.requireMode_eq (h : a.IsServed d data) {arena : Arena}
    (hArena : a.arena = some arena) : a.requireMode .read .readField = .ok arena := by
  simp [requireMode, hArena, h.mode]

/-- The bytes of an entry are its range of the data file. -/
theorem IsServed.readBytes_of_entry (h : a.IsServed d data) {e : OffsetEntry}
    (he : a.tables.offsets.IsEntryAt e probe field) :
    a.readBytes d probe field =
      .ok ((data.drop e.record.extent.offset).take e.record.extent.length) := by
  obtain ⟨arena, hArena, hLong, hNode, hFits⟩ := h.arena
  obtain ⟨hMem, rfl, known, hKnown, hSame⟩ := he
  obtain ⟨hWord, hLe⟩ := hFits e hMem
  simp only [readBytes, h.requireMode_eq hArena, h.offsets.lookup_of_mem hMem hKnown hSame, bind,
    Except.bind]
  exact Arena.readRange_of_le hNode hLong hWord hLe

theorem IsServed.length_of_entry (h : a.IsServed d data) {e : OffsetEntry}
    (he : e ∈ a.tables.offsets.entries) :
    ((data.drop e.record.extent.offset).take e.record.extent.length).length =
      e.record.extent.length := by
  obtain ⟨arena, -, hLong, -, hFits⟩ := h.arena
  obtain ⟨-, hLe⟩ := hFits e he
  rw [List.length_take, List.length_drop]
  omega

/-- A key without an entry is missed. -/
theorem IsServed.readBytes_of_no_entry (h : a.IsServed d data)
    (hNone : ¬ ∃ e, a.tables.offsets.IsEntryAt e probe field) :
    a.readBytes d probe field = .error (a.tables.offsets.missOf probe field) := by
  obtain ⟨arena, hArena, -⟩ := h.arena
  simp only [readBytes, h.requireMode_eq hArena, h.offsets.lookup_of_no_entry hNone, bind,
    Except.bind]

theorem IsServed.readField_of_no_entry (h : a.IsServed d data)
    (hNone : ¬ ∃ e, a.tables.offsets.IsEntryAt e probe field) (durability : Durability) :
    (Session.ofArchives a none durability).readField d probe field =
      .error (a.tables.offsets.missOf probe field) := by
  have hMiss : (a.tables.offsets.missOf probe field).isMiss = true := by
    unfold OffsetTable.missOf
    split <;> rfl
  rw [Session.readField_of_miss h.mode (h.readBytes_of_no_entry hNone) hMiss,
    h.offsets.isSome_savepointId?, OffsetTable.missOf]
  split <;> rfl

/-- Reading an archive that opened is safe, whatever is in its files.  All positions in
its tables are in range.  A key without an entry is missed: the savepoint is not
found, or the field at it.  A key with an entry has the bytes of the entry's range,
which are as many as its field has; and they are decoded to as many elements as the
field has, of its type, except that a field of reals of the other precision is refused. -/
theorem reading_safe {file : NodeId} (hOpen : openForRead l m = .ok a m')
    (hFind : m.disk.find l.data = .ok file) (hBefore : m.disk.nodes[file]? = some (.file data))
    (hAfter : d.nodes[file]? = some (.file data)) (probe : Savepoint) (field : String)
    (durability : Durability) :
    a.tables.catalog.InRange ∧ a.tables.offsets.InRange ∧
    ((¬ ∃ e, a.tables.offsets.IsEntryAt e probe field) →
      a.readBytes d probe field = .error (a.tables.offsets.missOf probe field) ∧
      (Session.ofArchives a none durability).readField d probe field =
        .error (a.tables.offsets.missOf probe field)) ∧
    ∀ e, a.tables.offsets.IsEntryAt e probe field →
      ∃ info bytes, a.tables.catalog.find? field = some info ∧
        bytes = (data.drop e.record.extent.offset).take e.record.extent.length ∧
        bytes.length = info.byteSize ∧
        a.readBytes d probe field = .ok bytes ∧
        ∀ reference,
          let answer := (Session.ofArchives a reference durability).readField d probe field
          if info.elementType.isFloating = true ∧
              info.elementType ≠ .real a.settings.precision then
            answer = .error (.typeMismatch field
              (ElementType.real a.settings.precision).name info.elementType.name)
          else ∃ buffer, answer = .ok buffer ∧ buffer.elementType = info.elementType ∧
            buffer.size = info.elementCount := by
  have hServed := isServed_of_openForRead hOpen hFind hBefore hAfter
  refine ⟨hServed.catalog.inRange, hServed.offsets.inRange, ?_, ?_⟩
  · intro hNone
    exact ⟨hServed.readBytes_of_no_entry hNone, hServed.readField_of_no_entry hNone durability⟩
  · intro e he
    -- the loader has checked the entry against its description
    obtain ⟨info, hInfo, hLength, hSize⟩ := hServed.described e he.mem
    rw [he.field_eq] at hInfo
    have hName : info.name = field := (hServed.catalog.find?_eq_some_iff.1 hInfo).2
    have hBytes := hServed.readBytes_of_entry he
    have hCount := (hServed.length_of_entry he.mem).trans hLength.symm
    refine ⟨info, _, hInfo, rfl, hCount, hBytes, fun reference => ?_⟩
    dsimp only
    rw [Session.readField_of_readBytes hServed.mode hBytes hInfo, Codec.decode_eq hCount hSize,
      hName]
    split
    · next hOther =>
        have hRefused : (info.elementType.isFloating &&
            decide (info.elementType ≠ .real a.settings.precision)) = true := by
          simpa using hOther
        exact if_pos hRefused
    · next hFine =>
        have hTaken : ¬ (info.elementType.isFloating &&
            decide (info.elementType ≠ .real a.settings.precision)) = true := by
          simpa using hFine
        exact ⟨_, if_neg hTaken, by simp, by simp⟩

/-! ## Files that no archive has written -/

namespace Foreign

/-- A document whose ranges overlap, whose checksums are made up, and with a field that
does not go with its precision. -/
def document : Document :=
  { formatVersion := 1
    id := default
    createdAt := ""
    updatedAt := ""
    settings := ⟨.little, .double, .xxh3⟩
    metainfo := .empty
    fields := [⟨"T", .int32, 4, [2], [⟨0, 0⟩], .empty⟩, ⟨"P", .float32, 4, [3], [⟨0, 0⟩], .empty⟩]
    savepoints := [⟨"step", .empty⟩]
    offsets :=
      [⟨0, "T", ⟨⟨"0000000000000000"⟩, ⟨0, 8⟩⟩⟩, ⟨0, "P", ⟨⟨"0000000000000001"⟩, ⟨4, 12⟩⟩⟩]
    dataLength := 16 }

def content : List UInt8 := [1, 2, 3, 4, 5, 6, 7, 8, 9, 10, 11, 12, 13, 14, 15, 16, 17]

/-- A disk with a metadata file and a data file. -/
def disk (metadata : List UInt8) : Disk :=
  ⟨⟨[(⟨0, "a.json"⟩, 1), (⟨0, "a.dat"⟩, 2)]⟩, [.directory, .file metadata, .file content]⟩

def layout : Layout := ⟨"", "a"⟩

def machine : Machine :=
  .start ⟨fun _ => "", fun _ => default, fun _ => none⟩ (disk (Disk.textBytes document.text))

-- The text of the document is a variable here, so that no proof unfolds it.
theorem readBytes_disk (metadata : List UInt8) :
    (disk metadata).readBytes layout.metadata = .ok metadata := by rfl

theorem find_disk (metadata : List UInt8) : (disk metadata).find layout.data = .ok 2 := by rfl

theorem checkReadable_disk (metadata : List UInt8) :
    layout.checkReadable (disk metadata) = .ok () := by rfl

theorem node_disk (metadata : List UInt8) :
    (disk metadata).nodes[2]? = some (.file content) := rfl

theorem size_disk (metadata : List UInt8) : (disk metadata).size 2 = 17 := by rfl

theorem isBounded : document.IsBounded where
  dataLength_lt := by decide
  offsets := by
    intro e he
    simp only [document, List.mem_cons, List.not_mem_nil, or_false] at he
    rcases he with rfl | rfl <;> exact ⟨by decide, by decide, by decide⟩

theorem load_eq : Document.load (disk (Disk.textBytes document.text)) layout.metadata =
    .ok document := by
  rw [Document.load_of_text isBounded rfl (readBytes_disk _),
    Document.reread?_of_readsBack (by decide +kernel)]

theorem exists_tables : ∃ tables, document.tables = .ok tables := by decide +kernel

/-- The files open; one field is read, the other is refused, and other savepoints are
missed. -/
theorem reading_safe_foreign : ∃ a, openForRead layout machine = .ok a machine ∧
    a.readBytes machine.disk ⟨"step", .empty⟩ "T" = .ok [1, 2, 3, 4, 5, 6, 7, 8] ∧
    (∃ b, (Session.ofArchives a none .standard).readField machine.disk ⟨"step", .empty⟩ "T" =
      .ok b ∧ b.elementType = .int32 ∧ b.size = 2) ∧
    (Session.ofArchives a none .standard).readField machine.disk ⟨"step", .empty⟩ "P" =
      .error (.typeMismatch "P" "float64" "float32") ∧
    (Session.ofArchives a none .standard).readField machine.disk ⟨"stop", .empty⟩ "T" =
      .error (.savepointNotFound ⟨"stop", .empty⟩) := by
  obtain ⟨tables, hTables⟩ := exists_tables
  obtain ⟨-, hFields, hPoints, hEntries, -, hCatalog, -⟩ := Document.tables_ok hTables
  have hDisk : machine.disk = disk (Disk.textBytes document.text) := rfl
  have hFind : machine.disk.find layout.data = .ok 2 := by
    rw [hDisk]
    exact find_disk _
  have hNode : machine.disk.nodes[2]? = some (.file content) := by
    rw [hDisk]
    exact node_disk _
  have hOpen : openForRead layout machine = .ok (ofDocument layout .read document tables
      ⟨layout.data, 2, document.dataLength, false⟩ false) machine := by
    refine openForRead_eq_ok_iff.2 ⟨rfl, ?_, document, tables, 2, ?_, hTables, hFind, ?_, rfl⟩
    · rw [hDisk]
      exact checkReadable_disk _
    · rw [hDisk]
      exact load_eq
    · rw [hDisk, size_disk]
      decide
  have hKnown : tables.offsets.savepoints[0]? = some ⟨"step", .empty⟩ := by
    rw [hPoints]
    rfl
  refine ⟨_, hOpen, ?_⟩
  obtain ⟨-, -, -, hT⟩ := reading_safe hOpen hFind hNode hNode ⟨"step", .empty⟩ "T" .standard
  obtain ⟨-, -, -, hP⟩ := reading_safe hOpen hFind hNode hNode ⟨"step", .empty⟩ "P" .standard
  obtain ⟨-, -, hNone, -⟩ := reading_safe hOpen hFind hNode hNode ⟨"stop", .empty⟩ "T" .standard
  obtain ⟨info, bytes, hInfo, rfl, -, hBytes, hBuffer⟩ :=
    hT ⟨0, "T", ⟨⟨"0000000000000000"⟩, ⟨0, 8⟩⟩⟩
      ⟨by change _ ∈ tables.offsets.entries; rw [hEntries]; exact List.mem_cons_self, rfl, _,
        hKnown, by decide⟩
  obtain ⟨info', -, hInfo', -, -, -, hRefused⟩ :=
    hP ⟨0, "P", ⟨⟨"0000000000000001"⟩, ⟨4, 12⟩⟩⟩
      ⟨by change _ ∈ tables.offsets.entries; rw [hEntries]; simp [document], rfl, _,
        hKnown, by decide⟩
  have hSame : tables.catalog.find? "T" = some ⟨"T", .int32, 4, [2], [⟨0, 0⟩], .empty⟩ := by
    rw [hCatalog.find?_eq, hFields]
    rfl
  have hSame' : tables.catalog.find? "P" = some ⟨"P", .float32, 4, [3], [⟨0, 0⟩], .empty⟩ := by
    rw [hCatalog.find?_eq, hFields]
    rfl
  cases hInfo.symm.trans hSame
  cases hInfo'.symm.trans hSame'
  refine ⟨hBytes, hBuffer none, hRefused none, ?_⟩
  rw [(hNone ?_).2]
  · change Except.error (tables.offsets.missOf _ _) = _
    rw [OffsetTable.missOf, hPoints]
    rfl
  · rintro ⟨e, he, -, known, hAt, hOther⟩
    have hMem : known ∈ document.savepoints := hPoints ▸ List.mem_of_getElem? hAt
    rw [List.mem_singleton.1 hMem] at hOther
    exact absurd hOther (by decide)

end Foreign
end Archive
end FieldArchive

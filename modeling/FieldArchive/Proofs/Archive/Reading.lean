import FieldArchive.Proofs.Archive.Opening
import FieldArchive.Proofs.Arena
import FieldArchive.Session

/-!
# Reading snapshots

An archive open for reading gives back the bytes of every snapshot of its ledger,
whichever interchangeable savepoint it is asked for with, and misses all other
keys.  A session on such an archive decodes the bytes to the buffer that they
were encoded from.
-/

namespace FieldArchive

/-- A stored snapshot belongs to the savepoint that a probe stands for. -/
def Ledger.IsAt (l : Ledger) (w : Write) (probe : Savepoint) : Prop :=
  ∃ known, l.savepoints[w.savepoint]? = some known ∧ (known == probe) = true

theorem Ledger.IsAt.congr {l : Ledger} {w : Write} {point probe : Savepoint}
    (h : l.IsAt w point) (hSame : (probe == point) = true) : l.IsAt w probe := by
  obtain ⟨known, hKnown, hPoint⟩ := h
  exact ⟨known, hKnown, BEq.trans hPoint (BEq.symm hSame)⟩

theorem Ledger.IsAt.mono {l l' : Ledger} {w : Write} {probe : Savepoint} (h : l.IsAt w probe)
    (hPoints : l.savepoints <+: l'.savepoints) : l'.IsAt w probe := by
  obtain ⟨known, hKnown, hSame⟩ := h
  obtain ⟨more, hMore⟩ := hPoints
  obtain ⟨hLt, -⟩ := List.getElem?_eq_some_iff.1 hKnown
  refine ⟨known, ?_, hSame⟩
  rw [← hMore, List.getElem?_append_left hLt]
  exact hKnown

theorem Ledger.IsAt.of_prefix {l l' : Ledger} {w : Write} {probe : Savepoint}
    (h : l'.IsAt w probe) (hPoints : l.savepoints <+: l'.savepoints)
    (hLt : w.savepoint < l.savepoints.length) : l.IsAt w probe := by
  obtain ⟨known, hKnown, hSame⟩ := h
  obtain ⟨more, hMore⟩ := hPoints
  rw [← hMore, List.getElem?_append_left hLt] at hKnown
  exact ⟨known, hKnown, hSame⟩

/-- The range of a payload is read from a data file that begins with the
contents. -/
theorem Arena.readRange_extentOf {arena : Arena} {d : Disk} {data p : List UInt8} {l : Ledger}
    (hLength : arena.length = l.content.length)
    (hNode : d.nodes[arena.file]? = some (.file data)) (hContent : l.content <+: data)
    (hLe : l.content.length ≤ Disk.maxFileLength) (hMem : p ∈ l.payloads) :
    arena.readRange d (Packing.extentOf l.payloads p) = .ok p := by
  obtain ⟨junk, rfl⟩ := hContent
  have hBound : Disk.maxFileLength < wordBound := by decide
  have hStop : (Packing.extentOf l.payloads p).offset + (Packing.extentOf l.payloads p).length ≤
      l.content.length := Packing.offsetOf_add_length_le hMem
  rw [readRange_of_append hNode hLength (by omega) hStop]
  exact congrArg Except.ok (Packing.drop_take_content hMem)

namespace Archive

variable {l : Layout} {s : Settings} {saved : Ledger} {a : Archive} {d : Disk} {w : Write}
  {probe : Savepoint} {field : String}

/-- Every stored snapshot has the record of its payload. -/
theorem ReadsLedger.lookup_eq (h : ReadsLedger l s saved a d) (hw : w ∈ saved.writes)
    (hAt : saved.IsAt w probe) :
    a.tables.offsets.lookup probe w.field = .ok (saved.recordOf s.checksum w.payload) := by
  obtain ⟨known, hKnown, hSame⟩ := hAt
  have hSavepoints : a.tables.offsets.savepoints = saved.savepoints := h.tables.savepoints
  have hEntries : a.tables.offsets.entries = saved.entries s.checksum := h.tables.entries
  have hEntry : saved.entryOf s.checksum w ∈ a.tables.offsets.entries := by
    rw [hEntries]
    exact Ledger.mem_entries.2 ⟨w, hw, rfl⟩
  have hPoint : a.tables.offsets.savepoints[(saved.entryOf s.checksum w).savepoint]? =
      some known := by
    rw [hSavepoints]
    exact hKnown
  exact h.tables.offsets.lookup_of_mem hEntry hPoint hSame

theorem ReadsLedger.requireMode_eq (h : ReadsLedger l s saved a d) {arena : Arena}
    (hArena : a.arena = some arena) : a.requireMode .read .readField = .ok arena := by
  simp [requireMode, hArena, h.mode]

/-- Every stored snapshot is read as its payload. -/
theorem ReadsLedger.readBytes_eq (h : ReadsLedger l s saved a d) (hw : w ∈ saved.writes)
    (hAt : saved.IsAt w probe) : a.readBytes d probe w.field = .ok w.payload := by
  obtain ⟨arena, data, hArena, hLength, hNode, hContent⟩ := h.arena
  have hRange := Arena.readRange_extentOf hLength hNode hContent h.isValid.content_le
    (Ledger.mem_payloads_of_mem hw)
  simp only [readBytes, h.requireMode_eq hArena, h.lookup_eq hw hAt, bind, Except.bind,
    Ledger.recordOf]
  exact hRange

end Archive

/-! ## Sessions -/

namespace Session

variable {l : Layout} {s : Settings} {saved : Ledger} {a : Archive} {d : Disk} {w : Write}
  {probe : Savepoint} {field : String}

/-- A session decodes the bytes that its archive has for a key. -/
theorem readField_of_readBytes (hMode : a.mode = .read) {bytes : List UInt8}
    (hBytes : a.readBytes d probe field = .ok bytes) {info : FieldInfo}
    (hFind : a.tables.catalog.find? field = some info) (reference : Option Archive)
    (durability : Durability) :
    (ofArchives a reference durability).readField d probe field =
      (Codec.ofSettings a.settings).decode info bytes := by
  simp only [readField, locate, require, ofArchives, hMode, Mode.status, ne_eq,
    not_true_eq_false, if_false, archives, findIn, hBytes, hFind, bind, Except.bind, pure,
    Except.pure]

/-- A session on one archive misses a key that the archive misses. -/
theorem readField_of_miss (hMode : a.mode = .read) {e : Error}
    (hBytes : a.readBytes d probe field = .error e) (hMiss : e.isMiss = true)
    (durability : Durability) :
    (ofArchives a none durability).readField d probe field =
      if (a.tables.offsets.savepointId? probe).isSome then .error (.fieldNotFound probe field)
      else .error (.savepointNotFound probe) := by
  have hKnows : (ofArchives a none durability).knowsSavepoint probe =
      (a.tables.offsets.savepointId? probe).isSome := by
    simp [knowsSavepoint, archives, ofArchives]
  have hLocate : (ofArchives a none durability).locate d probe field =
      if (ofArchives a none durability).knowsSavepoint probe then
        .error (.fieldNotFound probe field)
      else .error (.savepointNotFound probe) := by
    simp only [locate, require, ofArchives, hMode, Mode.status, ne_eq, not_true_eq_false,
      if_false, archives, Option.toList_none, findIn, hBytes, hMiss, if_true, bind, Except.bind]
    rfl
  rw [readField, hLocate, hKnows]
  split <;> rfl

end Session
end FieldArchive

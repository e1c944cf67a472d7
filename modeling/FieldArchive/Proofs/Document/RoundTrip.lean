import FieldArchive.Proofs.Archive.Opening
import FieldArchive.Proofs.Archive.Progress
import FieldArchive.Proofs.Disk.Locating

/-!
# Metadata files, written and read back

A metadata file that replaced another one holds the text of its document and is
loaded as that document, wherever the two texts of paths lead to.  The conditions
are those of `Proofs.Document.Text`: numbers stay within 64 bits, and each real is
one that its shortest digits are read as.  Whether the temporary name is taken over
at all is up to the file system; without failures it is, if neither path leads to a
directory (`Document.exists_persist`).
-/

namespace FieldArchive

variable {m m' : Machine} {path temporary : String}

namespace Machine

/-- Without failures a file is opened empty wherever a text asks for a file. -/
theorem StaysCalm.exists_openEmpty {text : String} {slot : Slot} (hWell : m.disk.WellFormed)
    (hCalm : m.StaysCalm) (hSlot : m.disk.locateFile text = .ok slot) :
    ∃ id, openEmpty text m = .ok id (m.tick.record (.makeEmpty slot)) := by
  have hKeep := Disk.keepsDirectories_makeEmpty m.disk slot
  obtain ⟨node, hFile⟩ := hWell.hasFile_makeEmpty (Disk.locateFile_ok_iff.1 hSlot).2.2.2
  refine ⟨node, hCalm.openEmpty_eq hSlot ?_⟩
  exact Disk.find_of_locateFile (Disk.locateFile_mono hKeep hSlot hFile.nodeAt?_ne) hFile

/-- Writing to a file keeps directories and makes none. -/
theorem wellFormed_of_write {id : NodeId} {offset : Nat} {bytes : List UInt8}
    (hWell : m.disk.WellFormed) (hOk : write id offset bytes m = .ok () m') :
    m'.disk.WellFormed ∧ Disk.KeepsDirectories m.disk m'.disk ∧
      ∀ slot, m'.disk.nodeAt? slot = some .directory → m.disk.nodeAt? slot = some .directory := by
  rcases write_ok hOk with ⟨-, rfl⟩ | ⟨-, rfl⟩
  · exact ⟨hWell, .refl _, fun _ h => h⟩
  · exact ⟨hWell.edit _ _, Disk.keepsDirectories_edit _ _ _, fun _ => Disk.directory_of_edit⟩

/-- A renamed file is found under its new path. -/
theorem readBytes_of_rename {source target : String} {slot : Slot} {id : NodeId}
    {bytes : List UInt8} (hWell : m.disk.WellFormed)
    (hSource : m.disk.locateFile source = .ok slot) (hFile : m.disk.HasFile slot id bytes)
    (hOk : rename source target m = .ok () m') : m'.disk.readBytes target = .ok bytes := by
  obtain ⟨source', target', id', hSource', hTarget, -, rfl⟩ := rename_ok hOk
  obtain rfl : slot = source' := Except.ok.inj (hSource.symm.trans hSource')
  have hMoved := hFile.rename hWell target'
  have hKeep := Disk.keepsDirectories_rename hWell hFile.nodeAt?_ne
    (Disk.locateFile_ok_iff.1 hTarget).2.2.2
  exact Disk.readBytes_of_locateFile (Disk.locateFile_mono hKeep hTarget hMoved.nodeAt?_ne) hMoved

end Machine

namespace Document

/-- The file that was replaced holds the text of the document. -/
theorem readBytes_of_persist {doc : Document} (hWell : m.disk.WellFormed)
    (hOk : doc.persist path temporary m = .ok () m') :
    m'.disk.readBytes path = .ok (Disk.textBytes doc.text) := by
  have hCall := Effect.ofCall_ok.1 hOk
  obtain ⟨id, m₁, hOpen, hCall₁⟩ := bind_eq_ok hCall
  obtain ⟨slot, hSlot, hEmpty, hWell₁, hKeep₁⟩ := Machine.hasFile_of_openEmpty hWell hOpen
  obtain ⟨_, m₂, hWrite, hCall₂⟩ := bind_eq_ok hCall₁
  obtain ⟨-, hFile⟩ := hasFile_of_write_ok hEmpty hWrite
  obtain ⟨hWell₂, hKeep₂, -⟩ := Machine.wellFormed_of_write hWell₁ hWrite
  obtain ⟨_, m₃, hSync, hCall₃⟩ := bind_eq_ok hCall₂
  obtain rfl := Machine.sync_ok hSync
  obtain ⟨_, m₄, hRename, hCall₄⟩ := bind_eq_ok hCall₃
  obtain rfl := Machine.sync_ok hCall₄
  have hSource := Disk.locateFile_mono (hKeep₁.trans hKeep₂) hSlot hFile.nodeAt?_ne
  have hRead : m₄.disk.readBytes path = .ok (Disk.textBytes doc.text) :=
    Machine.readBytes_of_rename (m := m₂.tick) hWell₂ hSource hFile hRename
  exact hRead

/-- Without failures a metadata file is replaced, if its text is not longer than a file
can be and neither name is that of a directory. -/
theorem exists_persist (doc : Document) {slot slot' : Slot} (hWell : m.disk.WellFormed)
    (hCalm : m.StaysCalm) (hTemporary : m.disk.locateFile temporary = .ok slot)
    (hPath : m.disk.locateFile path = .ok slot')
    (hLength : (Disk.textBytes doc.text).length ≤ Disk.maxFileLength) :
    ∃ m', doc.persist path temporary m = .ok () m' := by
  obtain ⟨id, hOpen⟩ := hCalm.exists_openEmpty hWell hTemporary
  obtain ⟨place, hPlace, hEmpty, hWell₁, hKeep₁⟩ := Machine.hasFile_of_openEmpty hWell hOpen
  obtain rfl : slot = place := Except.ok.inj (hTemporary.symm.trans hPlace)
  obtain ⟨m₂, hWrite, hCalm₂⟩ := (hCalm.tick.record (.makeEmpty slot)).write_ok id
    (by rw [Nat.zero_add]; exact hLength)
  obtain ⟨-, hFile⟩ := hasFile_of_write_ok hEmpty hWrite
  obtain ⟨hWell₂, hKeep₂, hNone⟩ := Machine.wellFormed_of_write hWell₁ hWrite
  have hKeep := hKeep₁.trans hKeep₂
  have hSource := Disk.locateFile_mono hKeep hTemporary hFile.nodeAt?_ne
  -- neither call makes a directory, so the path still asks for a file
  have hTarget : m₂.disk.locateFile path = .ok slot' := by
    refine Disk.locateFile_mono hKeep hPath fun hDirectory => ?_
    exact (Disk.locateFile_ok_iff.1 hPath).2.2.2
      (Disk.directory_of_makeEmpty hWell (hNone slot' hDirectory))
  have hRename := hCalm₂.tick.rename_eq hSource hTarget hFile.entry
  have hSync := (hCalm₂.tick.tick.record (.rename slot slot')).sync_eq
  refine ⟨_, Effect.ofCall_ok.2 (Eq.trans ?_ hSync)⟩
  rw [bind_of_ok hOpen, bind_of_ok hWrite, bind_of_ok hCalm₂.sync_eq, bind_of_ok hRename]

end Document

/-! ## Texts without blanks -/

/-- The compact text of a tree is read as what the tree is read as. -/
theorem Json.bind_parse_compact {α : Type} {ofJson? : Json → Option α} {j : Json}
    (hWritten : j.IsWritten) {a : α} (hRead : ofJson? j = some a) :
    (Json.parse j.compact).bind ofJson? = some a := by
  rw [parse_compact hWritten, Option.bind_some, hRead]

/-- Sets, savepoints, descriptions and settings are read back from their own texts. -/
theorem Json.parts_round_trip :
    (∀ m : Metainfo, m.readsBack = true →
      (Json.parse m.toJson.compact).bind Metainfo.ofJson? = some m) ∧
    (∀ p : Savepoint, p.readsBack = true →
      (Json.parse p.toJson.compact).bind Savepoint.ofJson? = some p) ∧
    (∀ f : FieldInfo, f.readsBack = true →
      (Json.parse f.toJson.compact).bind FieldInfo.ofJson? = some f) ∧
    ∀ s : Settings, (Json.parse s.toJson.compact).bind Settings.ofJson? = some s := by
  refine ⟨fun m h => ?_, fun p h => ?_, fun f h => ?_, fun s => ?_⟩
  · exact bind_parse_compact m.isWritten_toJson
      (by rw [Metainfo.ofJson?_toJson, Metainfo.reread?_of_readsBack h])
  · exact bind_parse_compact p.isWritten_toJson
      (by rw [Savepoint.ofJson?_toJson, Savepoint.reread?_of_readsBack h])
  · exact bind_parse_compact f.isWritten_toJson
      (by rw [FieldInfo.ofJson?_toJson, FieldInfo.reread?_of_readsBack h])
  · exact bind_parse_compact s.isWritten_toJson s.ofJson?_toJson

namespace Document

/-- A document of the current version whose reals survive is what its text is read as,
and what is loaded after the text replaced a metadata file.  Its parts are read back
from their compact texts too. -/
theorem text_round_trip {doc : Document} (hVersion : doc.formatVersion = currentVersion)
    (hBounded : doc.IsBounded) (hReals : doc.readsBack = true) :
    parse? doc.text = some doc ∧
    (∀ (path temporary : String) (m m' : Machine), m.disk.WellFormed →
      doc.persist path temporary m = .ok () m' → load m'.disk path = .ok doc) ∧
    (∀ (path temporary : String) (m : Machine) (slot slot' : Slot), m.disk.WellFormed →
      m.IsCalm → m.disk.locateFile temporary = .ok slot →
      m.disk.locateFile path = .ok slot' →
      (Disk.textBytes doc.text).length ≤ Disk.maxFileLength →
      ∃ m', doc.persist path temporary m = .ok () m') ∧
    (∀ m : Metainfo, m.readsBack = true →
      (Json.parse m.toJson.compact).bind Metainfo.ofJson? = some m) ∧
    (∀ p : Savepoint, p.readsBack = true →
      (Json.parse p.toJson.compact).bind Savepoint.ofJson? = some p) ∧
    (∀ f : FieldInfo, f.readsBack = true →
      (Json.parse f.toJson.compact).bind FieldInfo.ofJson? = some f) ∧
    ∀ s : Settings, (Json.parse s.toJson.compact).bind Settings.ofJson? = some s := by
  have hAgain : doc.reread? = some doc := reread?_of_readsBack hReals
  refine ⟨by rw [parse?_text hBounded, hAgain], ?_, ?_, Json.parts_round_trip⟩
  · intro path temporary m m' hWell hOk
    rw [load_of_text hBounded hVersion (readBytes_of_persist hWell hOk), hAgain]
  · intro path temporary m slot slot' hWell hCalm hTemporary hPath hLength
    exact doc.exists_persist hWell hCalm.stays hTemporary hPath hLength

/-- A document with the largest numbers, characters that are escaped and a real that
needs seventeen digits. -/
def extreme : Document :=
  { formatVersion := 1
    id := .ofNat 0x0123456789abcdef
    createdAt := "\x00\"\\\n"
    updatedAt := "é𝄞"
    settings := .standard
    metainfo := (Metainfo.empty.set "\t" (.int64 (-9223372036854775808))).set "x"
      (.float64 (.ofPattern false 0x3fd3333333333334))
    fields := [⟨"T", .int32, 4, [0xffffffffffffffff], [⟨0, 0xffffffffffffffff⟩], .empty⟩]
    savepoints := [⟨"step", Metainfo.empty.set "n" (.int32 (-2147483648))⟩]
    offsets := [⟨0, "T", ⟨"0f"⟩, ⟨0xffffffffffffffff, 0xffffffffffffffff⟩⟩]
    dataLength := 0xffffffffffffffff }

/-- On a new machine the extreme document is written and loaded again. -/
theorem text_round_trip_extreme :
    ∃ m', extreme.persist "a.json" "a.json.tmp"
        (.start ⟨fun _ => "", fun _ => default, fun _ => none⟩ .empty) = .ok () m' ∧
      load m'.disk "a.json" = .ok extreme := by
  have hBounded : extreme.IsBounded := by
    refine ⟨by decide, fun e he => ?_⟩
    rw [List.mem_singleton.1 he]
    exact ⟨by decide, by decide, by decide⟩
  have hLength : (Json.render .pretty 0 extreme.toJson).length ≤ 4096 := by decide +kernel
  obtain ⟨-, hLoads, hPersists, -⟩ := text_round_trip rfl hBounded (by decide +kernel)
  obtain ⟨m', hOk⟩ := hPersists "a.json" "a.json.tmp"
    (.start ⟨fun _ => "", fun _ => default, fun _ => none⟩ .empty) ⟨Disk.root, "a.json.tmp"⟩
    ⟨Disk.root, "a.json"⟩ Disk.wellFormed_empty (fun _ => rfl) (by decide +kernel)
    (by decide +kernel) (length_textBytes_le_max hLength)
  exact ⟨m', hOk, hLoads _ _ _ _ Disk.wellFormed_empty hOk⟩

end Document
end FieldArchive

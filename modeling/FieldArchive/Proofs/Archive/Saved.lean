import FieldArchive.Document.Text
import FieldArchive.Proofs.Disk.Machine
import FieldArchive.Proofs.Layout
import FieldArchive.Proofs.Ledger.Basic

/-!
# Disks that keep an archive

`Disk.KeepsLedger` says of a disk that the metadata file describes a ledger and that
the data file begins with the contents of that ledger.  Such a disk is all that
a later session needs.  Writing to the temporary file and after the recorded
end of the data file keeps it; renaming the temporary file makes it keep the
ledger that was written there.  `Document.persist_cases` says that replacing
the metadata file does nothing else, wherever it stops.
-/

namespace FieldArchive

/-- A disk on which an archive is described by a ledger.  `file` is its data
file, which holds `data`. -/
structure Disk.KeepsLedger (l : Layout) (s : Settings) (dir : NodeId) (saved : Ledger)
    (file : NodeId) (data : List UInt8) (d : Disk) : Prop where
  wellFormed : d.WellFormed
  leadsTo : l.LeadsTo d dir
  isValid : saved.IsValid s.checksum
  savepoints_le : saved.savepoints.length ≤ maxFileLength
  metadata : ∃ node id createdAt updatedAt, d.HasFile (l.metadataSlot dir) node
    (textBytes (saved.document id createdAt updatedAt s).text)
  dataFile : d.HasFile (l.dataSlot dir) file data
  content : saved.content <+: data

/-- The metadata file was replaced: until the renaming the disk kept one ledger,
and from then on another. -/
def Machine.Replaces (l : Layout) (dir : NodeId) (P Q : Disk → Prop) (m m' : Machine) : Prop :=
  ∃ m₁, Machine.Proceeds P m m₁ ∧
    Machine.Proceeds Q
      (m₁.tick.record (.rename (l.temporarySlot dir) (l.metadataSlot dir))) m'

theorem Machine.Replaces.environment {l : Layout} {dir : NodeId} {P Q : Disk → Prop}
    {m m' : Machine} (h : Machine.Replaces l dir P Q m m') : m'.environment = m.environment := by
  obtain ⟨m₁, hTo, hFrom⟩ := h
  exact hFrom.1.trans hTo.1

namespace Disk.KeepsLedger

variable {l : Layout} {s : Settings} {dir : NodeId} {saved live : Ledger} {file : NodeId}
  {data : List UInt8} {d d' : Disk}

/-- A change that keeps both files keeps the archive. -/
theorem of_files (h : d.KeepsLedger l s dir saved file data) (hWell : d'.WellFormed)
    (hDirectories : KeepsDirectories d d')
    (hMetadata : ∀ {node bytes}, d.HasFile (l.metadataSlot dir) node bytes →
      d'.HasFile (l.metadataSlot dir) node bytes)
    {data' : List UInt8} (hData : d'.HasFile (l.dataSlot dir) file data')
    (hContent : saved.content <+: data') : d'.KeepsLedger l s dir saved file data' := by
  obtain ⟨node, id, createdAt, updatedAt, hFile⟩ := h.metadata
  exact ⟨hWell, h.leadsTo.mono hDirectories, h.isValid, h.savepoints_le,
    ⟨node, id, createdAt, updatedAt, hMetadata hFile⟩, hData, hContent⟩

/-- Emptying the temporary file keeps the archive. -/
theorem makeEmpty_temporary (h : d.KeepsLedger l s dir saved file data) :
    (d.apply (.makeEmpty (l.temporarySlot dir))).KeepsLedger l s dir saved file data := by
  refine h.of_files (h.wellFormed.makeEmpty _) (keepsDirectories_makeEmpty d _) ?_ ?_ h.content
  · intro node bytes hFile
    exact hFile.makeEmpty_ne h.wellFormed (l.temporarySlot_ne_metadataSlot dir)
  · exact h.dataFile.makeEmpty_ne h.wellFormed (l.temporarySlot_ne_dataSlot dir)

/-- Editing the temporary file keeps the archive. -/
theorem edit_temporary (h : d.KeepsLedger l s dir saved file data) {node : NodeId}
    {bytes : List UInt8} (hFile : d.HasFile (l.temporarySlot dir) node bytes)
    (f : List UInt8 → List UInt8) : (d.edit node f).KeepsLedger l s dir saved file data := by
  refine h.of_files (h.wellFormed.edit _ _) (keepsDirectories_edit d _ _) ?_ ?_ h.content
  · intro node' bytes' hFile'
    exact hFile'.edit_ne
      (HasFile.id_ne h.wellFormed hFile hFile' (l.temporarySlot_ne_metadataSlot dir)) f
  · exact h.dataFile.edit_ne
      (HasFile.id_ne h.wellFormed hFile h.dataFile (l.temporarySlot_ne_dataSlot dir)) f

/-- Editing the data file keeps the archive if the recorded contents stay. -/
theorem edit_data (h : d.KeepsLedger l s dir saved file data) (f : List UInt8 → List UInt8)
    (hContent : saved.content <+: f data) :
    (d.edit file f).KeepsLedger l s dir saved file (f data) := by
  refine h.of_files (h.wellFormed.edit _ _) (keepsDirectories_edit d _ _) ?_
    (h.dataFile.edit f) hContent
  intro node bytes hFile
  exact hFile.edit_ne
    (HasFile.id_ne h.wellFormed h.dataFile hFile (l.metadataSlot_ne_dataSlot dir).symm) f

/-- Renaming the temporary file makes the disk keep what was written there. -/
theorem rename (h : d.KeepsLedger l s dir saved file data) {node : NodeId} {id : ArchiveId}
    {createdAt updatedAt : String}
    (hFile : d.HasFile (l.temporarySlot dir) node
      (textBytes (live.document id createdAt updatedAt s).text))
    (hTarget : d.nodeAt? (l.metadataSlot dir) ≠ some .directory)
    (hLive : live.IsValid s.checksum) (hSavepoints : live.savepoints.length ≤ maxFileLength)
    (hContent : live.content <+: data) :
    (d.apply (.rename (l.temporarySlot dir) (l.metadataSlot dir))).KeepsLedger
      l s dir live file data := by
  have hSource : d.nodeAt? (l.temporarySlot dir) ≠ some .directory := by
    simp [nodeAt?, hFile.entry, hFile.node]
  refine ⟨h.wellFormed.rename _ _,
    h.leadsTo.mono (keepsDirectories_rename h.wellFormed hSource hTarget), hLive, hSavepoints,
    ⟨node, id, createdAt, updatedAt, hFile.rename h.wellFormed _⟩, ?_, hContent⟩
  exact h.dataFile.rename_ne h.wellFormed hFile.entry (l.temporarySlot_ne_dataSlot dir)
    (l.metadataSlot_ne_dataSlot dir)

end Disk.KeepsLedger

/-- What is done to the temporary file keeps a property of disks on which the archive
has its directory. -/
structure Disk.IsStable (l : Layout) (dir : NodeId) (P : Disk → Prop) : Prop where
  wellFormed : ∀ {d}, P d → d.WellFormed
  leadsTo : ∀ {d}, P d → l.LeadsTo d dir
  makeEmpty : ∀ {d}, P d → P (d.apply (.makeEmpty (l.temporarySlot dir)))
  edit : ∀ {d node bytes} (f : List UInt8 → List UInt8), P d →
    d.HasFile (l.temporarySlot dir) node bytes → P (d.edit node f)

theorem Disk.KeepsLedger.isStable (l : Layout) (s : Settings) (dir : NodeId) (saved : Ledger)
    (file : NodeId) (data : List UInt8) :
    Disk.IsStable l dir (Disk.KeepsLedger l s dir saved file data) where
  wellFormed h := h.wellFormed
  leadsTo h := h.leadsTo
  makeEmpty h := h.makeEmpty_temporary
  edit f h hFile := h.edit_temporary hFile f

namespace Document

variable {l : Layout} {s : Settings} {dir : NodeId} {saved live : Ledger} {file : NodeId}
  {data : List UInt8} {m m' : Machine} {P Q : Disk → Prop}

/-- Opening the temporary file leaves it empty and keeps the property. -/
theorem openEmpty_temporary_ok (hPlain : l.HasPlainNames) (hStable : Disk.IsStable l dir P)
    (h : P m.disk) {node : NodeId} (hOk : Machine.openEmpty l.temporary m = .ok node m') :
    Machine.Proceeds P m m' ∧ m'.disk.HasFile (l.temporarySlot dir) node [] := by
  obtain ⟨slot, hSlot, rfl, hFind⟩ := Machine.openEmpty_ok hOk
  obtain ⟨hAdmits, dir', hLeads', rfl, hNode⟩ := l.locateFile_join_ok hPlain.temporary hSlot
  obtain rfl := (hStable.leadsTo h).unique hLeads'
  have hAfter := hStable.makeEmpty h
  obtain ⟨node', hFile⟩ := (hStable.wellFormed h).hasFile_makeEmpty hNode
  have hSame := l.find_of_hasFile (hStable.leadsTo hAfter) hAdmits hFile
  have hNumber : node = node' := by
    have hBoth : (.ok node : Except IoError NodeId) = .ok node' := hFind.symm.trans hSame
    exact Except.ok.inj hBoth
  subst hNumber
  refine ⟨.record rfl h hAfter ?_, hFile⟩
  intro count c' hCut
  cases hCut

theorem openEmpty_temporary_error (hPlain : l.HasPlainNames) (hStable : Disk.IsStable l dir P)
    (h : P m.disk) {e : IoError} (hError : Machine.openEmpty l.temporary m = .error e m') :
    Machine.Proceeds P m m' := by
  rcases Machine.openEmpty_error hError with rfl | rfl | ⟨slot, hSlot, rfl⟩
  · exact .refl h
  · exact .tick h
  · obtain ⟨-, dir', hLeads', rfl, -⟩ := l.locateFile_join_ok hPlain.temporary hSlot
    obtain rfl := (hStable.leadsTo h).unique hLeads'
    refine .record rfl h (hStable.makeEmpty h) ?_
    intro count c' hCut
    cases hCut

/-- Writing to the temporary file keeps the property, wherever it stops. -/
theorem write_temporary (hStable : Disk.IsStable l dir P) (h : P m.disk) {node : NodeId}
    {old : List UInt8} (hFile : m.disk.HasFile (l.temporarySlot dir) node old) (offset : Nat)
    (bytes : List UInt8) :
    (∀ u, Machine.write node offset bytes m = .ok u m' → Machine.Proceeds P m m') ∧
    ∀ e, Machine.write node offset bytes m = .error e m' → Machine.Proceeds P m m' :=
  Machine.write_proceeds h fun _ _ => hStable.edit _ h hFile

theorem hasFile_of_write_ok {slot : Slot} {node : NodeId} {bytes : List UInt8}
    (hFile : m.disk.HasFile slot node []) (hOk : Machine.write node 0 bytes m = .ok () m') :
    bytes.length ≤ Disk.maxFileLength ∧ m'.disk.HasFile slot node bytes := by
  rcases Machine.write_ok hOk with ⟨rfl, rfl⟩ | ⟨hFits, rfl⟩
  · exact ⟨Nat.zero_le _, hFile⟩
  · refine ⟨by omega, ?_⟩
    have hEdit := hFile.edit fun contents => Disk.overwrite contents 0 bytes
    rwa [Disk.overwrite_nil] at hEdit

/-- The temporary file gets its text and the calls that follow go on, or they are never
made; either way the property is kept. -/
theorem fill_temporary_cases (hPlain : l.HasPlainNames) (hStable : Disk.IsStable l dir P)
    (h : P m.disk) (bytes : List UInt8) :
    let fill (rest : Machine.Call Unit) : Machine.Call Unit := do
      let file ← Machine.openEmpty l.temporary
      Machine.write file 0 bytes
      Machine.sync
      rest
    (∃ e m', Machine.Proceeds P m m' ∧ ∀ rest, fill rest m = .error e m') ∨
    ∃ node m', Machine.Proceeds P m m' ∧ m'.disk.HasFile (l.temporarySlot dir) node bytes ∧
      bytes.length ≤ Disk.maxFileLength ∧ ∀ rest, fill rest m = rest m' := by
  intro fill
  -- each of the three calls may be the last one
  cases hOpen : Machine.openEmpty l.temporary m with
  | error e m₁ =>
      exact Or.inl ⟨e, m₁, openEmpty_temporary_error hPlain hStable h hOpen,
        fun _ => bind_of_error hOpen⟩
  | ok node m₁ =>
      obtain ⟨hTo₁, hEmpty⟩ := openEmpty_temporary_ok hPlain hStable h hOpen
      cases hWrite : Machine.write node 0 bytes m₁ with
      | error e m₂ =>
          have hTo₂ := (write_temporary hStable hTo₁.last hEmpty 0 bytes).2 e hWrite
          refine Or.inl ⟨e, m₂, hTo₁.trans hTo₂, fun _ => ?_⟩
          exact (bind_of_ok hOpen).trans (bind_of_error hWrite)
      | ok u m₂ =>
          have hTo₂ := hTo₁.trans ((write_temporary hStable hTo₁.last hEmpty 0 bytes).1 u hWrite)
          obtain ⟨hLength, hFile⟩ := hasFile_of_write_ok hEmpty hWrite
          have hFilled : ∀ rest, fill rest m = (Machine.sync >>= fun _ => rest) m₂ := fun _ =>
            (bind_of_ok hOpen).trans (bind_of_ok hWrite)
          have hTo₃ : Machine.Proceeds P m m₂.tick := hTo₂.trans (.tick hTo₂.last)
          cases hSync : Machine.sync m₂ with
          | error e m₃ =>
              obtain rfl := Machine.sync_error hSync
              exact Or.inl ⟨e, m₂.tick, hTo₃,
                fun rest => (hFilled rest).trans (bind_of_error hSync)⟩
          | ok v m₃ =>
              obtain rfl := Machine.sync_ok hSync
              exact Or.inr ⟨node, m₂.tick, hTo₃, hFile, hLength, fun rest =>
                (hFilled rest).trans (bind_of_ok hSync)⟩

/-- Renaming the temporary file to the metadata file, if it does anything, does it in the
directory of the archive. -/
theorem rename_temporary_ok (hPlain : l.HasPlainNames) (hLeads : l.LeadsTo m.disk dir)
    (hOk : Machine.rename l.temporary l.metadata m = .ok () m') :
    m' = m.tick.record (.rename (l.temporarySlot dir) (l.metadataSlot dir)) ∧
      l.Admits l.metadataName ∧ m.disk.nodeAt? (l.metadataSlot dir) ≠ some .directory := by
  obtain ⟨source, target, number, hSource, hTarget, -, rfl⟩ := Machine.rename_ok hOk
  obtain ⟨-, dir₁, hLeads₁, rfl, -⟩ := l.locateFile_join_ok hPlain.temporary hSource
  obtain rfl := hLeads.unique hLeads₁
  obtain ⟨hName, dir₂, hLeads₂, rfl, hNode⟩ := l.locateFile_join_ok hPlain.metadata hTarget
  obtain rfl := hLeads.unique hLeads₂
  exact ⟨rfl, hName, hNode⟩

/-- Replacing the metadata file fails before it renames, and then what is stable is
kept, or it renames, and then `Q` holds, which renaming a file with the text brings
about. -/
theorem persist_stable (hPlain : l.HasPlainNames) (hStable : Disk.IsStable l dir P)
    (h : P m.disk) (doc : Document)
    (hRename : ∀ {d node}, P d → l.Admits l.metadataName →
      d.HasFile (l.temporarySlot dir) node (Disk.textBytes doc.text) →
      d.nodeAt? (l.metadataSlot dir) ≠ some .directory →
      (Disk.textBytes doc.text).length ≤ Disk.maxFileLength →
      Q (d.apply (.rename (l.temporarySlot dir) (l.metadataSlot dir)))) :
    (∃ e m', doc.persist l.metadata l.temporary m = .error (.io e) m' ∧
      Machine.Proceeds P m m') ∨
    ∃ m', Machine.Replaces l dir P Q m m' ∧
      (doc.persist l.metadata l.temporary m = .ok () m' ∨
        ∃ e, doc.persist l.metadata l.temporary m = .error (.io e) m') := by
  rcases fill_temporary_cases hPlain hStable h (Disk.textBytes doc.text) with
    ⟨e, m₁, hTo, hFill⟩ | ⟨node, m₁, hTo, hFile, hLength, hFill⟩
  · exact Or.inl ⟨e, m₁, Effect.ofCall_of_error (hFill _), hTo⟩
  cases hCall : Machine.rename l.temporary l.metadata m₁ with
  | error e m₂ =>
      refine Or.inl ⟨e, m₂, Effect.ofCall_of_error ((hFill _).trans (bind_of_error hCall)), ?_⟩
      rcases Machine.rename_error hCall with rfl | rfl
      · exact hTo
      · exact hTo.trans (.tick hTo.last)
  | ok u m₂ =>
      obtain ⟨rfl, hName, hNode⟩ := rename_temporary_ok hPlain (hStable.leadsTo hTo.last) hCall
      have hRenamed := hRename hTo.last hName hFile hNode hLength
      -- the new file is in its place, whether or not it can be synchronised
      refine Or.inr ?_
      cases hLast : Machine.sync (m₁.tick.record
          (.rename (l.temporarySlot dir) (l.metadataSlot dir))) with
      | ok v m₃ =>
          obtain rfl := Machine.sync_ok hLast
          refine ⟨_, ⟨m₁, hTo, .tick hRenamed⟩, Or.inl (Effect.ofCall_ok.2 ?_)⟩
          exact (hFill _).trans ((bind_of_ok hCall).trans hLast)
      | error e m₃ =>
          obtain rfl := Machine.sync_error hLast
          refine ⟨_, ⟨m₁, hTo, .tick hRenamed⟩, Or.inr ⟨e, Effect.ofCall_of_error ?_⟩⟩
          exact (hFill _).trans ((bind_of_ok hCall).trans hLast)

/-- Replacing the metadata file keeps the ledger of the disk, or makes it another. -/
theorem persist_cases (hUsable : l.IsUsable) (h : m.disk.KeepsLedger l s dir saved file data)
    (hLive : live.IsValid s.checksum) (hContent : live.content <+: data) (id : ArchiveId)
    (createdAt updatedAt : String) :
    (∃ e m', (live.document id createdAt updatedAt s).persist l.metadata l.temporary m =
        .error (.io e) m' ∧
      Machine.Proceeds (Disk.KeepsLedger l s dir saved file data) m m') ∨
    ∃ m', Machine.Replaces l dir (Disk.KeepsLedger l s dir saved file data)
        (Disk.KeepsLedger l s dir live file data) m m' ∧
      ((live.document id createdAt updatedAt s).persist l.metadata l.temporary m = .ok () m' ∨
        ∃ e, (live.document id createdAt updatedAt s).persist l.metadata l.temporary m =
          .error (.io e) m') := by
  refine persist_stable hUsable.hasPlainNames
    (Disk.KeepsLedger.isStable l s dir saved file data) h _ ?_
  intro d node hKeeps _ hFile hNode hLength
  have hSavepoints : live.savepoints.length ≤ Disk.maxFileLength :=
    (length_savepoints_le (live.document id createdAt updatedAt s)).trans hLength
  exact hKeeps.rename hFile hNode hLive hSavepoints hContent

end Document
end FieldArchive

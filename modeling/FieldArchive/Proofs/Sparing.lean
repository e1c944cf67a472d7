import FieldArchive.Proofs.Archive.Growing
import FieldArchive.Proofs.Siblings

/-!
# What writing an archive leaves alone

Whoever writes an archive changes its three files, and may have to make its directory.
`Layout.Spares` says of two disks that they differ in nothing else; in particular no other
file appears, goes or changes.  The data file of the archive stays the same file, so what is
written to it later still goes to the archive.

`Machine.Spares` says it of a stretch of calls, wherever the program stops in it.  Stretches
compose, and so every call that names a file of the archive spares all others.
-/

namespace FieldArchive

variable {l : Layout} {dir : NodeId} {d d' d'' : Disk} {m m' m'' : Machine} {slot : Slot}
  {name : String} {id file : NodeId} {bytes : List UInt8}

/-! ## Disks -/

namespace Layout

/-- A place is that of a file of an archive. -/
def Owns (l : Layout) (d : Disk) (slot : Slot) : Prop :=
  l.LeadsTo d slot.directory ∧ slot.name ∈ l.fileNames

/-- A file is the data file of an archive. -/
def HasData (l : Layout) (d : Disk) (file : NodeId) : Prop :=
  ∃ dir bytes, l.LeadsTo d dir ∧ d.HasFile (l.dataSlot dir) file bytes

/-- From the first disk to the second nothing has changed but the files of an archive.  A
place that is not theirs holds what it held, or a directory has been made in it before there
was one for the archive. -/
structure Spares (l : Layout) (d d' : Disk) : Prop where
  wellFormed : d'.WellFormed
  directories : Disk.KeepsDirectories d d'
  others : ∀ slot, ¬ l.Owns d' slot → Disk.SameAt d d' slot ∨
    (d.entries.get? slot = none ∧ d'.nodeAt? slot = some .directory ∧ ∀ dir, ¬ l.LeadsTo d dir)
  data : ∀ file, l.HasData d file → l.HasData d' file

theorem mem_fileNames_metadata (l : Layout) : l.metadataName ∈ l.fileNames := by simp [fileNames]

theorem mem_fileNames_temporary (l : Layout) : l.temporaryName ∈ l.fileNames := by
  simp [fileNames]

theorem mem_fileNames_data (l : Layout) : l.dataName ∈ l.fileNames := by simp [fileNames]

theorem Owns.mono (h : l.Owns d slot) (hKeep : Disk.KeepsDirectories d d') : l.Owns d' slot :=
  ⟨h.1.mono hKeep, h.2⟩

theorem Spares.refl (h : d.WellFormed) : l.Spares d d :=
  ⟨h, .refl d, fun slot _ => Or.inl (.refl d slot), fun _ => id⟩

theorem Spares.trans (h : l.Spares d d') (h' : l.Spares d' d'') : l.Spares d d'' where
  wellFormed := h'.wellFormed
  directories := h.directories.trans h'.directories
  others slot hOther := by
    rcases h.others slot fun hOwn => hOther (hOwn.mono h'.directories) with
      hSame | ⟨hFree, hMade, hNowhere⟩
    · rcases h'.others slot hOther with hSame' | ⟨hFree', hMade', hNowhere'⟩
      · exact Or.inl (hSame.trans hSame')
      · refine Or.inr ⟨hSame.entry.symm.trans hFree', hMade', fun dir hLeads => ?_⟩
        exact hNowhere' dir (hLeads.mono h.directories)
    · rcases h'.others slot hOther with hSame' | ⟨hFree', -, -⟩
      · exact Or.inr ⟨hFree, hSame'.node.trans hMade, hNowhere⟩
      · -- a directory that was made takes its place
        rw [Disk.nodeAt?, hFree'] at hMade
        cases hMade
  data file hData := h'.data file (h.data file hData)

/-- At a place that is not theirs the same files are on both disks. -/
theorem Spares.hasFile_iff (h : l.Spares d d') (hOther : ¬ l.Owns d' slot) :
    d'.HasFile slot id bytes ↔ d.HasFile slot id bytes := by
  rcases h.others slot hOther with hSame | ⟨hFree, hMade, -⟩
  · exact hSame.hasFile_iff
  · constructor
    · intro hFile
      rw [hFile.nodeAt?_eq] at hMade
      cases hMade
    · intro hFile
      rw [hFile.entry] at hFree
      cases hFree

/-- Once there is a directory for the archive, no more are made. -/
theorem Spares.sameAt (h : l.Spares d d') (hLeads : l.LeadsTo d dir) (hOther : ¬ l.Owns d' slot) :
    Disk.SameAt d d' slot :=
  (h.others slot hOther).resolve_right fun hMade => hMade.2.2 dir hLeads

/-! ## Changes -/

theorem Spares.of_sameAt (hWell : d'.WellFormed) (hKeep : Disk.KeepsDirectories d d')
    (hSame : ∀ slot, ¬ l.Owns d' slot → Disk.SameAt d d' slot)
    (hData : ∀ dir file bytes, d.HasFile (l.dataSlot dir) file bytes →
      ∃ bytes', d'.HasFile (l.dataSlot dir) file bytes') : l.Spares d d' := by
  refine ⟨hWell, hKeep, fun slot hOther => Or.inl (hSame slot hOther), ?_⟩
  rintro file ⟨dir, bytes, hLeads, hFile⟩
  obtain ⟨bytes', hFile'⟩ := hData dir file bytes hFile
  exact ⟨dir, bytes', hLeads.mono hKeep, hFile'⟩

theorem Spares.makeEmpty (hWell : d.WellFormed) (hLeads : l.LeadsTo d dir)
    (hName : name ∈ l.fileNames) : l.Spares d (d.apply (.makeEmpty ⟨dir, name⟩)) := by
  have hKeep := Disk.keepsDirectories_makeEmpty d ⟨dir, name⟩
  refine .of_sameAt (hWell.makeEmpty _) hKeep (fun slot hOther => ?_)
    fun dir' file bytes hFile => hFile.exists_makeEmpty hWell _
  refine Disk.sameAt_makeEmpty hWell ?_
  rintro rfl
  exact hOther ⟨hLeads.mono hKeep, hName⟩

theorem Spares.edit (hWell : d.WellFormed) (hLeads : l.LeadsTo d dir) (hName : name ∈ l.fileNames)
    (hFile : d.HasFile ⟨dir, name⟩ id bytes) (f : List UInt8 → List UInt8) :
    l.Spares d (d.edit id f) := by
  have hKeep := Disk.keepsDirectories_edit d id f
  refine .of_sameAt (hWell.edit _ _) hKeep (fun slot hOther => ?_)
    fun dir' file bytes hData => hData.exists_edit id f
  refine Disk.sameAt_edit hWell hFile ?_ f
  rintro rfl
  exact hOther ⟨hLeads.mono hKeep, hName⟩

/-- The metadata file may be replaced. -/
theorem Spares.rename (hWell : d.WellFormed) (hLeads : l.LeadsTo d dir)
    (hEntry : d.entries.get? (l.temporarySlot dir) = some id)
    (hSource : d.nodeAt? (l.temporarySlot dir) ≠ some .directory)
    (hTarget : d.nodeAt? (l.metadataSlot dir) ≠ some .directory) :
    l.Spares d (d.apply (.rename (l.temporarySlot dir) (l.metadataSlot dir))) := by
  have hKeep := Disk.keepsDirectories_rename hWell hSource hTarget
  refine .of_sameAt (hWell.rename _ _) hKeep (fun slot hOther => ?_)
    fun dir' file bytes hData => ⟨bytes, ?_⟩
  · refine Disk.sameAt_rename hWell hEntry ?_ ?_
    · rintro rfl
      exact hOther ⟨hLeads.mono hKeep, l.mem_fileNames_temporary⟩
    · rintro rfl
      exact hOther ⟨hLeads.mono hKeep, l.mem_fileNames_metadata⟩
  · exact hData.rename_ne hWell hEntry
      (fun h => l.temporaryName_ne_dataName (congrArg Slot.name h))
      fun h => l.metadataName_ne_dataName (congrArg Slot.name h)

/-- A directory may be made where nothing is, on the way to that of the archive. -/
theorem Spares.addDirectory (hWell : d.WellFormed) (hFree : d.entries.get? slot = none)
    (hNowhere : ∀ dir, ¬ l.LeadsTo d dir) : l.Spares d (d.addNode slot .directory) where
  wellFormed := hWell.addNode _ _
  directories := Disk.keepsDirectories_addNode hFree _
  others slot' _ := by
    by_cases hSame : slot = slot'
    · subst hSame
      refine Or.inr ⟨hFree, ?_, hNowhere⟩
      rw [Disk.nodeAt?_addNode hWell, if_pos rfl]
    · exact Or.inl (Disk.sameAt_addNode hWell hSame _)
  data file hData := by
    obtain ⟨dir, -, hLeads, -⟩ := hData
    exact absurd hLeads (hNowhere dir)

end Layout

/-- What is left of a part is a part of the whole. -/
theorem Disk.Change.exists_cut {c c' c'' : Disk.Change} {count count' : Nat}
    (h : c.cut count = some c') (h' : c'.cut count' = some c'') :
    ∃ count'', c.cut count'' = some c'' := by
  cases c with
  | write id offset bytes =>
      cases h
      cases h'
      exact ⟨min count' count, by rw [cut, List.take_take]⟩
  | _ => cases h

/-! ## Calls -/

namespace Machine

/-- From the first machine to the second nothing has changed but the files of an archive,
wherever the program stops. -/
def Spares (l : Layout) (m m' : Machine) : Prop :=
  ∃ changes, m'.trace = m.trace ++ changes ∧ m'.disk = m.disk.after changes ∧
    ∀ count part, l.Spares m.disk (m.disk.stopped changes count part)

theorem Spares.last (h : Spares l m m') : l.Spares m.disk m'.disk := by
  obtain ⟨changes, -, hDisk, hStops⟩ := h
  have hEnd := hStops changes.length none
  rwa [Disk.stopped_length, ← hDisk] at hEnd

theorem Spares.wellFormed (h : Spares l m m') : m'.disk.WellFormed := h.last.wellFormed

theorem Spares.of_disk_eq (h : m.disk.WellFormed) (hTrace : m'.trace = m.trace)
    (hDisk : m'.disk = m.disk) : Spares l m m' := by
  refine ⟨[], by simp [hTrace], hDisk, fun count part => ?_⟩
  rw [Disk.stopped_nil]
  exact .refl h

theorem Spares.refl (h : m.disk.WellFormed) : Spares l m m := .of_disk_eq h rfl rfl

theorem Spares.tick (h : m.disk.WellFormed) : Spares l m m.tick := .of_disk_eq h rfl rfl

theorem Spares.trans (h : Spares l m m') (h' : Spares l m' m'') : Spares l m m'' := by
  have hLast := h.last
  obtain ⟨changes, hTrace, hDisk, hStops⟩ := h
  obtain ⟨changes', hTrace', hDisk', hStops'⟩ := h'
  refine ⟨changes ++ changes', ?_, ?_, fun count part => ?_⟩
  · rw [hTrace', hTrace, List.append_assoc]
  · rw [hDisk', hDisk, Disk.after_append]
  · by_cases hLt : count < changes.length
    · rw [Disk.stopped_append_left _ _ _ hLt]
      exact hStops count part
    · rw [Disk.stopped_append_right _ _ _ (by omega), ← hDisk]
      exact hLast.trans (hStops' _ part)

/-- One change, of which a part may be made. -/
theorem Spares.record {c : Disk.Change} (h : m.disk.WellFormed)
    (hAll : l.Spares m.disk (m.disk.apply c))
    (hPart : ∀ count c', c.cut count = some c' → l.Spares m.disk (m.disk.apply c')) :
    Spares l m (m.tick.record c) := by
  refine ⟨[c], rfl, rfl, fun count part => ?_⟩
  cases count with
  | zero =>
      cases part with
      | none => exact .refl h
      | some bytes =>
          cases hCut : c.cut bytes with
          | none => simpa [Disk.stopped, hCut, Disk.after] using Layout.Spares.refl h
          | some c' => simpa [Disk.stopped, hCut, Disk.after] using hPart bytes c' hCut
  | succ count => cases part <;> simpa [Disk.stopped, Disk.after] using hAll

theorem spares_commit {c : Disk.Change} (h : m.disk.WellFormed)
    (hAll : l.Spares m.disk (m.disk.apply c))
    (hPart : ∀ count c', c.cut count = some c' → l.Spares m.disk (m.disk.apply c')) :
    Relates (Spares l) m (commit c) fun _ m' => m' = m.tick.record c := by
  refine relates_commit (.tick h) (.record h hAll hPart) fun count c' hCut => ?_
  refine .record h (hPart count c' hCut) fun count' c'' hCut' => ?_
  obtain ⟨count'', hWhole⟩ := Disk.Change.exists_cut hCut hCut'
  exact hPart count'' c'' hWhole

/-- An empty file of an archive is at its place. -/
theorem spares_openEmpty (hPlain : Path.IsPlain name) (hName : name ∈ l.fileNames)
    (h : m.disk.WellFormed) :
    Relates (Spares l) m (openEmpty (Path.join l.directory name)) fun file m' =>
      ∃ dir, l.LeadsTo m'.disk dir ∧ m'.disk.HasFile ⟨dir, name⟩ file [] := by
  have hSpares : Relates (Spares l) m (openEmpty (Path.join l.directory name)) fun _ _ => True := by
    refine (relates_inspect (.refl h) _).bind Spares.trans ?_
    rintro slot m₁ - ⟨hSlot, rfl⟩
    obtain ⟨-, dir, hLeads, rfl, -⟩ := l.locateFile_join_ok hPlain hSlot
    refine (spares_commit h (.makeEmpty h hLeads hName) (by rintro _ _ ⟨⟩)).bind Spares.trans ?_
    intro u m₂ hMade _
    exact ⟨(relates_inspect (.refl hMade.wellFormed) _).related, fun _ _ _ => trivial⟩
  refine ⟨hSpares.related, fun file m' hOk => ?_⟩
  obtain ⟨-, dir, -, hLeads, -, hFile, -⟩ := Layout.openEmpty_join_ok hPlain h hOk
  exact ⟨dir, hLeads, hFile⟩

theorem spares_write (h : m.disk.WellFormed) (hLeads : l.LeadsTo m.disk dir)
    (hName : name ∈ l.fileNames) {old : List UInt8} (hFile : m.disk.HasFile ⟨dir, name⟩ id old)
    (offset : Nat) (bytes : List UInt8) :
    Relates (Spares l) m (write id offset bytes) fun _ _ => True := by
  unfold write
  split
  · exact relates_pure (.refl h) trivial
  · split
    · exact relates_throw (.refl h) _
    · refine ⟨(spares_commit h (.edit h hLeads hName hFile _) ?_).related, fun _ _ _ => trivial⟩
      rintro count c' ⟨⟩
      exact .edit h hLeads hName hFile _

theorem spares_truncate (h : m.disk.WellFormed) (hLeads : l.LeadsTo m.disk dir)
    (hName : name ∈ l.fileNames) (hFile : m.disk.HasFile ⟨dir, name⟩ id bytes) (length : Nat) :
    Relates (Spares l) m (truncate id length) fun _ m' =>
      m' = m.tick.record (.resize id length) :=
  spares_commit h (.edit h hLeads hName hFile _) (by rintro _ _ ⟨⟩)

theorem spares_rename (hPlain : l.HasPlainNames) (h : m.disk.WellFormed) :
    Relates (Spares l) m (rename l.temporary l.metadata) fun _ _ => True := by
  refine ⟨?_, fun _ _ _ => trivial⟩
  cases hRename : rename l.temporary l.metadata m with
  | error e m' =>
      rcases rename_error hRename with rfl | rfl
      · exact .refl h
      · exact .tick h
  | ok u m' =>
      obtain ⟨source, target, id, hSource, hTarget, hEntry, rfl⟩ := rename_ok hRename
      obtain ⟨-, dir, hLeads, rfl, hSourceNode⟩ := l.locateFile_join_ok hPlain.temporary hSource
      obtain ⟨-, dir', hLeads', rfl, hTargetNode⟩ := l.locateFile_join_ok hPlain.metadata hTarget
      obtain rfl := hLeads.unique hLeads'
      exact .record h (.rename h hLeads hEntry hSourceNode hTargetNode) (by rintro _ _ ⟨⟩)

end Machine

/-! ## The directory -/

theorem Layout.spares_createDirectory (h : m.disk.WellFormed) :
    Machine.Relates (Machine.Spares l) m l.createDirectory fun _ _ => True := by
  have hAllows : l.AllowsDirectories (Machine.Spares l) :=
    { trans := Machine.Spares.trans
      last := fun h => .refl h.wellFormed
      tick := fun h => .tick h.wellFormed
      make := fun h hFree hNowhere =>
        .record h.wellFormed (.addDirectory h.wellFormed hFree hNowhere) (by rintro _ _ ⟨⟩) }
  exact relates_createDirectory hAllows (.refl h)

end FieldArchive

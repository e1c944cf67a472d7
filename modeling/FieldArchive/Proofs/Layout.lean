import FieldArchive.Layout
import FieldArchive.Proofs.Disk.Basic
import FieldArchive.Proofs.Disk.Path

/-!
# The places of an archive's files

The three files of an archive are in one directory, under names that differ.
If the text of the directory leads to a node, the text of each file leads to the
place of its name under that node, whether or not there is a file.
-/

namespace FieldArchive.Layout

/-- The name of the metadata file. -/
def metadataName (l : Layout) : String := l.stem ++ "." ++ metadataExtension

/-- The name of the file that becomes the metadata file. -/
def temporaryName (l : Layout) : String := l.stem ++ "." ++ metadataExtension ++ ".tmp"

/-- The name of the data file. -/
def dataName (l : Layout) : String := l.stem ++ "." ++ dataExtension

/-- The place of the metadata file. -/
def metadataSlot (l : Layout) (dir : NodeId) : Slot := ⟨dir, l.metadataName⟩

/-- The place of the file that becomes the metadata file. -/
def temporarySlot (l : Layout) (dir : NodeId) : Slot := ⟨dir, l.temporaryName⟩

/-- The place of the data file. -/
def dataSlot (l : Layout) (dir : NodeId) : Slot := ⟨dir, l.dataName⟩

variable {l : Layout} {dir : NodeId} {d d' : Disk} {name : String}

theorem length_metadataName (l : Layout) : l.metadataName.length = l.stem.length + 5 := by
  rw [metadataName, String.length_append, String.length_append]
  rfl

theorem length_temporaryName (l : Layout) : l.temporaryName.length = l.stem.length + 9 := by
  rw [temporaryName, String.length_append, String.length_append, String.length_append]
  rfl

theorem length_dataName (l : Layout) : l.dataName.length = l.stem.length + 4 := by
  rw [dataName, String.length_append, String.length_append]
  rfl

theorem temporaryName_ne_metadataName (l : Layout) : l.temporaryName ≠ l.metadataName := by
  intro h
  have hLength := congrArg String.length h
  rw [length_temporaryName, length_metadataName] at hLength
  omega

theorem temporaryName_ne_dataName (l : Layout) : l.temporaryName ≠ l.dataName := by
  intro h
  have hLength := congrArg String.length h
  rw [length_temporaryName, length_dataName] at hLength
  omega

theorem metadataName_ne_dataName (l : Layout) : l.metadataName ≠ l.dataName := by
  intro h
  have hLength := congrArg String.length h
  rw [length_metadataName, length_dataName] at hLength
  omega

theorem temporarySlot_ne_metadataSlot (l : Layout) (dir : NodeId) :
    l.temporarySlot dir ≠ l.metadataSlot dir :=
  fun h => l.temporaryName_ne_metadataName (congrArg Slot.name h)

theorem temporarySlot_ne_dataSlot (l : Layout) (dir : NodeId) :
    l.temporarySlot dir ≠ l.dataSlot dir :=
  fun h => l.temporaryName_ne_dataName (congrArg Slot.name h)

theorem metadataSlot_ne_dataSlot (l : Layout) (dir : NodeId) :
    l.metadataSlot dir ≠ l.dataSlot dir :=
  fun h => l.metadataName_ne_dataName (congrArg Slot.name h)

/-! ## Names that can be used -/

theorem isPlain_of_length (hSlash : '/' ∉ name.toList) (hLength : 4 ≤ name.length) :
    Path.IsPlain name where
  slash := hSlash
  nonempty h := by
    subst h
    exact absurd hLength (by decide)
  ne_here h := by
    subst h
    exact absurd hLength (by decide)
  ne_up h := by
    subst h
    exact absurd hLength (by decide)

/-- The names of the files of a layout are plain. -/
structure HasPlainNames (l : Layout) : Prop where
  metadata : Path.IsPlain l.metadataName
  temporary : Path.IsPlain l.temporaryName
  data : Path.IsPlain l.dataName

theorem hasPlainNames_of_make {directory stem : String} (h : make directory stem = .ok l) :
    l.HasPlainNames := by
  have hSlash : '/' ∉ l.stem.toList := by
    unfold make at h
    split at h
    · cases h
    · split at h
      · cases h
      · next hNone =>
          cases h
          intro hMem
          simp [hMem] at hNone
  refine ⟨isPlain_of_length ?_ ?_, isPlain_of_length ?_ ?_, isPlain_of_length ?_ ?_⟩
  · simp [metadataName, metadataExtension, hSlash]
  · rw [length_metadataName]
    omega
  · simp [temporaryName, metadataExtension, hSlash]
  · rw [length_temporaryName]
    omega
  · simp [dataName, dataExtension, hSlash]
  · rw [length_dataName]
    omega

/-- The file system takes a name as that of a file in the directory. -/
structure Admits (l : Layout) (name : String) : Prop where
  plain : Path.IsPlain name
  path : Disk.namesOf (Path.join l.directory name) = .ok (Path.proper l.directory ++ [name])
  short : ¬ Disk.maxNameLength < name.utf8ByteSize

/-- The file system takes the names of all files of a layout. -/
structure IsUsable (l : Layout) : Prop where
  metadata : l.Admits l.metadataName
  temporary : l.Admits l.temporaryName
  data : l.Admits l.dataName

theorem IsUsable.hasPlainNames (h : l.IsUsable) : l.HasPlainNames :=
  ⟨h.metadata.plain, h.temporary.plain, h.data.plain⟩

/-- The text of the directory leads to a node. -/
def LeadsTo (l : Layout) (d : Disk) (dir : NodeId) : Prop :=
  ∃ trail, d.walk [] (Path.proper l.directory) = .ok trail ∧ Disk.here trail = dir

theorem LeadsTo.mono (h : l.LeadsTo d dir) (hKeep : Disk.KeepsDirectories d d') :
    l.LeadsTo d' dir := by
  obtain ⟨trail, hWalk, hHere⟩ := h
  exact ⟨trail, Disk.walk_mono hKeep hWalk, hHere⟩

/-- The text of a directory leads to one node. -/
theorem LeadsTo.unique {dir' : NodeId} (h : l.LeadsTo d dir) (h' : l.LeadsTo d dir') :
    dir = dir' := by
  obtain ⟨trail, hWalk, rfl⟩ := h
  obtain ⟨trail', hWalk', rfl⟩ := h'
  rw [hWalk] at hWalk'
  rw [Except.ok.inj hWalk']

/-! ## Locating files -/

theorem targetOf_concat (hPlain : Path.IsPlain name) (d : Disk) (names : List String) :
    d.targetOf (names ++ [name]) =
      match d.walk [] names with
      | .error e => .error e
      | .ok trail => .ok (.slot ⟨Disk.here trail, name⟩) := by
  rw [Disk.targetOf, List.dropLast_concat, List.getLast?_concat]
  cases d.walk [] names with
  | error e => rfl
  | ok trail =>
      dsimp only
      split
      · next h => cases h
      · next h => exact absurd (Option.some.inj h) hPlain.ne_here
      · next h => exact absurd (Option.some.inj h) hPlain.ne_up
      · next h =>
          cases h
          rfl

theorem locate_join (h : l.LeadsTo d dir) (hName : l.Admits name) :
    d.locate (Path.join l.directory name) = .ok (.slot ⟨dir, name⟩) := by
  obtain ⟨trail, hWalk, rfl⟩ := h
  rw [Disk.locate, hName.path]
  simp only [targetOf_concat hName.plain, hWalk]

/-- A text of a name that is located leads to its place. -/
theorem locate_join_ok (hPlain : Path.IsPlain name) {target : Target}
    (h : d.locate (Path.join l.directory name) = .ok target) :
    Disk.namesOf (Path.join l.directory name) = .ok (Path.proper l.directory ++ [name]) ∧
      ∃ dir, l.LeadsTo d dir ∧ target = .slot ⟨dir, name⟩ := by
  unfold Disk.locate at h
  cases hNames : Disk.namesOf (Path.join l.directory name) with
  | error e =>
      rw [hNames] at h
      cases h
  | ok names =>
      have hAll : names = Path.proper l.directory ++ [name] := by
        rw [← Path.names_join hPlain l.directory]
        exact Disk.eq_names_of_namesOf hNames
      subst hAll
      simp only [hNames, targetOf_concat hPlain] at h
      cases hWalk : d.walk [] (Path.proper l.directory) with
      | error e =>
          rw [hWalk] at h
          cases h
      | ok trail =>
          rw [hWalk] at h
          exact ⟨rfl, Disk.here trail, ⟨trail, hWalk, rfl⟩, (Except.ok.inj h).symm⟩

theorem locateFile_join (h : l.LeadsTo d dir) (hName : l.Admits name) :
    d.locateFile (Path.join l.directory name) =
      match d.nodeAt? ⟨dir, name⟩ with
      | some .directory => .error .isDirectory
      | _ => .ok ⟨dir, name⟩ := by
  have hLocate := locate_join h hName
  have hSlash := Path.endsInSlash_join hName.plain l.directory
  cases hNode : d.nodeAt? ⟨dir, name⟩ with
  | none => simp [Disk.locateFile, hLocate, hSlash, hName.short, hNode]
  | some node => cases node <;> simp [Disk.locateFile, hLocate, hSlash, hName.short, hNode]

/-- A file that is located has a name that can be used. -/
theorem locateFile_join_ok (hPlain : Path.IsPlain name) {slot : Slot}
    (h : d.locateFile (Path.join l.directory name) = .ok slot) :
    l.Admits name ∧ ∃ dir, l.LeadsTo d dir ∧ slot = ⟨dir, name⟩ ∧
      d.nodeAt? slot ≠ some .directory := by
  unfold Disk.locateFile at h
  cases hLocate : d.locate (Path.join l.directory name) with
  | error e =>
      rw [hLocate] at h
      cases h
  | ok target =>
      obtain ⟨hPath, dir, hLeads, rfl⟩ := locate_join_ok hPlain hLocate
      simp only [hLocate, Path.endsInSlash_join hPlain, Bool.false_eq_true, if_false] at h
      split at h
      · cases h
      · next hShort =>
          split at h
          · cases h
          · next hNode =>
              cases h
              exact ⟨⟨hPlain, hPath, hShort⟩, dir, hLeads, rfl, hNode⟩

theorem locateFile_join_of_leadsTo (hLeads : l.LeadsTo d dir) (hName : l.Admits name)
    {slot : Slot} (h : d.locateFile (Path.join l.directory name) = .ok slot) :
    slot = ⟨dir, name⟩ ∧ d.nodeAt? slot ≠ some .directory := by
  rw [locateFile_join hLeads hName] at h
  split at h
  · cases h
  · next hNode =>
      cases h
      exact ⟨rfl, hNode⟩

theorem locateFile_of_hasFile (h : l.LeadsTo d dir) (hName : l.Admits name) {id : NodeId}
    {bytes : List UInt8} (hFile : d.HasFile ⟨dir, name⟩ id bytes) :
    d.locateFile (Path.join l.directory name) = .ok ⟨dir, name⟩ := by
  rw [locateFile_join h hName, Disk.nodeAt?, hFile.entry]
  simp [hFile.node]

theorem locateFile_of_free (h : l.LeadsTo d dir) (hName : l.Admits name)
    (hFree : d.entries.get? ⟨dir, name⟩ = none) :
    d.locateFile (Path.join l.directory name) = .ok ⟨dir, name⟩ := by
  rw [locateFile_join h hName, Disk.nodeAt?, hFree]
  rfl

/-- A text of a name leads to a node if the name stands in the directory. -/
theorem find_join_ok_iff (hPlain : Path.IsPlain name) {id : NodeId} :
    d.find (Path.join l.directory name) = .ok id ↔
      l.Admits name ∧ ∃ dir, l.LeadsTo d dir ∧ d.entries.get? ⟨dir, name⟩ = some id := by
  constructor
  · intro h
    unfold Disk.find at h
    cases hLocate : d.locate (Path.join l.directory name) with
    | error e =>
        rw [hLocate] at h
        cases h
    | ok target =>
        obtain ⟨hPath, dir, hLeads, rfl⟩ := locate_join_ok hPlain hLocate
        simp only [hLocate, Disk.lookup, Path.endsInSlash_join hPlain, Bool.false_eq_true,
          if_false] at h
        -- a name that is too long leads nowhere
        by_cases hLong : Disk.maxNameLength < name.utf8ByteSize
        · simp [hLong] at h
        · simp only [hLong, if_false] at h
          cases hEntry : d.entries.get? ⟨dir, name⟩ with
          | none => simp [hEntry] at h
          | some node =>
              simp only [hEntry] at h
              have hSame : node = id := by
                split at h <;> exact Except.ok.inj h
              exact ⟨⟨hPlain, hPath, hLong⟩, dir, hLeads, hSame ▸ hEntry⟩
  · rintro ⟨hName, dir, hLeads, hEntry⟩
    have hLookup : d.lookup ⟨dir, name⟩ = .ok id := by
      simp only [Disk.lookup, hName.short, if_false, hEntry]
    simp only [Disk.find, locate_join hLeads hName, hLookup, Path.endsInSlash_join hPlain,
      Bool.false_eq_true, if_false]
    split <;> rfl

theorem find_of_hasFile (h : l.LeadsTo d dir) (hName : l.Admits name) {id : NodeId}
    {bytes : List UInt8} (hFile : d.HasFile ⟨dir, name⟩ id bytes) :
    d.find (Path.join l.directory name) = .ok id :=
  (find_join_ok_iff hName.plain).2 ⟨hName, dir, h, hFile.entry⟩

theorem readBytes_join_ok (hPlain : Path.IsPlain name) {bytes : List UInt8}
    (h : d.readBytes (Path.join l.directory name) = .ok bytes) :
    l.Admits name ∧ ∃ dir id, l.LeadsTo d dir ∧ d.HasFile ⟨dir, name⟩ id bytes := by
  unfold Disk.readBytes at h
  split at h
  · cases h
  · next id hFind =>
      obtain ⟨hName, dir, hLeads, hEntry⟩ := (find_join_ok_iff hPlain).1 hFind
      split at h
      · next hNode =>
          cases h
          exact ⟨hName, dir, id, hLeads, hEntry, hNode⟩
      · cases h

theorem exists?_of_hasFile (h : l.LeadsTo d dir) (hName : l.Admits name) {id : NodeId}
    {bytes : List UInt8} (hFile : d.HasFile ⟨dir, name⟩ id bytes) :
    d.exists? (Path.join l.directory name) = true := by
  rw [Disk.exists?, find_of_hasFile h hName hFile]
  rfl

/-- A file that is not found leaves its place free. -/
theorem free_of_missing (h : l.LeadsTo d dir) (hName : l.Admits name)
    (hMissing : d.exists? (Path.join l.directory name) = false) :
    d.entries.get? ⟨dir, name⟩ = none := by
  by_contra hTaken
  obtain ⟨id, hEntry⟩ := Option.ne_none_iff_exists'.1 hTaken
  rw [Disk.exists?, (find_join_ok_iff hName.plain).2 ⟨hName, dir, h, hEntry⟩] at hMissing
  cases hMissing

theorem readBytes_of_hasFile (h : l.LeadsTo d dir) (hName : l.Admits name) {id : NodeId}
    {bytes : List UInt8} (hFile : d.HasFile ⟨dir, name⟩ id bytes) :
    d.readBytes (Path.join l.directory name) = .ok bytes := by
  simp only [Disk.readBytes, find_of_hasFile h hName hFile, hFile.node]

end FieldArchive.Layout

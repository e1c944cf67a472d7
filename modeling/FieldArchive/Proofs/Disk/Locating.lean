import FieldArchive.Proofs.Disk.Basic

/-!
# Where texts lead while a disk changes

A text that asks for a file leads to one place for as long as directories are
kept, so a file that is put at that place is found under the text.
-/

namespace FieldArchive.Disk

variable {d d' : Disk} {text : String} {slot : Slot} {id : NodeId} {bytes : List UInt8}

theorem targetOf_mono (hKeep : KeepsDirectories d d') {names : List String} {target : Target}
    (h : d.targetOf names = .ok target) : d'.targetOf names = .ok target := by
  unfold targetOf at h ⊢
  cases hWalk : d.walk [] names.dropLast with
  | error e =>
      rw [hWalk] at h
      cases h
  | ok trail =>
      rw [hWalk] at h
      rwa [walk_mono hKeep hWalk]

/-- Where directories are kept, a text leads where it led. -/
theorem locate_mono (hKeep : KeepsDirectories d d') {target : Target}
    (h : d.locate text = .ok target) : d'.locate text = .ok target := by
  unfold locate at h ⊢
  cases hNames : namesOf text with
  | error e =>
      rw [hNames] at h
      cases h
  | ok names =>
      rw [hNames] at h
      exact targetOf_mono hKeep h

theorem locateFile_ok_iff : d.locateFile text = .ok slot ↔
    d.locate text = .ok (.slot slot) ∧ Path.endsInSlash text = false ∧
      ¬ maxNameLength < slot.name.utf8ByteSize ∧ d.nodeAt? slot ≠ some .directory := by
  unfold locateFile
  cases d.locate text with
  | error e => simp
  | ok target =>
      cases target with
      | directory id => simp
      | slot place =>
          simp only [Except.ok.injEq, Target.slot.injEq]
          constructor
          · intro h
            split at h
            · cases h
            · next hSlash =>
                split at h
                · cases h
                · next hShort =>
                    split at h
                    · cases h
                    · next hNode =>
                        cases h
                        exact ⟨rfl, by simpa using hSlash, hShort, hNode⟩
          · rintro ⟨rfl, hSlash, hShort, hNode⟩
            rw [if_neg (by simp [hSlash]), if_neg hShort]
            split
            · next hDirectory => exact absurd hDirectory hNode
            · rfl

/-- The place of a file stays the same while directories are kept and none takes it. -/
theorem locateFile_mono (hKeep : KeepsDirectories d d') (h : d.locateFile text = .ok slot)
    (hNode : d'.nodeAt? slot ≠ some .directory) : d'.locateFile text = .ok slot := by
  obtain ⟨hLocate, hSlash, hShort, -⟩ := locateFile_ok_iff.1 h
  exact locateFile_ok_iff.2 ⟨locate_mono hKeep hLocate, hSlash, hShort, hNode⟩

/-- Editing a file makes no directory. -/
theorem directory_of_edit {f : List UInt8 → List UInt8}
    (h : (d.edit id f).nodeAt? slot = some .directory) : d.nodeAt? slot = some .directory := by
  simp only [nodeAt?, edit_entries] at h ⊢
  cases hEntry : d.entries.get? slot with
  | none => simp [hEntry] at h
  | some id' =>
      simp only [hEntry, Option.bind_some] at h ⊢
      by_cases hSame : id = id'
      · subst hSame
        simp only [edit, List.getElem?_modify_eq, Option.map_eq_map, Option.map_eq_some_iff] at h
        obtain ⟨node, hNode, hEdited⟩ := h
        cases node with
        | file bytes => cases hEdited
        | directory => exact hNode
      · rwa [edit_node_ne hSame] at h

/-- Emptying a file makes no directory. -/
theorem directory_of_makeEmpty {slot' : Slot} (hWell : d.WellFormed)
    (h : (d.apply (.makeEmpty slot')).nodeAt? slot = some .directory) :
    d.nodeAt? slot = some .directory := by
  simp only [apply] at h
  split at h
  · exact directory_of_edit h
  · rw [nodeAt?_addNode hWell] at h
    split at h
    · cases h
    · exact h

theorem HasFile.nodeAt?_ne (h : d.HasFile slot id bytes) : d.nodeAt? slot ≠ some .directory := by
  rw [h.nodeAt?_eq]
  simp

/-- A file at the place of a text is found under the text. -/
theorem find_of_locateFile (h : d.locateFile text = .ok slot) (hFile : d.HasFile slot id bytes) :
    d.find text = .ok id := by
  obtain ⟨hLocate, hSlash, hShort, -⟩ := locateFile_ok_iff.1 h
  have hLookup : d.lookup slot = .ok id := by
    rw [lookup, if_neg hShort, hFile.entry]
  simp [find, hLocate, hLookup, hFile.node, hSlash]

theorem readBytes_of_locateFile (h : d.locateFile text = .ok slot)
    (hFile : d.HasFile slot id bytes) : d.readBytes text = .ok bytes := by
  simp only [readBytes, find_of_locateFile h hFile, hFile.node]

end FieldArchive.Disk

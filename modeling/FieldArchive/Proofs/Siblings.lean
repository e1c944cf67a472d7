import FieldArchive.Proofs.Layout

/-!
# Archives of one directory

A stem may end in anything, `.json` and `.tmp` included, so the name of a file of one
archive may begin like one of another archive.  The names differ nevertheless: those of
different kinds end in different letters, and those of one kind end alike and differ in what
comes before.
-/

namespace FieldArchive.Layout

/-- The names of the files of an archive. -/
def fileNames (l : Layout) : List String := [l.metadataName, l.temporaryName, l.dataName]

/-- The texts of the files of an archive. -/
def paths (l : Layout) : List String := [l.metadata, l.temporary, l.data]

variable {l r : Layout} {name : String}

theorem paths_eq (l : Layout) : l.paths = l.fileNames.map (Path.join l.directory) := rfl

/-! ## Endings -/

theorem getLast?_metadataName (l : Layout) : l.metadataName.toList.getLast? = some 'n' := by
  rw [metadataName, String.toList_append,
    List.getLast?_append_of_ne_nil _ (by simp [metadataExtension])]
  rfl

theorem getLast?_temporaryName (l : Layout) : l.temporaryName.toList.getLast? = some 'p' := by
  rw [temporaryName, String.toList_append, List.getLast?_append_of_ne_nil _ (by simp)]
  rfl

theorem getLast?_dataName (l : Layout) : l.dataName.toList.getLast? = some 't' := by
  rw [dataName, String.toList_append,
    List.getLast?_append_of_ne_nil _ (by simp [dataExtension])]
  rfl

theorem metadataName_inj : l.metadataName = r.metadataName ↔ l.stem = r.stem := by
  rw [metadataName, metadataName, String.append_left_inj, String.append_left_inj]

theorem temporaryName_inj : l.temporaryName = r.temporaryName ↔ l.stem = r.stem := by
  rw [temporaryName, temporaryName, String.append_left_inj, String.append_left_inj,
    String.append_left_inj]

theorem dataName_inj : l.dataName = r.dataName ↔ l.stem = r.stem := by
  rw [dataName, dataName, String.append_left_inj, String.append_left_inj]

/-! ## Names -/

theorem nodup_fileNames (l : Layout) : l.fileNames.Nodup := by
  have hFirst := l.temporaryName_ne_metadataName
  have hSecond := l.metadataName_ne_dataName
  have hThird := l.temporaryName_ne_dataName
  simp only [fileNames, List.nodup_cons, List.mem_cons, List.not_mem_nil, or_false, not_or,
    List.nodup_nil, and_true, not_false_eq_true]
  exact ⟨⟨hFirst.symm, hSecond⟩, hThird⟩

/-- No file of an archive has the name of a file of another archive. -/
theorem not_mem_fileNames (hStem : r.stem ≠ l.stem) (hName : name ∈ r.fileNames) :
    name ∉ l.fileNames := by
  -- names of different kinds have different last letters
  have hLast : ∀ {name other : String} {c c' : Char}, name.toList.getLast? = some c →
      other.toList.getLast? = some c' → c ≠ c' → name ≠ other := by
    rintro name _ c c' hc hc' hNe rfl
    exact hNe (Option.some.inj (hc.symm.trans hc'))
  have hMetadata : r.metadataName ≠ l.metadataName := fun h => hStem (metadataName_inj.1 h)
  have hTemporary : r.temporaryName ≠ l.temporaryName := fun h => hStem (temporaryName_inj.1 h)
  have hData : r.dataName ≠ l.dataName := fun h => hStem (dataName_inj.1 h)
  simp only [fileNames, List.mem_cons, List.not_mem_nil, or_false] at hName
  simp only [fileNames, List.mem_cons, List.not_mem_nil, or_false, not_or]
  rcases hName with rfl | rfl | rfl
  · have hEnd := r.getLast?_metadataName
    exact ⟨hMetadata, hLast hEnd l.getLast?_temporaryName (by decide),
      hLast hEnd l.getLast?_dataName (by decide)⟩
  · have hEnd := r.getLast?_temporaryName
    exact ⟨hLast hEnd l.getLast?_metadataName (by decide), hTemporary,
      hLast hEnd l.getLast?_dataName (by decide)⟩
  · have hEnd := r.getLast?_dataName
    exact ⟨hLast hEnd l.getLast?_metadataName (by decide),
      hLast hEnd l.getLast?_temporaryName (by decide), hData⟩

theorem HasPlainNames.isPlain (h : l.HasPlainNames) (hName : name ∈ l.fileNames) :
    Path.IsPlain name := by
  simp only [fileNames, List.mem_cons, List.not_mem_nil, or_false] at hName
  rcases hName with rfl | rfl | rfl
  · exact h.metadata
  · exact h.temporary
  · exact h.data

theorem make_eq_ok {directory stem : String} (h : make directory stem = .ok l) :
    l = ⟨directory, stem⟩ := by
  unfold make at h
  split at h
  · cases h
  · split at h
    · cases h
    · cases h
      rfl

/-- Another archive of the same directory. -/
structure IsBeside (l r : Layout) : Prop where
  directory : r.directory = l.directory
  stem : r.stem ≠ l.stem
  plain : r.HasPlainNames

theorem isBeside_of_make {directory stem other : String} (h : make directory stem = .ok l)
    (h' : make directory other = .ok r) (hNe : other ≠ stem) : l.IsBeside r := by
  have hPlain := hasPlainNames_of_make h'
  obtain rfl := make_eq_ok h
  obtain rfl := make_eq_ok h'
  exact ⟨rfl, hNe, hPlain⟩

/-- The texts of both directories lead to the same node. -/
theorem IsBeside.leadsTo_iff (h : l.IsBeside r) {d : Disk} {dir : NodeId} :
    r.LeadsTo d dir ↔ l.LeadsTo d dir := by
  rw [LeadsTo, LeadsTo, h.directory]

/-! ## Texts -/

/-- The texts of all files of two archives of one directory lead to different names. -/
theorem nodup_names_paths (hPlain : l.HasPlainNames) (h : l.IsBeside r) :
    ((l.paths ++ r.paths).map Path.names).Nodup := by
  have hNames : (l.fileNames ++ r.fileNames).Nodup := by
    refine List.nodup_append'.2 ⟨nodup_fileNames l, nodup_fileNames r, ?_⟩
    exact fun name hName hOther => not_mem_fileNames h.stem hOther hName
  have hPaths : (l.paths ++ r.paths).map Path.names =
      (l.fileNames ++ r.fileNames).map fun name => Path.proper l.directory ++ [name] := by
    rw [paths_eq, paths_eq, h.directory, ← List.map_append, List.map_map]
    refine List.map_congr_left fun name hName => Path.names_join ?_ l.directory
    rcases List.mem_append.1 hName with hMine | hOther
    · exact hPlain.isPlain hMine
    · exact h.plain.isPlain hOther
  rw [hPaths]
  refine hNames.map fun name name' hSame => ?_
  exact List.singleton_inj.1 (List.append_cancel_left hSame)

end FieldArchive.Layout

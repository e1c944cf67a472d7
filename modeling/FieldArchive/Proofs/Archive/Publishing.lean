import FieldArchive.Proofs.Archive.Growing

/-!
# What a disk publishes

`Disk.PublishesDocument` says of a disk that its metadata file holds a document and that the
data file begins with some bytes, of which the document vouches for the first ones.
Nothing is said about the document itself: it may describe fields that no tables can
be built from.  Two disks that publish the same, or of which the second publishes more,
are what a reader may meet one after the other (`Disk.PublishesDocument.grows`).

Opening an archive for writing leaves its disk publishing, whether the archive is found
or created, and continues the archive wherever it stops.
-/

namespace FieldArchive

/-- The metadata file of a disk holds a document, and its data file begins with `front`,
of which the document vouches for the first bytes. -/
structure Disk.PublishesDocument (l : Layout) (dir : NodeId) (doc : Document) (file : NodeId)
    (front : List UInt8) (d : Disk) : Prop where
  readsBack : d.ReadsBack l
  leadsTo : l.LeadsTo d dir
  metadataName : l.Admits l.metadataName
  dataName : l.Admits l.dataName
  metadata : ∃ node bytes, d.HasFile (l.metadataSlot dir) node bytes ∧ doc.IsOf bytes
  dataFile : ∃ data, d.HasFile (l.dataSlot dir) file data ∧ front <+: data
  length_le : doc.dataLength ≤ front.length

variable {l : Layout} {dir : NodeId} {doc doc' : Document} {file : NodeId}
  {front front' part data : List UInt8} {d d' : Disk} {m m' : Machine}

namespace Disk.PublishesDocument

/-- A change that keeps the metadata file and the front of the data file. -/
theorem of_files (h : d.PublishesDocument l dir doc file front) (hReads : d'.ReadsBack l)
    (hDirectories : KeepsDirectories d d')
    (hMetadata : ∀ {node bytes}, d.HasFile (l.metadataSlot dir) node bytes →
      d'.HasFile (l.metadataSlot dir) node bytes)
    (hData : ∀ {data}, d.HasFile (l.dataSlot dir) file data → front <+: data →
      ∃ data', d'.HasFile (l.dataSlot dir) file data' ∧ front' <+: data')
    (hLe : doc.dataLength ≤ front'.length) : d'.PublishesDocument l dir doc file front' := by
  obtain ⟨node, bytes, hFile, hDoc⟩ := h.metadata
  obtain ⟨data, hOld, hFront⟩ := h.dataFile
  exact ⟨hReads, h.leadsTo.mono hDirectories, h.metadataName, h.dataName,
    ⟨node, bytes, hMetadata hFile, hDoc⟩, hData hOld hFront, hLe⟩

/-- Less of the data file may be promised, down to what the document vouches for. -/
theorem shorten (h : d.PublishesDocument l dir doc file front) (hFront : front' <+: front)
    (hLe : doc.dataLength ≤ front'.length) : d.PublishesDocument l dir doc file front' :=
  h.of_files h.readsBack (.refl d) id (fun hFile hOld => ⟨_, hFile, hFront.trans hOld⟩) hLe

theorem isStable (l : Layout) (dir : NodeId) (doc : Document) (file : NodeId)
    (front : List UInt8) : IsStable l dir (PublishesDocument l dir doc file front) where
  wellFormed h := h.readsBack.wellFormed
  leadsTo h := h.leadsTo
  makeEmpty {d} h := by
    have hWell := h.readsBack.wellFormed
    refine h.of_files (h.readsBack.makeEmpty l.temporaryName_ne_metadataName)
      (keepsDirectories_makeEmpty d _) ?_ ?_ h.length_le
    · intro node bytes hFile
      exact hFile.makeEmpty_ne hWell (l.temporarySlot_ne_metadataSlot dir)
    · intro data hFile hFront
      exact ⟨data, hFile.makeEmpty_ne hWell (l.temporarySlot_ne_dataSlot dir), hFront⟩
  edit {d node old} f h hFile := by
    have hWell := h.readsBack.wellFormed
    refine h.of_files (h.readsBack.edit hFile l.temporaryName_ne_metadataName f)
      (keepsDirectories_edit d _ _) ?_ ?_ h.length_le
    · intro node' bytes hOther
      exact hOther.edit_ne (hFile.id_ne hWell hOther (l.temporarySlot_ne_metadataSlot dir)) f
    · intro data hOther hFront
      exact ⟨data, hOther.edit_ne (hFile.id_ne hWell hOther (l.temporarySlot_ne_dataSlot dir)) f,
        hFront⟩

/-- Editing the data file. -/
theorem edit_data (h : d.PublishesDocument l dir doc file front) (f : List UInt8 → List UInt8)
    (hFront : ∀ junk, front' <+: f (front ++ junk)) (hLe : doc.dataLength ≤ front'.length) :
    (d.edit file f).PublishesDocument l dir doc file front' := by
  have hWell := h.readsBack.wellFormed
  obtain ⟨data, hData, -⟩ := h.dataFile
  refine h.of_files (h.readsBack.edit hData l.metadataName_ne_dataName.symm f)
    (keepsDirectories_edit d _ _) ?_ ?_ hLe
  · intro node bytes hFile
    exact hFile.edit_ne (hData.id_ne hWell hFile (l.metadataSlot_ne_dataSlot dir).symm) f
  · rintro data hFile ⟨junk, rfl⟩
    exact ⟨_, hFile.edit f, hFront junk⟩

/-- Bytes that are written after the front continue it. -/
theorem write (h : d.PublishesDocument l dir doc file front) (part : List UInt8) :
    (d.apply (.write file front.length part)).PublishesDocument l dir doc file (front ++ part) := by
  refine h.edit_data _ (fun junk => ?_) ?_
  · rw [overwrite_append]
    exact List.prefix_append _ _
  · rw [List.length_append]
    have hLe := h.length_le
    omega

/-- The data file is cut after the front. -/
theorem resize (h : d.PublishesDocument l dir doc file front) :
    (d.apply (.resize file front.length)).PublishesDocument l dir doc file front := by
  refine h.edit_data _ (fun junk => ?_) h.length_le
  rw [resize_append]

/-- The metadata file is replaced. -/
theorem of_rename (hReads : d.ReadsBack l) (hLeads : l.LeadsTo d dir)
    (hMetadataName : l.Admits l.metadataName) (hDataName : l.Admits l.dataName)
    (hData : d.HasFile (l.dataSlot dir) file data) (hFront : front <+: data)
    {node : NodeId} {bytes : List UInt8} (hFile : d.HasFile (l.temporarySlot dir) node bytes)
    (hDoc : doc.IsOf bytes) (hDocReads : doc.readsBack = true)
    (hNode : d.nodeAt? (l.metadataSlot dir) ≠ some .directory)
    (hLe : doc.dataLength ≤ front.length) :
    (d.apply (.rename (l.temporarySlot dir) (l.metadataSlot dir))).PublishesDocument
      l dir doc file front := by
  have hSource : d.nodeAt? (l.temporarySlot dir) ≠ some .directory := by
    rw [hFile.nodeAt?_eq]
    simp
  refine ⟨hReads.rename hFile hDoc hDocReads, ?_, hMetadataName, hDataName,
    ⟨node, bytes, hFile.rename hReads.wellFormed _, hDoc⟩, ⟨data, ?_, hFront⟩, hLe⟩
  · exact hLeads.mono (keepsDirectories_rename hReads.wellFormed hSource hNode)
  · exact hData.rename_ne hReads.wellFormed hFile.entry (l.temporarySlot_ne_dataSlot dir)
      (l.metadataSlot_ne_dataSlot dir)

theorem load (h : d.PublishesDocument l dir doc file front) :
    Document.load d l.metadata = .ok doc := by
  obtain ⟨node, bytes, hFile, hDoc⟩ := h.metadata
  exact Document.load_eq_ok_iff.2
    ⟨bytes, l.readBytes_of_hasFile h.leadsTo h.metadataName hFile, hDoc⟩

theorem find (h : d.PublishesDocument l dir doc file front) : d.find l.data = .ok file := by
  obtain ⟨data, hFile, -⟩ := h.dataFile
  exact l.find_of_hasFile h.leadsTo h.dataName hFile

/-- The recorded bytes begin the data file. -/
theorem node_take (h : d.PublishesDocument l dir doc file front) {count : Nat}
    (hLe : count ≤ front.length) :
    (d.nodes[file]?).map (Node.take count) = some (.file (front.take count)) := by
  obtain ⟨data, hFile, junk, rfl⟩ := h.dataFile
  rw [hFile.node, Option.map_some, Node.take, List.take_append_of_le_length hLe]

/-- A disk that publishes a document which continues another one, with the same
recorded bytes. -/
theorem grows (h : d.PublishesDocument l dir doc file front)
    (h' : d'.PublishesDocument l dir doc' file front') (hPrecedes : doc.Precedes doc')
    (hFront : front'.take doc.dataLength = front.take doc.dataLength) : l.Grows d d' := by
  intro loaded hLoad
  obtain rfl : doc = loaded := Except.ok.inj (h.load.symm.trans hLoad)
  refine ⟨⟨doc', h'.load, hPrecedes⟩, fun id hFind => ?_⟩
  obtain rfl : file = id := Except.ok.inj (h.find.symm.trans hFind)
  refine ⟨h'.find, ?_⟩
  rw [h.node_take h.length_le, h'.node_take (hPrecedes.dataLength.trans h'.length_le), hFront]

theorem fixes (l : Layout) (dir : NodeId) (doc : Document) (file : NodeId)
    (front : List UInt8) : Machine.Fixes l (PublishesDocument l dir doc file front) where
  readsBack _ h := h.readsBack
  grows _ _ h h' := h.grows h' (.refl doc) rfl

/-- A document that is loaded is published with the bytes it vouches for. -/
theorem of_load (hPlain : l.HasPlainNames) (h : d.ReadsBack l)
    (hLoad : Document.load d l.metadata = .ok doc) (hFind : d.find l.data = .ok file)
    (hNode : d.nodes[file]? = some (.file data)) (hLe : doc.dataLength ≤ data.length) :
    ∃ dir, d.PublishesDocument l dir doc file (data.take doc.dataLength) := by
  obtain ⟨bytes, hBytes, hDoc⟩ := Document.load_eq_ok_iff.1 hLoad
  obtain ⟨hMetadataName, dir, node, hLeads, hFile⟩ := l.readBytes_join_ok hPlain.metadata hBytes
  obtain ⟨hDataName, dir', hLeads', hEntry⟩ := (l.find_join_ok_iff hPlain.data).1 hFind
  obtain rfl := hLeads.unique hLeads'
  refine ⟨dir, h, hLeads, hMetadataName, hDataName, ⟨node, bytes, hFile, hDoc⟩,
    ⟨data, ⟨hEntry, hNode⟩, List.take_prefix _ _⟩, ?_⟩
  rw [List.length_take]
  omega

end Disk.PublishesDocument

/-! ## The data file of an archive that is there -/

/-- An archive's data file that was opened: it holds the recorded bytes. -/
def Arena.Opens (l : Layout) (doc : Document) (arena : Arena) (m : Machine) : Prop :=
  arena.writable = true ∧ arena.length = doc.dataLength ∧ ∃ dir front,
    front.length = doc.dataLength ∧ m.disk.PublishesDocument l dir doc arena.file front

/-- Opening the data file cuts off what is not recorded. -/
theorem Arena.continues_openAppend (hPlain : l.HasPlainNames) (h : m.disk.ReadsBack l)
    (hLoad : Document.load m.disk l.metadata = .ok doc) :
    Machine.Continues l m (openAppend l.data doc.dataLength) (Arena.Opens l doc) := by
  have hOpen : Machine.Continues l m (Machine.openWritable l.data) _ :=
    Machine.continues_iff.2 (Machine.relates_openWritable (.refl h) l.data)
  refine (hOpen.adaptExcept _).bind ?_
  rintro file m₁ - ⟨rfl, hFind, data, hNode⟩
  refine .get_bind ((Machine.continues_ofExcept h _).bind ?_)
  rintro u m₂ - ⟨hCheck, rfl⟩
  have hLe : doc.dataLength ≤ data.length := by
    rw [Disk.size_of_file hNode] at hCheck
    exact checkPhysical_eq_ok_iff.1 hCheck
  obtain ⟨dir, hPublishes⟩ := Disk.PublishesDocument.of_load hPlain h hLoad hFind hNode hLe
  have hLength : (data.take doc.dataLength).length = doc.dataLength := by
    rw [List.length_take, Nat.min_eq_left hLe]
  split
  · -- the file is cut, and the system asked to make this durable
    have hCut := hPublishes.resize
    rw [hLength] at hCut
    refine ((Machine.continues_commit (c := .resize file doc.dataLength) (fun _ => rfl) h
      hCut.readsBack (hPublishes.grows hCut (.refl doc) rfl)).adaptExcept _).bind ?_
    rintro u m₃ hReads rfl
    refine ((Machine.continues_sync hReads).adaptExcept _).bind ?_
    rintro u m₄ hLast rfl
    exact Machine.continues_pure hLast ⟨rfl, rfl, dir, _, hLength, hCut⟩
  · exact Machine.continues_pure h ⟨rfl, rfl, dir, _, hLength, hPublishes⟩

/-- Starting a data file, where this may be done. -/
theorem Arena.continues_create (hPlain : l.HasPlainNames) (h : m.disk.ReadsBack l)
    (hGrows : ∀ dir, l.Admits l.dataName → l.LeadsTo m.disk dir →
      l.Grows m.disk (m.disk.apply (.makeEmpty (l.dataSlot dir)))) :
    Machine.Continues l m (create l.data) fun arena m' =>
      arena.writable = true ∧ arena.length = 0 ∧ ∃ dir, l.Admits l.dataName ∧
        l.LeadsTo m.disk dir ∧ m'.disk = m.disk.apply (.makeEmpty (l.dataSlot dir)) ∧
        m'.disk.HasFile (l.dataSlot dir) arena.file [] := by
  have hOpen : Machine.Continues l m (Machine.openEmpty l.data) fun file m' =>
      ∃ dir, l.Admits l.dataName ∧ l.LeadsTo m.disk dir ∧
        m'.disk = m.disk.apply (.makeEmpty (l.dataSlot dir)) ∧
        m'.disk.HasFile (l.dataSlot dir) file [] := by
    have hContinues : Machine.Continues l m (Machine.openEmpty l.data) fun _ _ => True := by
      refine (Machine.continues_inspect h _).bind ?_
      rintro slot m₁ - ⟨hSlot, rfl⟩
      obtain ⟨hName, dir, hLeads, rfl, -⟩ := l.locateFile_join_ok hPlain.data hSlot
      refine (Machine.continues_commit (c := .makeEmpty (l.dataSlot dir)) (fun _ => rfl) h
        (h.makeEmpty l.metadataName_ne_dataName.symm) (hGrows dir hName hLeads)).bind ?_
      intro u m₂ hMade _
      exact (Machine.continues_inspect hMade _).mono fun _ _ _ => trivial
    refine ⟨hContinues.passes, ?_⟩
    intro file m' hDone
    obtain ⟨hName, dir, hLeads, -, -, hFile, rfl⟩ :=
      Layout.openEmpty_join_ok hPlain.data h.wellFormed hDone
    exact ⟨dir, hName, hLeads, rfl, hFile⟩
  refine (hOpen.adaptExcept _).bind fun file m₁ hReads hDone => ?_
  exact Machine.continues_pure hReads ⟨rfl, rfl, hDone⟩

/-- An archive without recorded bytes may have lost its data file. -/
theorem Arena.continues_recreate (hPlain : l.HasPlainNames) (h : m.disk.ReadsBack l)
    (hLoad : Document.load m.disk l.metadata = .ok doc) (hLength : doc.dataLength = 0)
    (hMissing : m.disk.exists? l.data = false) :
    Machine.Continues l m (create l.data) (Arena.Opens l doc) := by
  have hFree : ∀ dir, l.Admits l.dataName → l.LeadsTo m.disk dir →
      m.disk.entries.get? (l.dataSlot dir) = none :=
    fun dir hName hLeads => l.free_of_missing hLeads hName hMissing
  refine (continues_create hPlain h fun dir hName hLeads => ?_).mono ?_
  · have hMade : m.disk.apply (.makeEmpty (l.dataSlot dir)) =
        m.disk.addNode (l.dataSlot dir) (.file []) := by
      simp only [Disk.apply, hFree dir hName hLeads]
    rw [hMade]
    exact .addNode hPlain h.wellFormed (hFree dir hName hLeads) _
  · rintro arena m' ⟨hWritable, hEmpty, dir, hName, hLeads, hDisk, hFile⟩
    obtain ⟨bytes, hBytes, hDoc⟩ := Document.load_eq_ok_iff.1 hLoad
    obtain ⟨hMetadataName, dir', node, hLeads', hMetadata⟩ :=
      l.readBytes_join_ok hPlain.metadata hBytes
    obtain rfl := hLeads.unique hLeads'
    refine ⟨hWritable, hEmpty.trans hLength.symm, dir, [], hLength.symm, ?_⟩
    refine ⟨?_, ?_, hMetadataName, hName, ⟨node, bytes, ?_, hDoc⟩, ⟨[], hFile, List.prefix_refl _⟩,
      hLength.le⟩
    · rw [hDisk]
      exact h.makeEmpty l.metadataName_ne_dataName.symm
    · rw [hDisk]
      exact hLeads.mono (Disk.keepsDirectories_makeEmpty _ _)
    · rw [hDisk]
      exact hMetadata.makeEmpty_ne h.wellFormed (l.metadataSlot_ne_dataSlot dir).symm

/-! ## Disks without metadata -/

/-- A disk with an empty data file, on which no metadata file is found. -/
structure Disk.Lacks (l : Layout) (dir : NodeId) (file : NodeId) (d : Disk) : Prop where
  readsBack : d.ReadsBack l
  leadsTo : l.LeadsTo d dir
  dataName : l.Admits l.dataName
  dataFile : d.HasFile (l.dataSlot dir) file []
  free : l.Admits l.metadataName → d.entries.get? (l.metadataSlot dir) = none

namespace Disk.Lacks

theorem missing (hPlain : l.HasPlainNames) (h : d.Lacks l dir file) :
    d.exists? l.metadata = false := by
  rw [exists?]
  cases hFind : d.find l.metadata with
  | error e => rfl
  | ok id =>
      obtain ⟨hName, dir', hLeads, hEntry⟩ := (l.find_join_ok_iff hPlain.metadata).1 hFind
      obtain rfl := h.leadsTo.unique hLeads
      have hFree := h.free hName
      rw [show d.entries.get? (l.metadataSlot dir) = some id from hEntry] at hFree
      cases hFree

/-- A change of another file. -/
theorem of_files (h : d.Lacks l dir file) (hReads : d'.ReadsBack l)
    (hDirectories : KeepsDirectories d d') (hData : d'.HasFile (l.dataSlot dir) file [])
    (hFree : d.entries.get? (l.metadataSlot dir) = none →
      d'.entries.get? (l.metadataSlot dir) = none) : d'.Lacks l dir file :=
  ⟨hReads, h.leadsTo.mono hDirectories, h.dataName, hData, fun hName => hFree (h.free hName)⟩

theorem isStable (l : Layout) (dir file : NodeId) : IsStable l dir (Lacks l dir file) where
  wellFormed h := h.readsBack.wellFormed
  leadsTo h := h.leadsTo
  makeEmpty {d} h := by
    refine h.of_files (h.readsBack.makeEmpty l.temporaryName_ne_metadataName)
      (keepsDirectories_makeEmpty d _) ?_ ?_
    · exact h.dataFile.makeEmpty_ne h.readsBack.wellFormed (l.temporarySlot_ne_dataSlot dir)
    · intro hFree
      rw [entries_makeEmpty_ne (l.temporarySlot_ne_metadataSlot dir), hFree]
  edit {d node old} f h hFile := by
    refine h.of_files (h.readsBack.edit hFile l.temporaryName_ne_metadataName f)
      (keepsDirectories_edit d _ _) ?_ id
    exact h.dataFile.edit_ne (hFile.id_ne h.readsBack.wellFormed h.dataFile
      (l.temporarySlot_ne_dataSlot dir)) f

theorem fixes (hPlain : l.HasPlainNames) (dir file : NodeId) :
    Machine.Fixes l (Lacks l dir file) where
  readsBack _ h := h.readsBack
  grows _ _ h _ := .of_missing (h.missing hPlain) _

end Disk.Lacks
end FieldArchive

import FieldArchive.Proofs.Archive.Publishing

/-!
# Archives that record

An archive that is open for writing publishes a document on its disk and has tables in
memory which continue that document (`Archive.DocumentPublisher`).  While the archive is not
marked as changed, the document describes the tables, with one exception: a savepoint
that became known when the data file could not be written is missing from it.

Every command keeps this, whatever descriptions it gives and whatever calls fail, and
continues the archive on the disk (`Archive.IsWriter.perform`, `Archive.IsWriter.run`).
It is assumed of metainfo that documents give it back.
-/

namespace FieldArchive

/-- A document has the lists of some tables, apart from the last savepoints if they are
among the lost ones, and vouches for a length. -/
structure Document.Describes (doc : Document) (t : Tables) (length : Nat)
    (lost : List Savepoint) : Prop where
  metainfo : doc.metainfo = t.metainfo
  fields : doc.fields = t.catalog.fields
  offsets : doc.offsets = t.offsets.entries
  savepoints : ∃ more, t.offsets.savepoints = doc.savepoints ++ more ∧ more ⊆ lost
  dataLength : doc.dataLength = length

theorem Document.Describes.mono {doc : Document} {t : Tables} {length : Nat}
    {lost lost' : List Savepoint} (h : doc.Describes t length lost) (hLost : lost ⊆ lost') :
    doc.Describes t length lost' := by
  obtain ⟨more, hMore, hSubset⟩ := h.savepoints
  exact ⟨h.metainfo, h.fields, h.offsets, ⟨more, hMore, fun p hp => hLost (hSubset hp)⟩,
    h.dataLength⟩

namespace Archive

/-- Documents give back the metainfo in a command, as far as they can hold it. -/
def Command.IsKept : Command → Prop
  | .registerField info => info.metainfo.firstNonFinite? = none → info.readsBack = true
  | .registerSavepoint point => point.metainfo.firstNonFinite? = none → point.readsBack = true
  | .addMetainfo _ value => value.isFinite = true → value.readsBack = true
  | .addFieldMetainfo _ _ value => value.isFinite = true → value.readsBack = true
  | .store _ blob => blob.point.metainfo.firstNonFinite? = none → blob.point.readsBack = true
  | .flush | .close | .reopen _ _ => True

/-- The savepoint that storing has made known if its bytes could not be written. -/
def Command.stranded (command : Command) (stored : Option Blob) (error : Option Error) :
    List Savepoint :=
  match command, stored, error with
  | .store _ blob, none, some (.io _) => [blob.point]
  | _, _, _ => []

variable {l : Layout} {dir : NodeId} {doc : Document} {file : NodeId} {front : List UInt8}
  {lost : List Savepoint} {a a' : Archive} {m m' : Machine} {point : Savepoint}

/-! ## Metainfo -/

theorem readsBack_of_addMetainfo (h : a.tables.readsBack = true) {key : String}
    {value : MetaValue} (hKept : value.isFinite = true → value.readsBack = true)
    (hOk : a.addMetainfo key value = .ok a') : a'.tables.readsBack = true := by
  obtain ⟨arena, -, hChecked⟩ := except_bind_eq_ok_iff.1 hOk
  obtain ⟨_, hFinite, hDone⟩ := except_bind_eq_ok_iff.1 hChecked
  cases hDone
  obtain ⟨hMetainfo, hRest⟩ := Tables.readsBack_iff.1 h
  exact Tables.readsBack_iff.2
    ⟨Metainfo.readsBack_set hMetainfo key (hKept (checkFiniteValue_eq_ok_iff.1 hFinite)), hRest⟩

theorem readsBack_of_registerField (h : a.tables.readsBack = true) (hOrderly : a.IsOrderly)
    {info : FieldInfo} (hKept : info.metainfo.firstNonFinite? = none → info.readsBack = true)
    {r : Registration} (hOk : a.registerField info = .ok (r, a')) :
    a'.tables.readsBack = true := by
  obtain ⟨arena, -, hChecked⟩ := except_bind_eq_ok_iff.1 hOk
  obtain ⟨_, hFinite, hRest⟩ := except_bind_eq_ok_iff.1 hChecked
  obtain ⟨⟨r', catalog⟩, hRegister, hDone⟩ := except_bind_eq_ok_iff.1 hRest
  cases hDone
  obtain ⟨hMetainfo, hFields, hSavepoints⟩ := Tables.readsBack_iff.1 h
  refine Tables.readsBack_iff.2 ⟨hMetainfo, ?_, hSavepoints⟩
  intro f hf
  rcases hOrderly.tables.catalog.register_ok hRegister with ⟨-, -, hList, -⟩ | ⟨-, hSame, -⟩
  · have hMem : f ∈ a.tables.catalog.fields ++ [info] := hList ▸ hf
    rcases List.mem_append.1 hMem with hOld | hNew
    · exact hFields f hOld
    · rw [List.mem_singleton.1 hNew]
      exact hKept (checkFinite_eq_ok_iff.1 hFinite)
  · exact hFields f (hSame ▸ hf)

theorem readsBack_of_addFieldMetainfo (h : a.tables.readsBack = true) (hOrderly : a.IsOrderly)
    {field key : String} {value : MetaValue}
    (hKept : value.isFinite = true → value.readsBack = true)
    (hOk : a.addFieldMetainfo field key value = .ok a') : a'.tables.readsBack = true := by
  obtain ⟨arena, -, hChecked⟩ := except_bind_eq_ok_iff.1 hOk
  obtain ⟨_, hFinite, hRest⟩ := except_bind_eq_ok_iff.1 hChecked
  obtain ⟨catalog, hAdd, hDone⟩ := except_bind_eq_ok_iff.1 hRest
  cases hDone
  obtain ⟨hMetainfo, hFields, hSavepoints⟩ := Tables.readsBack_iff.1 h
  refine Tables.readsBack_iff.2 ⟨hMetainfo, ?_, hSavepoints⟩
  intro f hf
  obtain ⟨-, i, -, hList⟩ := hOrderly.tables.catalog.addMetainfo_ok hAdd
  have hMem : f ∈ catalog.fields := hf
  obtain ⟨n, hn⟩ := List.getElem?_of_mem hMem
  rw [hList, List.getElem?_modify, Option.map_eq_map] at hn
  obtain ⟨f', hf', rfl⟩ := Option.map_eq_some_iff.1 hn
  have hOld := hFields f' (List.mem_of_getElem? hf')
  split
  · exact Metainfo.readsBack_set hOld key (hKept (checkFiniteValue_eq_ok_iff.1 hFinite))
  · exact hOld

theorem readsBack_withSavepoint (h : a.tables.readsBack = true) (hPoint : point.readsBack = true) :
    (a.withSavepoint point).tables.readsBack = true := by
  obtain ⟨hMetainfo, hFields, hSavepoints⟩ := Tables.readsBack_iff.1 h
  refine Tables.readsBack_iff.2 ⟨hMetainfo, hFields, ?_⟩
  obtain ⟨more, hList, hMore⟩ := a.tables.offsets.mem_savepoints_registerSavepoint point
  intro p hp
  have hMem : p ∈ a.tables.offsets.savepoints ++ more := hList ▸ hp
  rcases List.mem_append.1 hMem with hOld | hNew
  · exact hSavepoints p hOld
  · rw [hMore p hNew]
    exact hPoint

theorem readsBack_of_registerSavepoint (h : a.tables.readsBack = true)
    (hKept : point.metainfo.firstNonFinite? = none → point.readsBack = true)
    (hOk : a.registerSavepoint point = .ok a') : a'.tables.readsBack = true := by
  obtain ⟨arena, -, hChecked⟩ := except_bind_eq_ok_iff.1 hOk
  obtain ⟨_, hFinite, hRest⟩ := except_bind_eq_ok_iff.1 hChecked
  split at hRest
  · cases hRest
    exact h
  · cases hRest
    exact readsBack_withSavepoint h (hKept (checkFinite_eq_ok_iff.1 hFinite))

/-! ## The document of an archive -/

theorem dataLength_of_arena {arena : Arena} (h : a.arena = some arena) :
    a.dataLength = arena.length := by
  simp [dataLength, h]

/-- What a flush writes holds the document of the archive. -/
theorem isOf_document (hReads : a.tables.readsBack = true)
    (hOffsets : a.tables.offsets.IsCoherent)
    (hFits : ∀ e ∈ a.tables.offsets.entries,
      e.record.extent.offset + e.record.extent.length ≤ a.dataLength)
    (hLt : a.dataLength < wordBound) {updatedAt : String}
    (hLength : (Disk.textBytes (a.document updatedAt).text).length ≤ Disk.maxFileLength) :
    (a.document updatedAt).IsOf (Disk.textBytes (a.document updatedAt).text) := by
  refine Document.isOf_text ⟨hLt, fun e he => ?_⟩ hReads rfl
  have hEntry := hFits e he
  have hMany : a.tables.offsets.savepoints.length ≤ Disk.maxFileLength :=
    (a.document updatedAt).length_savepoints_le.trans hLength
  have hBound : Disk.maxFileLength < wordBound := by decide
  constructor
  · exact (hOffsets.savepoint_lt e he).trans (hMany.trans_lt hBound)
  · omega
  · omega

/-! ## The invariant -/

/-- An archive open for writing, whose disk publishes a document.  The data file begins
with `front` up to the end of what was appended. -/
structure DocumentPublisher (l : Layout) (dir : NodeId) (doc : Document) (file : NodeId)
    (front : List UInt8) (lost : List Savepoint) (a : Archive) (m : Machine) : Prop where
  layout : a.layout = l
  mode : a.mode = .write
  orderly : a.IsOrderly
  readsBack : a.tables.readsBack = true
  arena : ∃ arena, a.arena = some arena ∧ arena.file = file ∧ arena.length = front.length
  disk : m.disk.PublishesDocument l dir doc file front
  length_lt : front.length < wordBound
  fits : ∀ e ∈ a.tables.offsets.entries,
    e.record.extent.offset + e.record.extent.length ≤ front.length
  savepoints : doc.savepoints <+: a.tables.offsets.savepoints
  offsets : doc.offsets <+: a.tables.offsets.entries
  fields : doc.fields.map FieldInfo.bare <+: a.tables.catalog.fields.map FieldInfo.bare
  clean : a.dirty = false → a.recordedLength = front.length ∧
    doc.Describes a.tables front.length lost

namespace DocumentPublisher

theorem dataLength (h : DocumentPublisher l dir doc file front lost a m) :
    a.dataLength = front.length := by
  obtain ⟨arena, hArena, -, hLength⟩ := h.arena
  rw [dataLength_of_arena hArena, hLength]

theorem precedes (h : DocumentPublisher l dir doc file front lost a m) (updatedAt : String) :
    doc.Precedes (a.document updatedAt) :=
  ⟨h.savepoints, h.offsets, h.fields, h.disk.length_le.trans h.dataLength.ge⟩

theorem describes (h : DocumentPublisher l dir doc file front lost a m) (updatedAt : String)
    (lost' : List Savepoint) : (a.document updatedAt).Describes a.tables front.length lost' :=
  ⟨rfl, rfl, rfl, ⟨[], (List.append_nil _).symm, List.nil_subset _⟩, h.dataLength⟩

theorem mono (h : DocumentPublisher l dir doc file front lost a m) {lost' : List Savepoint}
    (hLost : lost ⊆ lost') : DocumentPublisher l dir doc file front lost' a m :=
  { h with clean := fun hDirty => ⟨(h.clean hDirty).1, (h.clean hDirty).2.mono hLost⟩ }

/-- The machine matters through its disk. -/
theorem of_disk (h : DocumentPublisher l dir doc file front lost a m)
    (hDisk : m'.disk.PublishesDocument l dir doc file front) :
    DocumentPublisher l dir doc file front lost a m' :=
  { h with disk := hDisk }

/-- Once the document of the archive is published, it is the one to be continued. -/
theorem of_document (h : DocumentPublisher l dir doc file front lost a m) {updatedAt : String}
    (hDisk : m'.disk.PublishesDocument l dir (a.document updatedAt) file front) :
    DocumentPublisher l dir (a.document updatedAt) file front lost a m' :=
  { h with
    disk := hDisk
    savepoints := List.prefix_refl _
    offsets := List.prefix_refl _
    fields := List.prefix_refl _
    clean := fun hDirty => ⟨(h.clean hDirty).1, h.describes updatedAt lost⟩ }

/-- The archive after a flush. -/
theorem saved (h : DocumentPublisher l dir doc file front lost a m) {updatedAt : String}
    (hDoc : doc = a.document updatedAt) : DocumentPublisher l dir doc file front lost
      { a with recordedLength := a.dataLength, dirty := false } m :=
  { h with
    orderly := ⟨h.orderly.tables, h.orderly.writable⟩
    clean := fun _ => ⟨h.dataLength, hDoc ▸ h.describes updatedAt lost⟩ }

/-! ## Commands on the tables -/

theorem alters (h : DocumentPublisher l dir doc file front lost a m) (hAlters : Alters a a')
    (hReads : a'.tables.readsBack = true) : DocumentPublisher l dir doc file front lost a' m := by
  have hSame := hAlters.same
  constructor
  · rw [hSame]
    exact h.layout
  · rw [hSame]
    exact h.mode
  · exact hAlters.isOrderly h.orderly
  · exact hReads
  · rw [hSame]
    exact h.arena
  · exact h.disk
  · exact h.length_lt
  · rw [hAlters.entries]
    exact h.fits
  · exact h.savepoints.trans hAlters.savepoints
  · rw [hAlters.entries]
    exact h.offsets
  · exact h.fields.trans hAlters.fields
  · intro hDirty
    obtain rfl := hAlters.dirty hDirty
    exact h.clean hDirty

/-! ## Flushing -/

/-- A renaming publishes the document of the archive. -/
theorem rename (h : DocumentPublisher l dir doc file front lost a m) {updatedAt : String} {d : Disk}
    {node : NodeId} (hDisk : d.PublishesDocument l dir doc file front)
    (hName : l.Admits l.metadataName)
    (hFile : d.HasFile (l.temporarySlot dir) node (Disk.textBytes (a.document updatedAt).text))
    (hNode : d.nodeAt? (l.metadataSlot dir) ≠ some .directory)
    (hLength : (Disk.textBytes (a.document updatedAt).text).length ≤ Disk.maxFileLength) :
    (d.apply (.rename (l.temporarySlot dir) (l.metadataSlot dir))).PublishesDocument
      l dir (a.document updatedAt) file front := by
  obtain ⟨data, hData, hFront⟩ := hDisk.dataFile
  refine .of_rename hDisk.readsBack hDisk.leadsTo hName hDisk.dataName hData hFront hFile ?_
    h.readsBack hNode h.dataLength.le
  refine isOf_document h.readsBack h.orderly.tables.offsets ?_ ?_ hLength
  · rw [h.dataLength]
    exact h.fits
  · rw [h.dataLength]
    exact h.length_lt

theorem persist_cases (hPlain : l.HasPlainNames)
    (h : DocumentPublisher l dir doc file front lost a m) :
    (∃ e m', persist (a, m) = .error (.io e) (a, m') ∧
      Machine.Proceeds (Disk.PublishesDocument l dir doc file front) m m') ∨
    ∃ updatedAt m', Machine.Replaces l dir (Disk.PublishesDocument l dir doc file front)
        (Disk.PublishesDocument l dir (a.document updatedAt) file front) m m' ∧
      (persist (a, m) = .ok () ({ a with recordedLength := a.dataLength, dirty := false }, m') ∨
        ∃ e, persist (a, m) = .error (.io e) (a, m')) := by
  have hLayout := h.layout
  subst hLayout
  have hTick : Machine.Proceeds (Disk.PublishesDocument a.layout dir doc file front) m m.tick :=
    .tick h.disk
  set updatedAt := m.environment.clock m.calls with hNow
  rcases Document.persist_stable (m := m.tick) hPlain
      (Disk.PublishesDocument.isStable a.layout dir doc file front) h.disk
      (a.document updatedAt) h.rename with
    ⟨e, m', hError, hTo⟩ | ⟨m', ⟨m₁, hTo, hFrom⟩, hOk | ⟨e, hError⟩⟩
  · refine Or.inl ⟨e, m', ?_, hTick.trans hTo⟩
    rw [persist_eq, ← hNow, hError]
  · refine Or.inr ⟨updatedAt, m', ⟨m₁, hTick.trans hTo, hFrom⟩, Or.inl ?_⟩
    rw [persist_eq, ← hNow, hOk]
  · refine Or.inr ⟨updatedAt, m', ⟨m₁, hTick.trans hTo, hFrom⟩, Or.inr ⟨e, ?_⟩⟩
    rw [persist_eq, ← hNow, hError]

/-- A flush continues the archive.  If it succeeds, the document on the disk describes
the tables in memory, and all of them if there was something to do. -/
theorem flush (hPlain : l.HasPlainNames) (h : DocumentPublisher l dir doc file front lost a m)
    (stored : Option Blob) {o : Outcome}
    (hOutcome : Outcome.ofResult stored (Archive.flush (a, m)) = o) :
    Machine.Passes l m o.machine ∧ o.stored = stored ∧ o.archive.tables = a.tables ∧
      (∀ e, o.error = some e → e.isIo = true) ∧
      ∃ doc', DocumentPublisher l dir doc' file front lost o.archive o.machine ∧
        (o.error = none → o.archive.recordedLength = front.length ∧
          doc'.Describes a.tables front.length lost ∧
          (a.needsFlush = true → doc'.Describes a.tables front.length [])) := by
  subst hOutcome
  obtain ⟨arena, hArena, -, hLength⟩ := h.arena
  have hWritable := h.orderly.writable h.mode arena hArena
  have hFixes := Disk.PublishesDocument.fixes l dir
  rcases flush_cases (m := m) h.mode hArena hWritable with ⟨hNeeds, hFlush⟩ | ⟨e, hFlush⟩ |
    ⟨hNeeds, m₁, hFrom, hFlush⟩
  · -- nothing has changed since the last flush
    have hDirty : a.dirty = false := by
      simp only [needsFlush, Bool.or_eq_false_iff] at hNeeds
      exact hNeeds.1
    rw [hFlush]
    obtain ⟨hRecorded, hDescribes⟩ := h.clean hDirty
    refine ⟨.refl h.disk.readsBack, rfl, rfl, (fun e hError => by cases hError), doc, h,
      fun _ => ⟨hRecorded, hDescribes, ?_⟩⟩
    intro hTrue
    rw [hNeeds] at hTrue
    cases hTrue
  · -- the data file could not be synchronised, and the metadata was not touched
    rw [hFlush]
    refine ⟨.tick h.disk.readsBack, rfl, rfl, ?_, doc, h.of_disk h.disk,
      fun hNone => by cases hNone⟩
    rintro e' ⟨⟩
    rfl
  · have hStart : Machine.Passes l m m₁ ∧ DocumentPublisher l dir doc file front lost a m₁ := by
      rcases hFrom with rfl | rfl
      · exact ⟨.refl h.disk.readsBack, h⟩
      · exact ⟨.tick h.disk.readsBack, h.of_disk h.disk⟩
    obtain ⟨hBefore, hNext⟩ := hStart
    rw [hFlush]
    rcases hNext.persist_cases hPlain with ⟨e, m', hPersist, hTo⟩ |
      ⟨updatedAt, m', hTo, hPersist⟩
    · -- the old document is still in its place
      rw [hPersist]
      refine ⟨hBefore.trans (hTo.passes (hFixes doc file front)), rfl, rfl, ?_, doc,
        hNext.of_disk hTo.last, fun hNone => by cases hNone⟩
      rintro e' ⟨⟩
      rfl
    · -- the new document is, even if the last call of the replacement fails
      have hPasses := hBefore.trans (hTo.passes (hFixes doc file front)
        (hFixes (a.document updatedAt) file front)
        fun d d' hd hd' => hd.grows hd' (h.precedes updatedAt) rfl)
      obtain ⟨m₂, -, hAfter⟩ := hTo
      have hPublished := hNext.of_document hAfter.last
      rcases hPersist with hPersist | ⟨e, hPersist⟩
      · rw [hPersist]
        exact ⟨hPasses, rfl, rfl, (fun e hError => by cases hError), _, hPublished.saved rfl,
          fun _ => ⟨h.dataLength, h.describes updatedAt lost, fun _ => h.describes updatedAt []⟩⟩
      · rw [hPersist]
        refine ⟨hPasses, rfl, rfl, ?_, _, hPublished, fun hNone => by cases hNone⟩
        rintro e' ⟨⟩
        rfl

/-! ## Storing -/

/-- An archive with one more entry. -/
theorem withEntry (h : DocumentPublisher l dir doc file front lost a m) {field : String}
    {bytes front' : List UInt8} {arena arena' : Arena} {catalog : Catalog}
    (hTakes : a.Takes point field bytes arena catalog) (hPoint : point.readsBack = true)
    {record : OffsetRecord} (hFile : arena'.file = file)
    (hWritable : arena'.writable = arena.writable) (hLength : arena'.length = front'.length)
    (hFront : front.length ≤ front'.length) (hLt : front'.length < wordBound)
    (hFits : record.extent.offset + record.extent.length ≤ front'.length)
    (hDisk : m'.disk.PublishesDocument l dir doc file front') :
    DocumentPublisher l dir doc file front' lost (a.withEntry point field record arena' catalog)
      m' := by
  have hEntries : (a.withEntry point field record arena' catalog).tables.offsets.entries =
      a.tables.offsets.entries ++
        [⟨(a.tables.offsets.registerSavepoint point).1, field, record⟩] := by
    simp only [Archive.withEntry, OffsetTable.add_entries, OffsetTable.registerSavepoint_entries]
  have hSavepoints : (a.withEntry point field record arena' catalog).tables.offsets.savepoints =
      (a.tables.offsets.registerSavepoint point).2.savepoints := by
    simp only [Archive.withEntry, OffsetTable.add_savepoints]
  constructor
  · exact h.layout
  · exact h.mode
  · exact hTakes.isOrderly h.orderly record hWritable
  · -- the same savepoints as if only they had been made known, and the same fields
    obtain ⟨hMetainfo, hFields, hPoints⟩ :=
      Tables.readsBack_iff.1 (readsBack_withSavepoint h.readsBack hPoint)
    refine Tables.readsBack_iff.2 ⟨hMetainfo, ?_, ?_⟩
    · show ∀ f ∈ catalog.fields, f.readsBack = true
      rw [hTakes.fields]
      exact hFields
    · rw [hSavepoints]
      exact hPoints
  · exact ⟨arena', rfl, hFile, hLength⟩
  · exact hDisk
  · exact hLt
  · intro e he
    rw [hEntries] at he
    rcases List.mem_append.1 he with hOld | hNew
    · exact (h.fits e hOld).trans hFront
    · rw [List.mem_singleton.1 hNew]
      exact hFits
  · rw [hSavepoints]
    exact h.savepoints.trans (OffsetTable.savepoints_isPrefix_registerSavepoint _ _)
  · rw [hEntries]
    exact h.offsets.trans (List.prefix_append _ _)
  · show _ <+: catalog.fields.map FieldInfo.bare
    rw [hTakes.fields]
    exact h.fields
  · intro hClean
    cases hClean

/-- An archive whose data file could not be written knows the savepoint all the same. -/
theorem withSavepoint (h : DocumentPublisher l dir doc file front lost a m)
    (hPoint : point.readsBack = true) (hDisk : m'.disk.PublishesDocument l dir doc file front) :
    DocumentPublisher l dir doc file front (lost ++ [point]) (a.withSavepoint point) m' := by
  have hEntries : (a.withSavepoint point).tables.offsets.entries = a.tables.offsets.entries :=
    OffsetTable.registerSavepoint_entries _ _
  constructor
  · exact h.layout
  · exact h.mode
  · exact h.orderly.withSavepoint point
  · exact readsBack_withSavepoint h.readsBack hPoint
  · exact h.arena
  · exact hDisk
  · exact h.length_lt
  · rw [hEntries]
    exact h.fits
  · exact h.savepoints.trans (OffsetTable.savepoints_isPrefix_registerSavepoint _ _)
  · rw [hEntries]
    exact h.offsets
  · exact h.fields
  · intro hDirty
    obtain ⟨hRecorded, hDescribes⟩ := h.clean hDirty
    obtain ⟨more, hMore, hLost⟩ := hDescribes.savepoints
    obtain ⟨last, hLast, hPoint'⟩ := a.tables.offsets.mem_savepoints_registerSavepoint point
    refine ⟨hRecorded, hDescribes.metainfo, hDescribes.fields,
      hDescribes.offsets.trans hEntries.symm,
      ⟨more ++ last, ?_, ?_⟩, hDescribes.dataLength⟩
    · show (a.tables.offsets.registerSavepoint point).2.savepoints = _
      rw [hLast, hMore, List.append_assoc]
    · intro p hp
      rcases List.mem_append.1 hp with hOld | hNew
      · exact List.mem_append_left _ (hLost hOld)
      · exact List.mem_append_right _ (by simp [hPoint' p hNew])

/-- Writing after the front continues the archive, and if it succeeds the front. -/
theorem write_cases (h : DocumentPublisher l dir doc file front lost a m) {bytes : List UInt8} :
    (∀ e, Machine.write file front.length bytes m = .error e m' →
      Machine.Passes l m m' ∧ m'.disk.PublishesDocument l dir doc file front) ∧
    (Machine.write file front.length bytes m = .ok () m' →
      Machine.Passes l m m' ∧ m'.disk.PublishesDocument l dir doc file (front ++ bytes) ∧
        (front ++ bytes).length < wordBound) := by
  have hProceeds : (∀ u, Machine.write file front.length bytes m = .ok u m' →
        Machine.Proceeds (Disk.PublishesDocument l dir doc file front) m m') ∧
      ∀ e, Machine.write file front.length bytes m = .error e m' →
        Machine.Proceeds (Disk.PublishesDocument l dir doc file front) m m' :=
    Machine.write_proceeds h.disk fun part _ =>
      (h.disk.write part).shorten (List.prefix_append _ _) h.disk.length_le
  have hFixes := Disk.PublishesDocument.fixes l dir doc file front
  constructor
  · intro e hError
    have hTo := hProceeds.2 e hError
    exact ⟨hTo.passes hFixes, hTo.last⟩
  · intro hOk
    refine ⟨(hProceeds.1 () hOk).passes hFixes, ?_⟩
    rcases Machine.write_ok hOk with ⟨rfl, rfl⟩ | ⟨hFits, rfl⟩
    · rw [List.append_nil]
      exact ⟨h.disk, h.length_lt⟩
    · have hBound : Disk.maxFileLength < wordBound := by decide
      refine ⟨h.disk.write bytes, ?_⟩
      rw [List.length_append]
      omega

/-- How storing bytes can end for an archive that publishes. -/
theorem append_cases (h : DocumentPublisher l dir doc file front lost a m) (blob : Blob)
    (hKept : blob.point.metainfo.firstNonFinite? = none → blob.point.readsBack = true) :
    (∃ e, append blob.point blob.field blob.bytes (a, m) = .error e (a, m)) ∨
    (∃ e m', append blob.point blob.field blob.bytes (a, m) =
        .error (.io e) (a.withSavepoint blob.point, m') ∧ Machine.Passes l m m' ∧
      DocumentPublisher l dir doc file front (lost ++ [blob.point]) (a.withSavepoint blob.point)
        m') ∨
    (∃ r a' m' front', append blob.point blob.field blob.bytes (a, m) = .ok r (a', m') ∧
      Machine.Passes l m m' ∧ DocumentPublisher l dir doc file front' lost a' m' ∧
      a'.dirty = true) := by
  obtain ⟨opened, hOpened, hFile, hLength⟩ := h.arena
  have hArena : ∀ {arena catalog}, a.Takes blob.point blob.field blob.bytes arena catalog →
      arena.file = file ∧ arena.length = front.length := by
    intro arena catalog hTakes
    have hSame := hTakes.arena
    rw [hOpened] at hSame
    cases hSame
    exact ⟨hFile, hLength⟩
  rcases h.orderly.append_cases blob.point blob.field blob.bytes m with ⟨e, hAppend, -⟩ |
    ⟨arena, catalog, e, m', hTakes, hWrite, hAppend⟩ |
    ⟨arena, catalog, extent, hTakes, hStored, hAppend⟩ |
    ⟨arena, catalog, m', hTakes, hWrite, hAppend⟩
  · exact Or.inl ⟨e, hAppend⟩
  · obtain ⟨hArenaFile, hArenaLength⟩ := hArena hTakes
    rw [hArenaFile, hArenaLength] at hWrite
    obtain ⟨hPasses, hDisk⟩ := h.write_cases.1 e hWrite
    exact Or.inr (Or.inl ⟨e, m', hAppend, hPasses, h.withSavepoint (hKept hTakes.finite) hDisk⟩)
  · obtain ⟨hArenaFile, hArenaLength⟩ := hArena hTakes
    refine Or.inr (Or.inr ⟨_, _, m, front, hAppend, .refl h.disk.readsBack, ?_, rfl⟩)
    -- the range that is shared is that of another entry
    have hFits : extent.offset + extent.length ≤ front.length := by
      rw [h.orderly.tables.offsets.byChecksum] at hStored
      obtain ⟨e, hFind, rfl⟩ := Option.map_eq_some_iff.1 hStored
      exact h.fits e (List.mem_of_find?_eq_some hFind)
    exact h.withEntry hTakes (hKept hTakes.finite) hArenaFile rfl hArenaLength (Nat.le_refl _)
      h.length_lt hFits h.disk
  · obtain ⟨hArenaFile, hArenaLength⟩ := hArena hTakes
    rw [hArenaFile, hArenaLength] at hWrite
    obtain ⟨hPasses, hDisk, hLt⟩ := h.write_cases.2 hWrite
    refine Or.inr (Or.inr ⟨_, _, m', front ++ blob.bytes, hAppend, hPasses, ?_, rfl⟩)
    refine h.withEntry hTakes (hKept hTakes.finite) hArenaFile rfl ?_ ?_ hLt ?_ hDisk
    · simp [hArenaLength]
    · simp
    · simp [hArenaLength]

end DocumentPublisher
end Archive
end FieldArchive

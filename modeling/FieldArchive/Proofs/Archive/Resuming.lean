import FieldArchive.Proofs.Archive.Recording

/-!
# Writers, from opening to the end of a run

Opening an archive for writing continues it, and leaves an archive that publishes
(`Archive.continues_openForWrite`).  So does every command after that, whether it
succeeds or fails, up to the end of a run: `Archive.IsWriter` is what a run keeps.
-/

namespace FieldArchive.Archive

variable {l : Layout} {s : Settings} {dir : NodeId} {doc : Document} {file : NodeId}
  {front : List UInt8} {lost : List Savepoint} {a a' : Archive} {m m' : Machine} {sync : Bool}

/-- An archive publishes some document. -/
def PublishesDocument (l : Layout) (lost : List Savepoint) (a : Archive) (m : Machine) : Prop :=
  ∃ dir doc file front, DocumentPublisher l dir doc file front lost a m

/-! ## Opening -/

/-- An archive that was opened publishes the document that it was opened from. -/
theorem publishesDocument_ofDocument {tables : Tables} (hTables : doc.tables = .ok tables)
    {arena : Arena} (hArena : arena.Opens l doc m) (sync : Bool) :
    PublishesDocument l [] (ofDocument l .write doc tables arena sync) m := by
  obtain ⟨hWritable, hLength, dir, front, hFront, hDisk⟩ := hArena
  have hRepresents := Document.tables_ok hTables
  obtain ⟨node, bytes, hFile, hDoc⟩ := hDisk.metadata
  refine ⟨dir, doc, arena.file, front, ?_⟩
  constructor
  · rfl
  · rfl
  · exact isOrderly_ofDocument hTables hWritable
  · have hReads := hDisk.readsBack.readsBack dir bytes doc hFile.nodeAt?_eq hDoc
    rw [← hReads]
    simp only [ofDocument, Tables.readsBack, Document.readsBack, hRepresents.metainfo,
      hRepresents.fields, hRepresents.savepoints]
  · exact ⟨arena, rfl, rfl, hLength.trans hFront.symm⟩
  · exact hDisk
  · rw [hFront]
    exact hDoc.dataLength_lt
  · intro e he
    have hEntry : e ∈ doc.offsets := hRepresents.entries ▸ he
    rw [hFront]
    exact (OffsetTable.fits_iff.1 ((Document.isSound_of_tables hTables).fits e hEntry)).2
  · show _ <+: tables.offsets.savepoints
    rw [hRepresents.savepoints]
  · show _ <+: tables.offsets.entries
    rw [hRepresents.entries]
  · show _ <+: tables.catalog.fields.map FieldInfo.bare
    rw [hRepresents.fields]
  · -- the tables are those of the document, and nothing is missing
    intro _
    refine ⟨hFront.symm, hRepresents.metainfo.symm, hRepresents.fields.symm,
      hRepresents.entries.symm, ⟨[], ?_, List.nil_subset _⟩, hFront.symm⟩
    rw [List.append_nil]
    exact hRepresents.savepoints

theorem continues_reopenForWrite (hPlain : l.HasPlainNames) (h : m.disk.ReadsBack l)
    (s : Settings) (sync : Bool) :
    Machine.Continues l m (reopenForWrite l s sync) (PublishesDocument l []) := by
  refine .get_bind ((Machine.continues_ofExcept h _).bind ?_)
  rintro doc m₁ - ⟨hLoad, rfl⟩
  split
  · exact Machine.continues_throw h _
  · refine (Machine.continues_ofExcept h _).bind ?_
    rintro tables m₂ - ⟨hTables, rfl⟩
    have hOpened : ∀ arena m', m'.disk.ReadsBack l → arena.Opens l doc m' →
        Machine.Continues l m' (pure (ofDocument l .write doc tables arena sync) : Effect Archive)
          (PublishesDocument l []) :=
      fun arena m' hReads hArena =>
        Machine.continues_pure hReads (publishesDocument_ofDocument hTables hArena sync)
    refine .get_bind ?_
    split
    · exact (Arena.continues_openAppend hPlain h hLoad).bind hOpened
    · next hMissing =>
        split
        · next hEmpty =>
            exact (Arena.continues_recreate hPlain h hLoad hEmpty (by simpa using hMissing)).bind
              hOpened
        · exact Machine.continues_throw h _

/-- A new archive publishes its empty tables once its metadata file is there. -/
theorem documentPublisher_fresh (s : Settings) (sync : Bool) {arena : Arena}
    (hWritable : arena.writable = true) (hLength : arena.length = 0) (id : ArchiveId)
    (createdAt : String) {updatedAt : String}
    (hDisk : m.disk.PublishesDocument l dir ((fresh l s sync arena id createdAt).document updatedAt)
      arena.file []) :
    DocumentPublisher l dir ((fresh l s sync arena id createdAt).document updatedAt)
      arena.file [] []
      (fresh l s sync arena id createdAt) m := by
  constructor
  · rfl
  · rfl
  · refine ⟨Tables.isCoherent_empty s.checksum, fun _ opened hOpened => ?_⟩
    cases hOpened
    exact hWritable
  · rfl
  · exact ⟨arena, rfl, rfl, hLength⟩
  · exact hDisk
  · decide
  · intro e he
    cases he
  · exact List.prefix_refl _
  · exact List.prefix_refl _
  · exact List.prefix_refl _
  · intro hClean
    cases hClean

/-- Giving a new archive its metadata file leaves nothing behind, or an archive. -/
theorem continues_persist_fresh (hPlain : l.HasPlainNames) (s : Settings) (sync : Bool)
    {arena : Arena} (h : m.disk.Lacks l dir arena.file) (hWritable : arena.writable = true)
    (hLength : arena.length = 0) (id : ArchiveId) (createdAt : String) :
    Machine.Continues l m (fun m => settled (persist (fresh l s sync arena id createdAt, m)))
      (PublishesDocument l []) := by
  set new := fresh l s sync arena id createdAt with hNew
  set updatedAt := m.environment.clock m.calls with hNow
  have hEmpty : new.dataLength = 0 := hLength
  have hRename : ∀ {d : Disk} {node : NodeId}, d.Lacks l dir arena.file →
      l.Admits l.metadataName →
      d.HasFile (l.temporarySlot dir) node (Disk.textBytes (new.document updatedAt).text) →
      d.nodeAt? (l.metadataSlot dir) ≠ some .directory →
      (Disk.textBytes (new.document updatedAt).text).length ≤ Disk.maxFileLength →
      (d.apply (.rename (l.temporarySlot dir) (l.metadataSlot dir))).PublishesDocument
        l dir (new.document updatedAt) arena.file [] := by
    intro d node hDisk hName hFile hNode hShort
    refine .of_rename hDisk.readsBack hDisk.leadsTo hName hDisk.dataName hDisk.dataFile
      List.nil_prefix hFile ?_ rfl hNode hEmpty.le
    refine isOf_document rfl (Tables.isCoherent_empty s.checksum).offsets (fun e he => ?_) ?_ hShort
    · cases he
    · rw [hEmpty]
      decide
  have hTick : Machine.Proceeds (Disk.Lacks l dir arena.file) m m.tick := .tick h
  have hLacks := Disk.Lacks.fixes hPlain dir arena.file
  -- the action ends as writing the document does
  have hFails : ∀ {e : Error} {m' : Machine},
      (new.document updatedAt).persist new.layout.metadata new.layout.temporary m.tick =
        .error e m' → settled (persist (new, m)) = .error e m' := by
    intro e m' hError
    rw [persist_eq, ← hNow, hError]
    rfl
  have hSucceeds : ∀ {m' : Machine},
      (new.document updatedAt).persist new.layout.metadata new.layout.temporary m.tick =
        .ok () m' → settled (persist (new, m)) =
          .ok { new with recordedLength := new.dataLength, dirty := false } m' := by
    intro m' hOk
    rw [persist_eq, ← hNow, hOk]
    rfl
  rcases Document.persist_stable (m := m.tick) hPlain (Disk.Lacks.isStable l dir arena.file) h
      (new.document updatedAt) hRename with
    ⟨e, m', hError, hTo⟩ | ⟨m', ⟨m₁, hTo, hFrom⟩, hDone⟩
  · constructor
    · rw [hFails hError]
      exact (hTick.trans hTo).passes hLacks
    · intro a m₂ hOk
      rw [hFails hError] at hOk
      cases hOk
  · have hPasses : Machine.Passes l m m' := by
      refine Machine.Replaces.passes ⟨m₁, hTick.trans hTo, hFrom⟩ hLacks
        (Disk.PublishesDocument.fixes l dir (new.document updatedAt) arena.file [])
        fun d d' hd _ => ?_
      exact .of_missing (hd.missing hPlain) d'
    rcases hDone with hOk | ⟨e, hError⟩
    · constructor
      · rw [hSucceeds hOk]
        exact hPasses
      · intro a m₂ hSame
        rw [hSucceeds hOk] at hSame
        cases hSame
        exact ⟨dir, _, arena.file, [],
          (documentPublisher_fresh s sync hWritable hLength id createdAt hFrom.last).saved rfl⟩
    · constructor
      · rw [hFails hError]
        exact hPasses
      · intro a m₂ hSame
        rw [hFails hError] at hSame
        cases hSame

/-- Creating an archive continues what is not there. -/
theorem continues_createForWrite (hPlain : l.HasPlainNames) (h : m.disk.ReadsBack l)
    (hMissing : m.disk.exists? l.metadata = false) (s : Settings) (sync : Bool) :
    Machine.Continues l m (createForWrite l s sync) (PublishesDocument l []) := by
  refine (Arena.continues_create hPlain h fun dir _ _ => .of_missing hMissing _).bind ?_
  rintro arena m₁ hReads ⟨hWritable, hLength, dir, hName, hLeads, hDisk, hFile⟩
  have hLacks : m₁.disk.Lacks l dir arena.file := by
    refine ⟨hReads, ?_, hName, hFile, fun hMetadata => ?_⟩
    · rw [hDisk]
      exact hLeads.mono (Disk.keepsDirectories_makeEmpty _ _)
    · rw [hDisk, Disk.entries_makeEmpty_ne (l.metadataSlot_ne_dataSlot dir).symm]
      exact l.free_of_missing hLeads hMetadata hMissing
  -- an identifier and the time are drawn, and then the metadata file is made
  have hPersist := continues_persist_fresh (m := m₁.tick.tick) hPlain s sync hLacks hWritable
    hLength
    (m₁.environment.identifier m₁.calls) (m₁.environment.clock m₁.tick.calls)
  have hTicks : Machine.Passes l m₁ m₁.tick.tick :=
    (Machine.Passes.tick hReads).trans (.tick hReads)
  exact ⟨hTicks.trans hPersist.passes, hPersist.reaches⟩

/-- Opening an archive for writing continues it wherever it stops, and leaves an archive
that publishes. -/
theorem continues_openForWrite (hPlain : l.HasPlainNames) (h : m.disk.ReadsBack l)
    (s : Settings) (sync : Bool) :
    Machine.Continues l m (openForWrite l s sync) (PublishesDocument l []) := by
  refine (l.continues_createDirectory hPlain h).bind fun u m₁ hReads _ => .get_bind ?_
  split
  · exact continues_reopenForWrite hPlain hReads s sync
  · next hMissing => exact continues_createForWrite hPlain hReads (by simpa using hMissing) s sync

/-! ## Commands -/

/-- A writer in a run: it is closed, or publishes. -/
structure IsWriter (l : Layout) (lost : List Savepoint) (a : Archive) (m : Machine) : Prop where
  layout : a.layout = l
  disk : m.disk.ReadsBack l
  tables : a.tables.readsBack = true
  memory : a.arena = none ∨ PublishesDocument l lost a m

/-- Commands that end with a flush. -/
def Command.Flushes : Command → Prop
  | .flush | .close | .store .always _ => True
  | _ => False

/-- What a command of a writer does.  A flush of an open archive that succeeds leaves the
tables described, and none of their savepoints missing if there was something to flush. -/
structure WriterOutcome (l : Layout) (lost : List Savepoint) (command : Command) (a : Archive)
    (m : Machine) (o : Outcome) : Prop where
  passes : Machine.Passes l m o.machine
  writer : IsWriter l (lost ++ command.stranded o.stored o.error) o.archive o.machine
  saved : command.Flushes → a.isClosed = false → o.error = none → ∃ doc,
    Document.load o.machine.disk l.metadata = .ok doc ∧
      doc.Describes o.archive.tables o.archive.dataLength lost ∧
      (a.needsFlush = true ∨ o.stored ≠ none →
        doc.Describes o.archive.tables o.archive.dataLength []) ∧
      (o.stored = none → o.archive.dataLength = a.dataLength)

variable {command : Command} {o : Outcome}

theorem DocumentPublisher.publishesDocument (h : DocumentPublisher l dir doc file front lost a m) :
    PublishesDocument l lost a m := ⟨dir, doc, file, front, h⟩

theorem PublishesDocument.mono (h : PublishesDocument l lost a m) {lost' : List Savepoint}
    (hLost : lost ⊆ lost') :
    PublishesDocument l lost' a m := by
  obtain ⟨dir, doc, file, front, hPublishing⟩ := h
  exact (hPublishing.mono hLost).publishesDocument

theorem PublishesDocument.isWriter (h : PublishesDocument l lost a m) : IsWriter l lost a m := by
  have hMemory := h
  obtain ⟨dir, doc, file, front, hPublishing⟩ := h
  exact ⟨hPublishing.layout, hPublishing.disk.readsBack, hPublishing.readsBack, Or.inr hMemory⟩

theorem IsWriter.mono (h : IsWriter l lost a m) {lost' : List Savepoint} (hLost : lost ⊆ lost') :
    IsWriter l lost' a m :=
  ⟨h.layout, h.disk, h.tables, h.memory.imp_right fun hPublishes => hPublishes.mono hLost⟩

/-- A command that changes nothing, and does not flush. -/
theorem IsWriter.writerOutcome (h : IsWriter l lost a m) {e : Option Error}
    (hQuiet : command.Flushes → a.isClosed = false → e ≠ none) :
    WriterOutcome l lost command a m ⟨none, e, a, m⟩ :=
  ⟨.refl h.disk, h.mono (List.subset_append_left _ _),
    fun hFlushes hOpen hNone => absurd hNone (hQuiet hFlushes hOpen)⟩

theorem isClosed_iff : a.isClosed = true ↔ a.arena = none := by
  rw [isClosed, Option.isNone_iff_eq_none]

/-- A command that changes the tables, or fails. -/
theorem IsWriter.ofTables (h : IsWriter l lost a m) {result : Except Error Archive}
    (hQuiet : ¬ command.Flushes)
    (hAlters : ∀ a', result = .ok a' → Alters a a')
    (hReads : ∀ a', a.tables.readsBack = true → a.IsOrderly → result = .ok a' →
      a'.tables.readsBack = true) :
    WriterOutcome l lost command a m (.ofTables a m result) := by
  cases hResult : result with
  | error e => exact h.writerOutcome fun hFlushes => absurd hFlushes hQuiet
  | ok a' =>
      have hAltered := hAlters a' hResult
      rcases h.memory with hClosed | ⟨dir, doc, file, front, hPublishing⟩
      · exact absurd hClosed hAltered.isOpen.2
      · have hNext := hPublishing.alters hAltered
          (hReads a' hPublishing.readsBack hPublishing.orderly hResult)
        exact ⟨.refl h.disk, hNext.publishesDocument.isWriter.mono (List.subset_append_left _ _),
          fun hFlushes => absurd hFlushes hQuiet⟩

theorem IsWriter.flush (hPlain : l.HasPlainNames) (h : IsWriter l lost a m) :
    WriterOutcome l lost .flush a m (Command.flush.perform a m) := by
  rcases h.memory with hClosed | ⟨dir, doc, file, front, hPublishing⟩
  · obtain ⟨e, hPerform⟩ := perform_flush_of_closed (m := m) hClosed
    rw [hPerform]
    refine h.writerOutcome fun _ hOpen => ?_
    rw [isClosed_iff.2 hClosed] at hOpen
    cases hOpen
  · obtain ⟨hPasses, hStored, hTables, -, doc', hNext, hSaved⟩ := hPublishing.flush hPlain none rfl
    refine ⟨hPasses, hNext.publishesDocument.isWriter.mono (List.subset_append_left _ _),
      fun _ _ hNone => ?_⟩
    obtain ⟨-, hDescribes, hAll⟩ := hSaved hNone
    refine ⟨doc', hNext.disk.load, ?_⟩
    set o := Outcome.ofResult none (Archive.flush (a, m)) with hOutcome
    show doc'.Describes o.archive.tables o.archive.dataLength lost ∧
      (_ → doc'.Describes o.archive.tables o.archive.dataLength []) ∧
      (_ → o.archive.dataLength = a.dataLength)
    rw [hTables, hNext.dataLength, hPublishing.dataLength]
    exact ⟨hDescribes, fun hNeeds => hAll (hNeeds.resolve_right fun hNe => hNe hStored),
      fun _ => rfl⟩

theorem IsWriter.close (hPlain : l.HasPlainNames) (h : IsWriter l lost a m) :
    WriterOutcome l lost .close a m (Command.close.perform a m) := by
  rcases h.memory with hClosed | ⟨dir, doc, file, front, hPublishing⟩
  · have hPerform : Command.close.perform a m = ⟨none, none, a, m⟩ := by
      simp [Command.perform, Archive.close, isClosed, hClosed, Outcome.ofResult]
    rw [hPerform]
    refine h.writerOutcome fun _ hOpen => ?_
    rw [isClosed_iff.2 hClosed] at hOpen
    cases hOpen
  · obtain ⟨arena, hArena, -⟩ := hPublishing.arena
    obtain ⟨hPasses, hStored, hTables, -, doc', hNext, hSaved⟩ :=
      hPublishing.flush hPlain none rfl
    rw [perform_close_of_open hArena]
    refine ⟨hPasses, ⟨hNext.layout, hNext.disk.readsBack, hNext.readsBack, Or.inl rfl⟩,
      fun _ _ hNone => ?_⟩
    obtain ⟨hRecorded, hDescribes, hAll⟩ := hSaved hNone
    refine ⟨doc', hNext.disk.load, ?_⟩
    set o := Outcome.ofResult none (Archive.flush (a, m)) with hOutcome
    -- a closed archive has the recorded length
    show doc'.Describes o.archive.tables o.archive.recordedLength lost ∧
      (_ → doc'.Describes o.archive.tables o.archive.recordedLength []) ∧
      (_ → o.archive.recordedLength = a.dataLength)
    rw [hTables, hRecorded, hPublishing.dataLength]
    exact ⟨hDescribes, fun hNeeds => hAll (hNeeds.resolve_right fun hNe => hNe hStored),
      fun _ => rfl⟩

theorem IsWriter.store (hPlain : l.HasPlainNames) (h : IsWriter l lost a m)
    (durability : Durability) {blob : Blob}
    (hKept : blob.point.metainfo.firstNonFinite? = none → blob.point.readsBack = true) :
    WriterOutcome l lost (.store durability blob) a m
      ((Command.store durability blob).perform a m) := by
  rcases h.memory with hClosed | ⟨dir, doc, file, front, hPublishing⟩
  · rw [perform_store_of_closed hClosed]
    exact h.writerOutcome fun _ _ hNone => by cases hNone
  · rcases hPublishing.append_cases blob hKept with ⟨e, hAppend⟩ |
      ⟨e, m', hAppend, hPasses, hNext⟩ | ⟨r, a', m', front', hAppend, hPasses, hNext, hDirty⟩
    · rw [perform_store_of_error hAppend]
      exact h.writerOutcome fun _ _ hNone => by cases hNone
    · rw [perform_store_of_error hAppend]
      exact ⟨hPasses, hNext.publishesDocument.isWriter, fun _ _ hNone => by cases hNone⟩
    · rw [perform_store_of_ok hAppend]
      -- only a durable command saves its tables
      by_cases hAlways : durability = .always
      · rw [if_pos hAlways]
        obtain ⟨hFlushed, hStored, hTables, -, doc', hLast, hSaved⟩ :=
          hNext.flush hPlain (some blob) rfl
        refine ⟨hPasses.trans hFlushed,
          hLast.publishesDocument.isWriter.mono (List.subset_append_left _ _),
          fun _ _ hNone => ⟨doc', hLast.disk.load, ?_⟩⟩
        obtain ⟨-, hDescribes, hAll⟩ := hSaved hNone
        rw [hTables, hLast.dataLength, hStored]
        refine ⟨hDescribes, fun _ => hAll ?_, fun hNone => by cases hNone⟩
        simp [needsFlush, hDirty]
      · rw [if_neg hAlways]
        refine ⟨hPasses, hNext.publishesDocument.isWriter.mono (List.subset_append_left _ _), ?_⟩
        intro hFlushes
        cases durability with
        | always => exact absurd rfl hAlways
        | standard => exact hFlushes.elim

theorem IsWriter.reopen (hPlain : l.HasPlainNames) (h : IsWriter l lost a m)
    (settings : Settings) (sync : Bool) :
    WriterOutcome l lost (.reopen settings sync) a m
      ((Command.reopen settings sync).perform a m) := by
  have hLayout := h.layout
  subst hLayout
  have hOpen := continues_openForWrite hPlain h.disk settings sync
  have hPasses := hOpen.passes
  cases hResult : openForWrite a.layout settings sync m with
  | error e m' =>
      rw [hResult] at hPasses
      have hPerform : (Command.reopen settings sync).perform a m =
          ⟨none, some e, { a with arena := none }, m'⟩ := by
        simp only [Command.perform, hResult]
      rw [hPerform]
      exact ⟨hPasses, ⟨rfl, hPasses.last, h.tables, Or.inl rfl⟩, fun hFlushes => hFlushes.elim⟩
  | ok a' m' =>
      rw [hResult] at hPasses
      have hPerform : (Command.reopen settings sync).perform a m = ⟨none, none, a', m'⟩ := by
        simp only [Command.perform, hResult]
      rw [hPerform]
      have hPublishes := (hOpen.reaches a' m' hResult).mono (List.nil_subset lost)
      exact ⟨hPasses, hPublishes.isWriter.mono (List.subset_append_left _ _),
        fun hFlushes => hFlushes.elim⟩

/-- What every command does to a writer, whatever it is given and wherever it fails. -/
theorem IsWriter.perform (hPlain : l.HasPlainNames) (h : IsWriter l lost a m)
    (hKept : command.IsKept) : WriterOutcome l lost command a m (command.perform a m) := by
  cases command with
  | registerField info =>
      refine h.ofTables not_false ?_ ?_
      · intro a' hOk
        obtain ⟨r, hRegister⟩ := exists_registration hOk
        exact alters_of_registerField hRegister
      · intro a' hReads hOrderly hOk
        obtain ⟨r, hRegister⟩ := exists_registration hOk
        exact readsBack_of_registerField hReads hOrderly hKept hRegister
  | registerSavepoint point =>
      exact h.ofTables not_false (fun a' hOk => alters_of_registerSavepoint hOk)
        fun a' hReads _ hOk => readsBack_of_registerSavepoint hReads hKept hOk
  | addMetainfo key value =>
      exact h.ofTables not_false (fun a' hOk => alters_of_addMetainfo hOk)
        fun a' hReads _ hOk => readsBack_of_addMetainfo hReads hKept hOk
  | addFieldMetainfo field key value =>
      exact h.ofTables not_false (fun a' hOk => alters_of_addFieldMetainfo hOk)
        fun a' hReads hOrderly hOk => readsBack_of_addFieldMetainfo hReads hOrderly hKept hOk
  | store durability blob => exact h.store hPlain durability hKept
  | flush => exact h.flush hPlain
  | close => exact h.close hPlain
  | reopen settings sync => exact h.reopen hPlain settings sync

/-! ## Runs -/

/-- The savepoints that are known only because bytes could not be written, in order. -/
def strandedBy (moments : List Moment) : List Savepoint :=
  moments.flatMap fun x => x.command.stranded x.stored x.error

/-- A run continues the archive, and leaves a writer. -/
theorem IsWriter.run (hPlain : l.HasPlainNames) (h : IsWriter l lost a m)
    {commands : List Command} (hKept : ∀ c ∈ commands, c.IsKept) :
    Machine.Passes l m (afterRun commands a m).2 ∧
      IsWriter l (lost ++ strandedBy (run commands a m)) (afterRun commands a m).1
        (afterRun commands a m).2 := by
  induction commands generalizing lost a m with
  | nil => exact ⟨.refl h.disk, h.mono (List.subset_append_left _ _)⟩
  | cons command rest ih =>
      have hStep := h.perform hPlain (hKept command List.mem_cons_self)
      obtain ⟨hPasses, hWriter⟩ := ih hStep.writer fun c hc => hKept c (List.mem_cons_of_mem _ hc)
      rw [List.append_assoc] at hWriter
      exact ⟨hStep.passes.trans hPasses, hWriter⟩

end FieldArchive.Archive

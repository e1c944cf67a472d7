import FieldArchive.Proofs.Archive.Resuming

/-!
# What a flush leaves behind

Wherever a run on a new archive has come to, and whatever has failed on the way, a flush
that succeeds leaves a metadata file from which the tables in memory can be built again,
whether it had something to do or not.  The same is true of closing an open archive and
of a durable write (`Archive.flush_complete`).

There is one exception.  Storing bytes at a new savepoint makes the savepoint known
before the data file is written.  If the write fails the savepoint stays, but the archive
is not marked as changed, so a flush after that may find nothing to do and leave the
savepoint out (`Archive.flush_of_stranded`).  Only savepoints of such attempts can be
missing, and none is once anything else has changed.
-/

namespace FieldArchive

variable {l : Layout} {s : Settings} {dir : NodeId} {saved saved' : Ledger} {tables : Tables}
  {m m' : Machine}

theorem Machine.Advances.readsBack (h : Machine.Advances l s dir saved tables m saved' m')
    (hSaved : saved.readsBack = true) (hTables : tables.readsBack = true) :
    saved'.readsBack = true := by
  cases h with
  | proceed hTo => exact hSaved
  | replace hTo hRecords =>
      rw [← hRecords.readsBack_eq]
      exact hTables

/-- From the metadata of a disk that keeps a ledger tables are built that record it. -/
theorem Disk.HoldsLedger.loads {d : Disk} (hUsable : l.IsUsable) (h : d.HoldsLedger l s dir saved)
    (hReads : saved.readsBack = true) :
    ∃ doc tables, Document.load d l.metadata = .ok doc ∧ doc.tables = .ok tables ∧
      tables.Records s saved := by
  obtain ⟨file, data, hKeeps⟩ := h
  obtain ⟨id, createdAt, updatedAt, hLoad⟩ := Document.load_of_readsBack hUsable hKeeps hReads
  obtain ⟨tables, hTables, hRepresents⟩ :=
    Document.exists_tables (hKeeps.isValid.isSound id createdAt updatedAt)
  exact ⟨_, tables, hLoad, hTables, hRepresents.records⟩

/-- A write fails if the next call does. -/
theorem Machine.write_of_fault {fault : Fault} (hFault : m.environment.fault m.calls = some fault)
    (id : NodeId) (offset : Nat) {bytes : List UInt8} (hBytes : bytes ≠ []) :
    ∃ e m', write id offset bytes m = .error e m' := by
  have hSome : bytes.isEmpty = false := by simpa using hBytes
  by_cases hRoom : Disk.maxFileLength < offset + bytes.length
  · refine ⟨.fileTooLarge, m, ?_⟩
    simp only [write, hSome, Bool.false_eq_true, if_false, if_pos hRoom]
    rfl
  · simp only [write, hSome, Bool.false_eq_true, if_false, if_neg hRoom, commit, hFault]
    split
    · exact ⟨_, _, rfl⟩
    · exact ⟨_, _, rfl⟩

namespace Archive

variable {a : Archive} {blobs : List Blob} {lost : List Savepoint} {command : Command}

/-- A writer in a run that keeps a ledger, with metainfo that documents give back. -/
structure RereadableRunState (l : Layout) (s : Settings) (dir : NodeId) (blobs : List Blob)
    (lost : List Savepoint) (saved : Ledger) (a : Archive) (m : Machine) : Prop where
  writer : IsWriter l lost a m
  runState : LedgerRunState l s dir blobs saved a m
  readsBack : saved.readsBack = true

theorem RereadableRunState.perform (hPlain : l.HasPlainNames)
    (h : RereadableRunState l s dir blobs lost saved a m) (hBuilt : command.IsBuilt)
    (hKept : command.IsKept)
    (hDigest : Set.InjOn (Checksum.compute s.checksum)
      (bytesOf (blobs ++ (command.perform a m).stored.toList))) :
    ∃ saved', RereadableRunState l s dir (blobs ++ (command.perform a m).stored.toList)
      (lost ++ command.stranded (command.perform a m).stored (command.perform a m).error) saved'
      (command.perform a m).archive (command.perform a m).machine := by
  have hSettles := h.writer.perform hPlain hKept
  obtain ⟨saved', -, hRunState, hAdvances, -⟩ := h.runState.perform h.readsBack hBuilt hDigest
  exact ⟨saved', hSettles.writer, hRunState,
    hAdvances.readsBack h.readsBack hSettles.writer.tables⟩

theorem RereadableRunState.run (hPlain : l.HasPlainNames)
    (h : RereadableRunState l s dir blobs lost saved a m) {commands : List Command}
    (hBuilt : ∀ c ∈ commands, c.IsBuilt) (hKept : ∀ c ∈ commands, c.IsKept)
    (hDigest : Set.InjOn (Checksum.compute s.checksum)
      (bytesOf (blobs ++ storedBy (run commands a m)))) :
    ∃ saved', RereadableRunState l s dir (blobs ++ storedBy (Archive.run commands a m))
      (lost ++ strandedBy (Archive.run commands a m)) saved'
      (afterRun commands a m).1 (afterRun commands a m).2 := by
  induction commands generalizing blobs lost saved a m with
  | nil =>
      rw [show storedBy (Archive.run [] a m) = [] from rfl, List.append_nil,
        show strandedBy (Archive.run [] a m) = [] from rfl, List.append_nil]
      exact ⟨saved, h⟩
  | cons command rest ih =>
      set o := command.perform a m with hOutcome
      have hStored : storedBy (Archive.run (command :: rest) a m) =
          o.stored.toList ++ storedBy (Archive.run rest o.archive o.machine) := rfl
      have hStranded : strandedBy (Archive.run (command :: rest) a m) =
          command.stranded o.stored o.error ++
            strandedBy (Archive.run rest o.archive o.machine) := rfl
      rw [hStored, ← List.append_assoc] at hDigest ⊢
      rw [hStranded, ← List.append_assoc]
      obtain ⟨saved', hNext⟩ := h.perform hPlain (hBuilt command List.mem_cons_self)
        (hKept command List.mem_cons_self)
        (hDigest.mono (bytesOf_mono (List.subset_append_left _ _)))
      exact ih hNext (fun c hc => hBuilt c (List.mem_cons_of_mem _ hc))
        (fun c hc => hKept c (List.mem_cons_of_mem _ hc)) hDigest

theorem run_append (front back : List Command) (a : Archive) (m : Machine) :
    run (front ++ back) a m =
      run front a m ++ run back (afterRun front a m).1 (afterRun front a m).2 := by
  induction front generalizing a m with
  | nil => rfl
  | cons command front ih =>
      simp only [List.cons_append, run, afterRun]
      rw [ih]

theorem afterRun_append (front back : List Command) (a : Archive) (m : Machine) :
    afterRun (front ++ back) a m =
      afterRun back (afterRun front a m).1 (afterRun front a m).2 := by
  induction front generalizing a m with
  | nil => rfl
  | cons command front ih => exact ih _ _

theorem storedBy_run_append_singleton (front : List Command) (last : Command) (a : Archive)
    (m : Machine) : storedBy (run (front ++ [last]) a m) = storedBy (run front a m) ++
      (last.perform (afterRun front a m).1 (afterRun front a m).2).stored.toList := by
  rw [run_append, storedBy, List.flatMap_append]
  simp [storedBy, run]

/-- A writer on a new archive. -/
theorem rereadableRunState_of_isVacant {sync : Bool} {start : Machine} (hPlain : l.HasPlainNames)
    (hStart : start.disk.ReadsBack l) (hVacant : l.IsVacant start)
    (hCreated : openForWrite l s sync start = .ok a m) :
    ∃ dir, RereadableRunState l s dir [] [] .empty a m := by
  obtain ⟨dir, hFollows, -, -⟩ :=
    openForWrite_of_isVacant hPlain hStart.wellFormed hVacant hCreated
  have hRunState : LedgerRunState l s dir [] .empty a m :=
    .of_followsLedger (hFollows.weaken False.elim) (.refl _) fun w hw => by cases hw
  have hPublishes := (continues_openForWrite hPlain hStart s sync).reaches a m hCreated
  exact ⟨dir, hPublishes.isWriter, hRunState, rfl⟩

/-- A flush that succeeds leaves nothing behind, but for savepoints whose bytes could not
be written.  After any run on a new archive, if a flush returns without an error, or
closing the archive while it is open, or a durable write, then the metadata file is
loaded as a document from which tables are built with the metainfo, fields and entries
in memory, it records the length of the data file, and its savepoints are those in memory
without the last ones.  Each of these comes from an earlier attempt to store bytes that
failed in the data file; there are none if the flush had something to do. -/
theorem flush_complete {directory stem : String} {sync : Bool} {start : Machine}
    (hLayout : Layout.make directory stem = .ok l) (hStart : start.disk.ReadsBack l)
    (hVacant : l.IsVacant start) (hCreated : openForWrite l s sync start = .ok a m)
    {commands : List Command} {last : Command} (hBuilt : ∀ c ∈ commands ++ [last], c.IsBuilt)
    (hKept : ∀ c ∈ commands ++ [last], c.IsKept)
    (hDigest : Set.InjOn (Checksum.compute s.checksum)
      (bytesOf (storedBy (run (commands ++ [last]) a m)))) :
    let before := afterRun commands a m
    let o := last.perform before.1 before.2
    last.Flushes → before.1.isClosed = false → o.error = none →
    ∃ doc t missing, Document.load o.machine.disk l.metadata = .ok doc ∧ doc.tables = .ok t ∧
      t.metainfo = o.archive.tables.metainfo ∧
      t.catalog.fields = o.archive.tables.catalog.fields ∧
      t.offsets.entries = o.archive.tables.offsets.entries ∧
      o.archive.tables.offsets.savepoints = t.offsets.savepoints ++ missing ∧
      missing ⊆ strandedBy (run commands a m) ∧
      (before.1.needsFlush = true ∨ o.stored ≠ none → missing = []) ∧
      doc.dataLength = o.archive.dataLength ∧
      (o.stored = none → doc.dataLength = before.1.dataLength) := by
  intro before o hFlushes hOpen hDone
  have hPlain := Layout.hasPlainNames_of_make hLayout
  rw [storedBy_run_append_singleton] at hDigest
  obtain ⟨dir, hNew⟩ := rereadableRunState_of_isVacant hPlain hStart hVacant hCreated
  obtain ⟨saved, hBefore⟩ := hNew.run hPlain (fun c hc => hBuilt c (List.mem_append_left _ hc))
    (fun c hc => hKept c (List.mem_append_left _ hc))
    (hDigest.mono (bytesOf_mono (List.subset_append_left _ _)))
  have hLastKept := hKept last (by simp)
  obtain ⟨saved', hAfter⟩ := hBefore.perform hPlain (hBuilt last (by simp)) hLastKept hDigest
  -- the document that describes the tables is one from which tables can be built
  obtain ⟨doc, hLoad, hDescribes, hAll, hLength⟩ :=
    (hBefore.writer.perform hPlain hLastKept).saved hFlushes hOpen hDone
  obtain ⟨doc', t, hLoad', hTables, -⟩ :=
    hAfter.runState.holds.loads hAfter.runState.usable hAfter.readsBack
  obtain rfl : doc = doc' := Except.ok.inj (hLoad.symm.trans hLoad')
  have hRepresents := Document.tables_ok hTables
  obtain ⟨missing, hSavepoints, hMissing⟩ := hDescribes.savepoints
  refine ⟨doc, t, missing, hLoad, hTables, hRepresents.metainfo.trans hDescribes.metainfo,
    hRepresents.fields.trans hDescribes.fields, hRepresents.entries.trans hDescribes.offsets, ?_,
    hMissing, ?_, hDescribes.dataLength, fun hNone => hDescribes.dataLength.trans (hLength hNone)⟩
  · rw [hRepresents.savepoints]
    exact hSavepoints
  · intro hNeeds
    obtain ⟨more, hSame, hNothing⟩ := (hAll hNeeds).savepoints
    rw [List.subset_nil.1 hNothing] at hSame
    exact List.append_cancel_left (hSavepoints.symm.trans hSame)

/-- Where the next call fails, what is stored was there before. -/
theorem IsOrderly.deduplicated_of_fault (h : a.IsOrderly) {fault : Fault}
    (hFault : m.environment.fault m.calls = some fault) {blob : Blob} (hBytes : blob.bytes ≠ [])
    {r : Appended} {state : Archive × Machine}
    (hAppend : append blob.point blob.field blob.bytes (a, m) = .ok r state) :
    r.deduplicated = true := by
  rcases h.append_cases blob.point blob.field blob.bytes m with ⟨e, hError, -⟩ |
    ⟨arena, catalog, e, m₁, -, -, hError⟩ | ⟨arena, catalog, extent, -, -, hOk⟩ |
    ⟨arena, catalog, m₁, -, hWrite, -⟩
  · rw [hError] at hAppend
    cases hAppend
  · rw [hError] at hAppend
    cases hAppend
  · rw [hOk] at hAppend
    cases hAppend
    rfl
  · obtain ⟨e, m₂, hFails⟩ := Machine.write_of_fault hFault arena.file arena.length hBytes
    rw [hFails] at hWrite
    cases hWrite

/-- Where the next call fails, new bytes are not stored that a ledger accepts. -/
theorem ServesLedger.append_of_fault {id : ArchiveId} {createdAt : String} {live next : Ledger}
    (h : ServesLedger l s dir id createdAt live a m) (hOrderly : a.IsOrderly) {fault : Fault}
    (hFault : m.environment.fault m.calls = some fault) {blob : Blob} (hBytes : blob.bytes ≠ [])
    (hInjective : Set.InjOn (Checksum.compute s.checksum) {p | p ∈ live.payloads ++ [blob.bytes]})
    {record : OffsetRecord} (hRespond : (Request.append blob).respond s live =
      .ok (.appended ⟨record, false⟩, next)) :
    ∃ e a' m', append blob.point blob.field blob.bytes (a, m) = .error (.io e) (a', m') := by
  obtain ⟨saved, hFollows, -⟩ := h.ledger
  rcases hFollows.append_matches hInjective with ⟨e, -, hRefused⟩ | ⟨e, state, hFailed⟩ |
    ⟨r, a', m', next', hOk, hStored, -⟩
  · rw [hRespond] at hRefused
    cases hRefused
  · exact ⟨e, state.1, state.2, hFailed⟩
  · have hShared := hOrderly.deduplicated_of_fault hFault hBytes hOk
    rw [hRespond] at hStored
    cases hStored
    cases hShared

/-- The exception is real.  If an archive has nothing to flush when the bytes for a new
savepoint cannot be written, then a flush succeeds without doing anything, and the
document on the disk does not have the savepoint, which the archive has. -/
theorem flush_of_stranded {a' : Archive} {e : IoError} {blob : Blob} (h : IsWriter l lost a m)
    (hClean : a.needsFlush = false) (hNew : a.tables.offsets.savepointId? blob.point = none)
    (hAppend : append blob.point blob.field blob.bytes (a, m) = .error (.io e) (a', m')) :
    Archive.flush (a', m') = .ok () (a', m') ∧ blob.point ∈ a'.tables.offsets.savepoints ∧
      ∃ doc, Document.load m'.disk l.metadata = .ok doc ∧
        ∀ p ∈ doc.savepoints, (p == blob.point) = false := by
  rcases h.memory with hClosed | ⟨dir, doc, file, front, hPublishing⟩
  · simp only [append, checkAppend, requireMode_of_closed hClosed, bind, Except.bind] at hAppend
    cases hAppend
  · obtain ⟨opened, hOpened, hFile, hLength⟩ := hPublishing.arena
    rcases hPublishing.orderly.append_cases blob.point blob.field blob.bytes m with
      ⟨e', hError, hIo, -⟩ | ⟨arena, catalog, e', m₁, hTakes, hWrite, hError⟩ |
      ⟨arena, catalog, extent, -, -, hOk⟩ | ⟨arena, catalog, m₁, -, -, hOk⟩
    · -- what is refused is not an error of the file system
      rw [hError] at hAppend
      cases hAppend
      cases hIo
    · rw [hError] at hAppend
      cases hAppend
      have hSame := hTakes.arena
      rw [hOpened] at hSame
      cases hSame
      rw [hFile, hLength] at hWrite
      obtain ⟨-, hDisk⟩ := hPublishing.write_cases.1 e hWrite
      have hSavepoints : (a.withSavepoint blob.point).tables.offsets.savepoints =
          a.tables.offsets.savepoints ++ [blob.point] := by
        show (a.tables.offsets.registerSavepoint blob.point).2.savepoints = _
        rw [OffsetTable.registerSavepoint_of_none hNew]
      have hMode : (a.withSavepoint blob.point).mode = .write := hPublishing.mode
      have hArena : (a.withSavepoint blob.point).arena = some opened := hOpened
      have hStill : (a.withSavepoint blob.point).needsFlush = false := hClean
      have hOthers : a.tables.offsets.savepoints.any (· == blob.point) = false := by
        rw [← hPublishing.orderly.tables.offsets.isSome_savepointId?, hNew]
        rfl
      refine ⟨?_, ?_, doc, hDisk.load, fun p hp => ?_⟩
      · rw [flush_eq hMode hArena, hStill]
        rfl
      · rw [hSavepoints]
        exact List.mem_append_right _ (List.mem_singleton_self _)
      · have hKnown := List.any_eq_false.1 hOthers p (hPublishing.savepoints.subset hp)
        exact Bool.eq_false_of_not_eq_true hKnown
    · rw [hOk] at hAppend
      cases hAppend
    · rw [hOk] at hAppend
      cases hAppend

namespace Sample

/-- A durable write leaves its tables behind. -/
theorem flush_complete_sample : ∃ a m doc t, create = .ok a m ∧
    Document.load (afterRun [register, store] a m).2.disk Session.Sample.layout.metadata = .ok doc ∧
    doc.tables = .ok t ∧
    t.offsets.savepoints = (afterRun [register, store] a m).1.tables.offsets.savepoints ∧
    t.offsets.entries = (afterRun [register, store] a m).1.tables.offsets.entries := by
  obtain ⟨a, m, b, c, m', hCreate, hRegister, hStore, hOpen, -, -⟩ := exists_stored
  have hBuilt : ∀ c ∈ [register] ++ [store], c.IsBuilt :=
    List.forall_mem_cons.2 ⟨Session.Sample.isBuilt_temperature, List.forall_mem_singleton.2 trivial⟩
  have hKept : ∀ c ∈ [register] ++ [store], c.IsKept :=
    List.forall_mem_cons.2 ⟨fun _ => by decide +kernel,
      List.forall_mem_singleton.2 fun _ => by decide +kernel⟩
  have hBefore : afterRun [register] a m = (b, m) := by rw [afterRun, hRegister, afterRun]
  have hDigest : Set.InjOn (Checksum.compute Session.Sample.settings.checksum)
      (bytesOf (storedBy (run ([register] ++ [store]) a m))) := by
    rw [storedBy_run_append_singleton, hBefore, hStore, run, hRegister]
    simp [storedBy, run, bytesOf]
  have hFlush := flush_complete Session.Sample.layout_eq (Disk.readsBack_empty _)
    Session.Sample.isVacant hCreate hBuilt hKept hDigest
  rw [hBefore] at hFlush
  obtain ⟨doc, t, missing, hLoad, hTables, -, -, hEntries, hSavepoints, -, hNothing, -⟩ :=
    hFlush trivial hOpen (by rw [hStore])
  have hSome : (store.perform b m).stored ≠ none := by simp [hStore]
  rw [hNothing (Or.inr hSome), List.append_nil] at hSavepoints
  have hAfter : afterRun [register, store] a m =
      ((store.perform b m).archive, (store.perform b m).machine) := by
    rw [afterRun, hRegister, afterRun, afterRun]
  refine ⟨a, m, doc, t, hCreate, ?_⟩
  rw [hAfter]
  exact ⟨hLoad, hTables, hSavepoints.symm, hEntries⟩

theorem isKept_registering : ∀ c ∈ [register, Command.close], c.IsKept :=
  List.forall_mem_cons.2 ⟨fun _ => by decide +kernel, List.forall_mem_singleton.2 trivial⟩

/-- A machine on which every call fails. -/
def failing (d : Disk) : Machine :=
  .start ⟨fun _ => "", fun _ => default, fun _ => some ⟨.fileTooLarge, 0⟩⟩ d

/-- An archive with a field is closed, and opened again on that machine. -/
theorem exists_reopened : ∃ a m kept b, create = .ok a m ∧
    (afterRun [register, .close] a m).2.disk = kept ∧
    openForWrite Session.Sample.layout Session.Sample.settings true (failing kept) =
      .ok b (failing kept) ∧
    b.needsFlush = false ∧ PublishesDocument Session.Sample.layout [] b (failing kept) ∧
    ∃ dir id createdAt, ServesLedger Session.Sample.layout Session.Sample.settings dir id createdAt
      registered b (failing kept) := by
  obtain ⟨a, m, a₁, dir, hCreate, hWorld, hRegister, hRegistered⟩ := exists_registered
  have hPlain := Layout.hasPlainNames_of_make Session.Sample.layout_eq
  have hText : Writable Session.Sample.settings default "" m.environment registered := by
    rw [hWorld]
    exact writable_of_mem (by simp)
  obtain ⟨a₂, m₂, hClose, -, -, hUsable, ⟨file, hKeeps⟩, hBears, -⟩ :=
    hRegistered.close hPlain fun e state hError =>
      hRegistered.close_of_isCalm (fun n => by rw [hWorld]; rfl) hText hError
  have hAfter : afterRun [register, .close] a m = (a₂, m₂) := by
    rw [afterRun, hRegister, afterRun, afterRun]
    simp only [Command.perform, hClose, Outcome.ofResult]
  -- the disk was left by a run, so it is one that can be written on
  have hKept : m₂.disk.ReadsBack Session.Sample.layout := by
    have hWriter := ((continues_openForWrite hPlain (Disk.readsBack_empty _) _ _).reaches a m
      hCreate).isWriter
    have hLast := (hWriter.run hPlain isKept_registering).2
    rw [hAfter] at hLast
    exact hLast.disk
  obtain ⟨b, hOpen, hAgain, hClean⟩ :=
    servesLedger_of_openForWrite (m := failing m₂.disk) hUsable hKeeps hBears (by rfl) true
  exact ⟨a, m, m₂.disk, b, hCreate, by rw [hAfter], hOpen, hClean,
    (continues_openForWrite hPlain (m := failing m₂.disk) hKept _ _).reaches b _ hOpen,
    dir, _, _, hAgain⟩

/-- A snapshot at a new savepoint cannot be stored there, and the flush after it succeeds
although the document does not have the savepoint. -/
theorem flush_of_stranded_sample : ∃ a m kept b e b' m', create = .ok a m ∧
    (afterRun [register, .close] a m).2.disk = kept ∧
    openForWrite Session.Sample.layout Session.Sample.settings true (failing kept) =
      .ok b (failing kept) ∧
    append blob.point blob.field blob.bytes (b, failing kept) = .error (.io e) (b', m') ∧
    Archive.flush (b', m') = .ok () (b', m') ∧ blob.point ∈ b'.tables.offsets.savepoints ∧
    ∃ doc, Document.load m'.disk Session.Sample.layout.metadata = .ok doc ∧
      ∀ p ∈ doc.savepoints, (p == blob.point) = false := by
  obtain ⟨a, m, kept, b, hCreate, hKept, hOpen, hClean, hPublishes, dir, id, createdAt, hServes⟩ :=
    exists_reopened
  have hMemory := hPublishes
  obtain ⟨_, _, _, _, hPublishing⟩ := hMemory
  obtain ⟨saved, hFollows, -⟩ := hServes.ledger
  have hNew : b.tables.offsets.savepointId? blob.point = none := by
    have hNone : b.tables.offsets.savepoints = [] := hFollows.tables.savepoints
    rw [← Option.not_isSome_iff_eq_none, hPublishing.orderly.tables.offsets.isSome_savepointId?,
      hNone]
    nofun
  obtain ⟨e, b', m', hAppend⟩ := hServes.append_of_fault hPublishing.orderly (by rfl)
    (by decide) injOn_registered (by rfl)
  exact ⟨a, m, kept, b, e, b', m', hCreate, hKept, hOpen, hAppend,
    flush_of_stranded hPublishes.isWriter hClean hNew hAppend⟩

end Sample
end Archive
end FieldArchive

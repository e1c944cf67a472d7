import FieldArchive.Proofs.Archive.Flushing

/-!
# Descriptions in an archive

An archive compares a description with the one that has its name, but does not check it
otherwise: whatever is registered first is kept, saved with the tables, and checked only
when the archive is opened again.  So the descriptions in the tables are those that
commands gave (`Archive.exists_fields_afterRun`), and whether the archive can be opened
again depends on them alone (`Archive.RereadableRunState.opens`, `Archive.validate_of_openForRead`,
`Archive.validate_of_openForWrite`).
-/

namespace FieldArchive

/-- Metainfo is not checked. -/
theorem FieldInfo.validate_congr {f f' : FieldInfo} (h : f.bare = f'.bare) :
    f.validate = f'.validate := by
  show f.bare.validate = f'.bare.validate
  rw [h]

namespace Archive

variable {l : Layout} {s : Settings} {dir : NodeId} {saved : Ledger} {a a' : Archive}
  {m m' : Machine} {blobs : List Blob} {lost : List Savepoint} {command : Command}
  {commands : List Command} {info : FieldInfo} {doc : Document}

/-! ## What commands add -/

/-- Commands that go on with the archive, open as it is. -/
def Command.Stays : Command → Prop
  | .close | .reopen _ _ => False
  | _ => True

/-- The second archive is open if the first is.  It has the descriptions of the first, but
for metainfo, and some of those that a command gives. -/
structure Adds (command : Command) (a a' : Archive) : Prop where
  isOpen : a.isClosed = false → a'.isClosed = false
  fields : ∃ added, a'.tables.catalog.fields.map FieldInfo.bare =
      a.tables.catalog.fields.map FieldInfo.bare ++ added ∧
    ∀ f ∈ added, ∃ info, command = .registerField info ∧ f = info.bare

theorem adds_of_eq (hOpen : a.isClosed = false → a'.isClosed = false)
    (h : a'.tables.catalog.fields.map FieldInfo.bare = a.tables.catalog.fields.map FieldInfo.bare) :
    Adds command a a' :=
  ⟨hOpen, [], by rw [h, List.append_nil], nofun⟩

theorem Alters.isClosed_eq (h : Alters a a') : a'.isClosed = a.isClosed := by
  rw [h.same]
  rfl

theorem adds_ofTables {result : Except Error Archive}
    (h : ∀ a', result = .ok a' → Adds command a a') :
    Adds command a (Outcome.ofTables a m result).archive := by
  cases result with
  | error e => exact adds_of_eq (fun hOpen => hOpen) rfl
  | ok a' => exact h a' rfl

theorem adds_of_registerField {r : Registration}
    (hOk : a.registerField info = .ok (r, a')) : Adds (.registerField info) a a' := by
  cases hFind : a.tables.catalog.find? info.name with
  | some registered =>
      obtain rfl := registerField_of_known hFind hOk
      exact adds_of_eq (fun hOpen => hOpen) rfl
  | none =>
      obtain ⟨catalog, -, hFields, rfl⟩ := registerField_of_new hFind hOk
      refine ⟨fun hOpen => hOpen, [info.bare], ?_, ?_⟩
      · show catalog.fields.map FieldInfo.bare = _
        rw [hFields, List.map_append]
        rfl
      · intro f hf
        exact ⟨info, rfl, List.mem_singleton.1 hf⟩

theorem IsOrderly.tables_flush (h : a.IsOrderly) (m : Machine) (stored : Option Blob) :
    (Outcome.ofResult stored (Archive.flush (a, m))).archive.tables = a.tables ∧
      (Outcome.ofResult stored (Archive.flush (a, m))).archive.isClosed = a.isClosed := by
  rcases h.flush_archive m stored with hSame | ⟨-, hSaved⟩
  · rw [hSame]
    exact ⟨rfl, rfl⟩
  · rw [hSaved]
    exact ⟨rfl, rfl⟩

theorem IsOrderly.tables_close (h : a.IsOrderly) (hOpen : a.isClosed = false) (m : Machine) :
    (Command.close.perform a m).archive.tables = a.tables := by
  cases hArena : a.arena with
  | none =>
      rw [isClosed_iff.2 hArena] at hOpen
      cases hOpen
  | some arena =>
      rw [perform_close_of_open hArena]
      exact (h.tables_flush m none).1

/-- An entry is of a field that is described, and so is a flush after it. -/
theorem IsOrderly.adds_withEntry (h : a.IsOrderly) {blob : Blob} {arena : Arena}
    {catalog : Catalog} (hTakes : a.Takes blob.point blob.field blob.bytes arena catalog)
    (arena' : Arena) (hWritable : arena'.writable = arena.writable) (record : OffsetRecord)
    (durability : Durability) (m : Machine) :
    let next := a.withEntry blob.point blob.field record arena' catalog
    Adds (.store durability blob) a
      (if durability = .always then Outcome.ofResult (some blob) (Archive.flush (next, m))
        else ⟨some blob, none, next, m⟩).archive := by
  intro next
  have hFields : next.tables.catalog.fields = a.tables.catalog.fields := hTakes.fields
  split
  · obtain ⟨hTables, hOpen⟩ := (hTakes.isOrderly h record hWritable).tables_flush m (some blob)
    exact adds_of_eq (fun _ => hOpen) (by rw [hTables, hFields])
  · exact adds_of_eq (fun _ => rfl) (by rw [hFields])

/-- Storing bytes adds no description, whether they are refused, fail to be written, are
known by their checksum or are appended. -/
theorem IsOrderly.adds_store (h : a.IsOrderly) (durability : Durability) (blob : Blob)
    (m : Machine) :
    Adds (.store durability blob) a ((Command.store durability blob).perform a m).archive := by
  rcases h.append_cases blob.point blob.field blob.bytes m with ⟨e, hAppend, -⟩ |
    ⟨arena, catalog, e, m', -, -, hAppend⟩ | ⟨arena, catalog, extent, hTakes, -, hAppend⟩ |
    ⟨arena, catalog, m', hTakes, -, hAppend⟩
  · rw [perform_store_of_error hAppend]
    exact adds_of_eq (fun hOpen => hOpen) rfl
  · rw [perform_store_of_error hAppend]
    exact adds_of_eq (fun hOpen => hOpen) rfl
  · rw [perform_store_of_ok hAppend]
    exact h.adds_withEntry hTakes arena rfl _ durability _
  · rw [perform_store_of_ok hAppend]
    exact h.adds_withEntry hTakes { arena with length := arena.length + blob.bytes.length } rfl _
      durability _

/-- A command adds no description but the one that it gives. -/
theorem IsOrderly.adds_perform (h : a.IsOrderly) (hStays : command.Stays) (m : Machine) :
    Adds command a (command.perform a m).archive := by
  -- all but a registration leave the descriptions as they are
  cases command with
  | registerField info =>
      refine adds_ofTables fun a' hOk => ?_
      obtain ⟨r, hRegister⟩ := exists_registration hOk
      exact adds_of_registerField hRegister
  | registerSavepoint point =>
      refine adds_ofTables fun a' hOk => ?_
      have hOpen := (alters_of_registerSavepoint hOk).isClosed_eq
      refine adds_of_eq hOpen.trans ?_
      obtain ⟨_, -, hChecked⟩ := except_bind_eq_ok_iff.1 hOk
      obtain ⟨_, -, hDone⟩ := except_bind_eq_ok_iff.1 hChecked
      split at hDone <;> cases hDone <;> rfl
  | addMetainfo key value =>
      refine adds_ofTables fun a' hOk => ?_
      have hOpen := (alters_of_addMetainfo hOk).isClosed_eq
      refine adds_of_eq hOpen.trans ?_
      obtain ⟨_, -, hChecked⟩ := except_bind_eq_ok_iff.1 hOk
      obtain ⟨_, -, hDone⟩ := except_bind_eq_ok_iff.1 hChecked
      cases hDone
      rfl
  | addFieldMetainfo field key value =>
      refine adds_ofTables fun a' hOk => ?_
      have hOpen := (alters_of_addFieldMetainfo hOk).isClosed_eq
      refine adds_of_eq hOpen.trans ?_
      obtain ⟨_, -, hChecked⟩ := except_bind_eq_ok_iff.1 hOk
      obtain ⟨_, -, hAdded⟩ := except_bind_eq_ok_iff.1 hChecked
      obtain ⟨catalog, hAdd, hDone⟩ := except_bind_eq_ok_iff.1 hAdded
      cases hDone
      exact Catalog.map_bare_of_addMetainfo hAdd
  | store durability blob => exact h.adds_store durability blob m
  | flush =>
      obtain ⟨hTables, hOpen⟩ := h.tables_flush m none
      exact adds_of_eq hOpen.trans (by rw [Command.perform, hTables])
  | close => exact hStays.elim
  | reopen settings sync => exact hStays.elim

/-- A run adds no descriptions but those that its commands give. -/
theorem exists_fields_afterRun (h : a.IsOrderly) (hStays : ∀ c ∈ commands, c.Stays)
    (m : Machine) : ∃ added,
      (afterRun commands a m).1.tables.catalog.fields.map FieldInfo.bare =
        a.tables.catalog.fields.map FieldInfo.bare ++ added ∧
      ∀ f ∈ added, ∃ info, .registerField info ∈ commands ∧ f = info.bare := by
  induction commands generalizing a m with
  | nil => exact ⟨[], by rw [afterRun, List.append_nil], nofun⟩
  | cons command rest ih =>
      obtain ⟨first, hFirst, hGiven⟩ :=
        (h.adds_perform (hStays command List.mem_cons_self) m).fields
      obtain ⟨others, hOthers, hLater⟩ :=
        ih (h.perform command m) (fun c hc => hStays c (List.mem_cons_of_mem _ hc))
          (command.perform a m).machine
      refine ⟨first ++ others, ?_, ?_⟩
      · rw [afterRun, hOthers, hFirst, List.append_assoc]
      · intro f hf
        rcases List.mem_append.1 hf with hOld | hNew
        · obtain ⟨info, rfl, rfl⟩ := hGiven f hOld
          exact ⟨info, List.mem_cons_self, rfl⟩
        · obtain ⟨info, hMem, rfl⟩ := hLater f hNew
          exact ⟨info, List.mem_cons_of_mem _ hMem, rfl⟩

/-- An archive that is open stays so. -/
theorem isOpen_afterRun (h : a.IsOrderly) (hStays : ∀ c ∈ commands, c.Stays)
    (hOpen : a.isClosed = false) (m : Machine) : (afterRun commands a m).1.isClosed = false := by
  induction commands generalizing a m with
  | nil => exact hOpen
  | cons command rest ih =>
      exact ih (h.perform command m) (fun c hc => hStays c (List.mem_cons_of_mem _ hc))
        ((h.adds_perform (hStays command List.mem_cons_self) m).isOpen hOpen) _

/-! ## What is stored was given -/

theorem Command.eq_store_of_stored {b : Blob} (h : (command.perform a m).stored = some b) :
    ∃ durability, command = .store durability b := by
  have hTables : ∀ {result : Except Error Archive},
      (Outcome.ofTables a m result).stored = none := by
    intro result
    cases result <;> rfl
  cases command with
  | store durability blob =>
      refine ⟨durability, ?_⟩
      simp only [perform] at h
      split at h
      · cases h
      · split at h
        · next a' m' _ _ =>
            cases hFlush : Archive.flush (a', m') <;> rw [hFlush] at h <;> cases h <;> rfl
        · cases h
          rfl
  | registerField info => cases hTables.symm.trans h
  | registerSavepoint point => cases hTables.symm.trans h
  | addMetainfo key value => cases hTables.symm.trans h
  | addFieldMetainfo field key value => cases hTables.symm.trans h
  | flush =>
      simp only [perform] at h
      cases hFlush : Archive.flush (a, m) <;> rw [hFlush] at h <;> cases h
  | close =>
      simp only [perform] at h
      cases hClose : Archive.close (a, m) <;> rw [hClose] at h <;> cases h
  | reopen settings sync =>
      simp only [perform] at h
      split at h <;> cases h

theorem mem_of_mem_storedBy {b : Blob} (h : b ∈ storedBy (run commands a m)) :
    ∃ durability, .store durability b ∈ commands := by
  induction commands generalizing a m with
  | nil => cases h
  | cons command rest ih =>
      have hStored : storedBy (run (command :: rest) a m) = (command.perform a m).stored.toList ++
          storedBy (run rest (command.perform a m).archive (command.perform a m).machine) := rfl
      rw [hStored] at h
      rcases List.mem_append.1 h with hFirst | hRest
      · obtain ⟨durability, rfl⟩ := Command.eq_store_of_stored (Option.mem_toList.1 hFirst)
        exact ⟨durability, List.mem_cons_self⟩
      · obtain ⟨durability, hMem⟩ := ih hRest
        exact ⟨durability, List.mem_cons_of_mem _ hMem⟩

/-! ## What is needed to open an archive again -/

/-- A description that does not pass the check is in the tables for good once it is
registered, so the command changes nothing if those at the end all pass. -/
theorem IsOrderly.perform_registerField (h : a.IsOrderly) (hInvalid : info.validate ≠ .ok ())
    (hStays : ∀ c ∈ commands, c.Stays)
    (hValid : ∀ f ∈ (afterRun (.registerField info :: commands) a m).1.tables.catalog.fields,
      f.validate = .ok ()) :
    ∃ e, (Command.registerField info).perform a m = ⟨none, e, a, m⟩ := by
  cases hRegister : a.registerField info with
  | error e =>
      exact ⟨some e, by simp only [Command.perform, hRegister, Except.map, Outcome.ofTables]⟩
  | ok result =>
      obtain ⟨r, a'⟩ := result
      have hPerform : (Command.registerField info).perform a m = ⟨none, none, a', m⟩ := by
        simp only [Command.perform, hRegister, Except.map, Outcome.ofTables]
      cases hFind : a.tables.catalog.find? info.name with
      | some registered =>
          obtain rfl := registerField_of_known hFind hRegister
          exact ⟨none, hPerform⟩
      | none =>
          -- the description would stay in the tables, where all pass the check
          exfalso
          obtain ⟨catalog, -, hFields, rfl⟩ := registerField_of_new hFind hRegister
          have hNext := h.perform (.registerField info) m
          rw [afterRun, hPerform] at hValid
          rw [hPerform] at hNext
          obtain ⟨added, hLast, -⟩ := exists_fields_afterRun hNext hStays m
          have hMem : info.bare ∈ (afterRun commands
              { a with tables := { a.tables with catalog := catalog }, dirty := true }
              m).1.tables.catalog.fields.map FieldInfo.bare := by
            rw [hLast]
            refine List.mem_append_left _ (List.mem_map_of_mem ?_)
            show info ∈ catalog.fields
            rw [hFields]
            exact List.mem_append_right _ (List.mem_singleton_self _)
          obtain ⟨f, hf, hSame⟩ := List.mem_map.1 hMem
          exact hInvalid ((FieldInfo.validate_congr hSame).symm.trans (hValid f hf))

/-- A run that ends with descriptions that pass the check is like one in which all do
that are given. -/
theorem RereadableRunState.run_of_valid (hPlain : l.HasPlainNames)
    (h : RereadableRunState l s dir blobs lost saved a m) (hOrderly : a.IsOrderly)
    (hStays : ∀ c ∈ commands, c.Stays) (hKept : ∀ c ∈ commands, c.IsKept)
    (hValid : ∀ f ∈ (afterRun commands a m).1.tables.catalog.fields, f.validate = .ok ())
    (hDigest : Set.InjOn (Checksum.compute s.checksum)
      (bytesOf (blobs ++ storedBy (Archive.run commands a m)))) :
    ∃ lost' saved', RereadableRunState l s dir (blobs ++ storedBy (Archive.run commands a m))
      lost' saved'
      (afterRun commands a m).1 (afterRun commands a m).2 := by
  induction commands generalizing blobs lost saved a m with
  | nil =>
      rw [show storedBy (Archive.run [] a m) = [] from rfl, List.append_nil]
      exact ⟨lost, saved, h⟩
  | cons command rest ih =>
      have hRest : ∀ c ∈ rest, c.Stays := fun c hc => hStays c (List.mem_cons_of_mem _ hc)
      have hStored : storedBy (Archive.run (command :: rest) a m) =
          (command.perform a m).stored.toList ++ storedBy (Archive.run rest
            (command.perform a m).archive (command.perform a m).machine) := rfl
      rw [hStored, ← List.append_assoc] at hDigest ⊢
      have hNext : ∃ lost' saved',
          RereadableRunState l s dir (blobs ++ (command.perform a m).stored.toList)
          lost' saved' (command.perform a m).archive (command.perform a m).machine := by
        -- a description that does not pass the check cannot have been taken
        by_cases hBuilt : command.IsBuilt
        · obtain ⟨saved', hLasts⟩ := h.perform hPlain hBuilt (hKept command List.mem_cons_self)
            (hDigest.mono (bytesOf_mono (List.subset_append_left _ _)))
          exact ⟨_, saved', hLasts⟩
        · cases command with
          | registerField info =>
              have hInvalid : info.validate ≠ .ok () := fun hOk =>
                hBuilt (FieldInfo.isBuilt_iff.2 hOk)
              obtain ⟨e, hPerform⟩ := hOrderly.perform_registerField hInvalid hRest hValid
              rw [hPerform, Option.toList_none, List.append_nil]
              exact ⟨lost, saved, h⟩
          | _ => exact absurd trivial hBuilt
      obtain ⟨lost', saved', hLasts⟩ := hNext
      exact ih hLasts (hOrderly.perform command m) hRest
        (fun c hc => hKept c (List.mem_cons_of_mem _ hc)) hValid hDigest

/-- What a writer leaves on the disk is opened again. -/
theorem RereadableRunState.opens (h : RereadableRunState l s dir blobs lost saved a m)
    {later : Machine} (hDisk : later.disk = m.disk) :
    (∃ a', openForRead l later = .ok a' later) ∧
      (later.IsCalm → ∀ sync, ∃ a' m', openForWrite l s sync later = .ok a' m') := by
  have hUsable := h.runState.usable
  obtain ⟨-, t, -, -, hRecords⟩ := h.runState.holds.loads hUsable h.readsBack
  have hReads : t.readsBack = true := hRecords.readsBack_eq.trans h.readsBack
  obtain ⟨doc, data, -, -, -, -, hRead, hWrite⟩ :=
    opens_of_holdsLedger hUsable h.runState.holds hRecords hReads
  obtain ⟨a', hOpen, -⟩ := hRead later hDisk
  refine ⟨⟨a', hOpen⟩, fun hCalm sync => ?_⟩
  obtain ⟨a₁, m₁, hOk, -⟩ := hWrite later sync hDisk hCalm
  exact ⟨a₁, m₁, hOk⟩

/-- An archive is opened for reading only if the descriptions in its document pass the
check. -/
theorem validate_of_openForRead (hLoad : Document.load m.disk l.metadata = .ok doc)
    (hOpen : openForRead l m = .ok a m') : ∀ f ∈ doc.fields, f.validate = .ok () := by
  obtain ⟨-, -, doc', tables, -, hLoad', hTables, -⟩ := openForRead_eq_ok_iff.1 hOpen
  obtain rfl : doc = doc' := Except.ok.inj (hLoad.symm.trans hLoad')
  exact (Document.isSound_of_tables hTables).valid

/-- An archive is opened for writing only if the descriptions in its document pass the
check. -/
theorem validate_of_openForWrite (hPlain : l.HasPlainNames) {sync : Bool}
    (hLoad : Document.load m.disk l.metadata = .ok doc)
    (hOpen : openForWrite l s sync m = .ok a m') : ∀ f ∈ doc.fields, f.validate = .ok () := by
  obtain ⟨bytes, hBytes, -⟩ := Document.load_eq_ok_iff.1 hLoad
  obtain ⟨hName, dir, node, hLeads, hFile⟩ := l.readBytes_join_ok hPlain.metadata hBytes
  have hExists : m.disk.exists? l.metadata = true := by
    rw [Disk.exists?,
      show m.disk.find l.metadata = .ok node from l.find_of_hasFile hLeads hName hFile]
    rfl
  -- the directory is there, and so is the metadata
  unfold openForWrite at hOpen
  rw [bind_of_ok (Layout.createDirectory_of_leadsTo hName hLeads), get_bind, if_pos hExists,
    reopenForWrite_eq, hLoad] at hOpen
  dsimp only at hOpen
  split at hOpen
  · cases hOpen
  · split at hOpen
    · cases hOpen
    · next tables hTables => exact (Document.isSound_of_tables hTables).valid

/-- The descriptions in an archive that was just opened for writing pass the check: they
were in its document, or there are none. -/
theorem validate_of_opened {sync : Bool} (hOpen : openForWrite l s sync m = .ok a m') :
    ∀ f ∈ a.tables.catalog.fields, f.validate = .ok () := by
  obtain ⟨_, m₁, -, hOpened⟩ := bind_eq_ok hOpen
  rw [get_bind] at hOpened
  -- the archive was there, or it is new and has no fields
  split at hOpened
  · rw [reopenForWrite_eq] at hOpened
    split at hOpened
    · cases hOpened
    · split at hOpened
      · cases hOpened
      · split at hOpened
        · cases hOpened
        · next tables hTables =>
            split at hOpened
            · cases hOpened
            · cases hOpened
              intro f hf
              refine (Document.isSound_of_tables hTables).valid f ?_
              rw [← (Document.tables_ok hTables).fields]
              exact hf
  · rw [createForWrite_eq] at hOpened
    split at hOpened
    · cases hOpened
    · rw [persist_eq] at hOpened
      split at hOpened
      · cases hOpened
        nofun
      · cases hOpened

/-- A writer on a new archive that was closed, whatever descriptions it was given.  If
those in its tables pass the check, the archive is opened again, for writing unless the
file system fails; if it is opened again, they pass. -/
theorem opens_of_closed {sync : Bool} {start : Machine} (hPlain : l.HasPlainNames)
    (hStart : start.disk.ReadsBack l) (hVacant : l.IsVacant start)
    (hCreated : openForWrite l s sync start = .ok a m) (hStays : ∀ c ∈ commands, c.Stays)
    (hKept : ∀ c ∈ commands, c.IsKept)
    (hDigest : Set.InjOn (Checksum.compute s.checksum) (bytesOf (storedBy (run commands a m))))
    (hClose : Archive.close (afterRun commands a m) = .ok () (a', m')) :
    ((∀ f ∈ (afterRun commands a m).1.tables.catalog.fields, f.validate = .ok ()) →
      ∀ later : Machine, later.disk = m'.disk →
        (∃ a₁, openForRead l later = .ok a₁ later) ∧
          (later.IsCalm → ∀ sync, ∃ a₁ m₁, openForWrite l s sync later = .ok a₁ m₁)) ∧
      ∀ (later : Machine) (a₁ : Archive) (m₁ : Machine), later.disk = m'.disk →
        (openForRead l later = .ok a₁ m₁ ∨
          ∃ settings sync, openForWrite l settings sync later = .ok a₁ m₁) →
        ∀ f ∈ (afterRun commands a m).1.tables.catalog.fields, f.validate = .ok () := by
  have hOrderly := isOrderly_of_openForWrite hCreated
  obtain ⟨dir, hNew⟩ := rereadableRunState_of_isVacant hPlain hStart hVacant hCreated
  have hStillOpen : (afterRun commands a m).1.isClosed = false := by
    obtain ⟨_, hFollows, -, -⟩ :=
      openForWrite_of_isVacant hPlain hStart.wellFormed hVacant hCreated
    obtain ⟨arena, -, hArena, -⟩ := hFollows.arena
    exact isOpen_afterRun hOrderly hStays (by simp [isClosed, hArena]) m
  have hPerform : Command.close.perform (afterRun commands a m).1 (afterRun commands a m).2 =
      ⟨none, none, a', m'⟩ := by
    simp only [Command.perform, Prod.mk.eta, hClose, Outcome.ofResult]
  constructor
  · intro hValid later hDisk
    obtain ⟨lost, saved, hBefore⟩ := hNew.run_of_valid hPlain hOrderly hStays hKept hValid hDigest
    obtain ⟨saved', hAfter⟩ := hBefore.perform hPlain (show Command.close.IsBuilt from trivial)
      trivial (by
        rw [hPerform, Option.toList_none, List.append_nil]
        exact hDigest)
    rw [hPerform] at hAfter
    exact hAfter.opens hDisk
  · intro later a₁ m₁ hDisk hOpened
    -- closing leaves a document that describes the tables, which is the one that is loaded
    obtain ⟨-, hWriter⟩ := hNew.writer.run hPlain hKept
    obtain ⟨doc, hLoad, hDescribes, -⟩ :=
      (hWriter.close hPlain).saved trivial hStillOpen (by rw [hPerform])
    have hTables := (isOrderly_afterRun hOrderly commands m).tables_close hStillOpen
      (afterRun commands a m).2
    rw [← hTables, ← hDescribes.fields]
    rw [hPerform, ← hDisk] at hLoad
    rcases hOpened with hRead | ⟨settings, sync, hWrite⟩
    · exact validate_of_openForRead hLoad hRead
    · exact validate_of_openForWrite hPlain hLoad hWrite

end Archive
end FieldArchive

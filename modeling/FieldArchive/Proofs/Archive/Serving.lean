import FieldArchive.Proofs.Archive.Progress
import FieldArchive.Proofs.Archive.Requests

/-!
# Archives that answer as their ledgers do

An archive refines its ledger.  `Archive.ServesLedger` relates the two: the archive follows
the ledger, and the metadata file has the identity of the archive.  `ServesLedger.perform` is
the step for a request, and `ServesLedger.cross` the one for closing the archive and opening
it again, where it is built anew from its document: unless the file system fails, the
replies are those of the ledger, and the relation holds afterwards.  On a machine
without failures the file system fails only for files that are too long.
-/

namespace FieldArchive

namespace Archive

variable {l : Layout} {s : Settings} {dir : NodeId} {exact intact : Prop} {live saved : Ledger}
  {a a' : Archive} {m m' : Machine}

/-! ## Changing the tables -/

/-- An archive and a ledger fail alike, or they succeed alike and the archive follows
the new ledger. -/
def MatchesLedger (l : Layout) (s : Settings) (dir : NodeId) (exact intact : Prop) (saved : Ledger)
    (a : Archive) (m : Machine) (result : Except Error (Reply × Archive))
    (response : Except Error (Reply × Ledger)) : Prop :=
  (∃ e, result = .error e ∧ response = .error e) ∨
  ∃ reply a' next, result = .ok (reply, a') ∧ response = .ok (reply, next) ∧
    FollowsLedger l s dir exact intact next saved a' m ∧ a'.id = a.id ∧ a'.createdAt = a.createdAt

theorem FollowsLedger.find?_eq (h : FollowsLedger l s dir exact intact live saved a m)
    (name : String) :
    a.tables.catalog.find? name = live.fields.find? fun f => f.name == name := by
  have hFields : a.tables.catalog.fields = live.fields := h.tables.fields
  rw [h.tables.catalog.find?_eq, hFields]

theorem FollowsLedger.registerField_matches (h : FollowsLedger l s dir exact intact live saved a m)
    {info : FieldInfo} (hBuilt : info.IsBuilt) :
    MatchesLedger l s dir exact intact saved a m
      ((a.registerField info).map fun done => (.registered done.1, done.2))
      ((Request.registerField info).respond s live) := by
  obtain ⟨arena, -, hMode⟩ := h.requireMode_eq_ok .registerField
  simp only [Archive.registerField, hMode, Request.respond, bind, Except.bind]
  cases hFinite : checkFinite (.field info.name) info.metainfo with
  | error e => exact Or.inl ⟨e, rfl, rfl⟩
  | ok _ =>
      have hFind := h.find?_eq info.name
      cases hKnown : live.fields.find? fun f => f.name == info.name with
      | some registered =>
          rw [hKnown] at hFind
          cases hCheck : registered.checkCompatible info with
          | error e =>
              refine Or.inl ⟨e, ?_, ?_⟩
              · simp only [Catalog.register, hFind, hCheck, bind, Except.bind, Except.map]
              · simp only [hCheck]
          | ok _ =>
              refine Or.inr ⟨.registered .confirmed, a, live, ?_, ?_, h, rfl, rfl⟩
              · simp [Catalog.register, hFind, hCheck, bind, Except.bind, pure, Except.pure,
                  Except.map]
              · simp only [hCheck, pure, Except.pure]
      | none =>
          rw [hKnown] at hFind
          obtain ⟨catalog, hRegister, hCoherent, hFields⟩ :=
            h.tables.catalog.register_of_none hFind
          refine Or.inr ⟨.registered .inserted, _, live.addField info, ?_, rfl,
            h.of_tables (h.tables.addField hCoherent hFields) (h.isValid.addField
              (h.tables.find?_eq_none_iff.1 hFind) (FieldInfo.isBuilt_iff.1 hBuilt)
              (checkFinite_eq_ok_iff.1 hFinite)) rfl, rfl, rfl⟩
          simp [hRegister, pure, Except.pure, Except.map]

theorem FollowsLedger.registerSavepoint_matches
    (h : FollowsLedger l s dir exact intact live saved a m) (point : Savepoint) :
    MatchesLedger l s dir exact intact saved a m
      ((a.registerSavepoint point).map fun a' => (.done, a'))
      ((Request.registerSavepoint point).respond s live) := by
  obtain ⟨arena, -, hMode⟩ := h.requireMode_eq_ok .registerSavepoint
  cases hFinite : checkFinite (.savepoint point) point.metainfo with
  | error e =>
      refine Or.inl ⟨e, ?_, ?_⟩
      · simp only [Archive.registerSavepoint, hMode, hFinite, bind, Except.bind, Except.map]
      · simp only [Request.respond, hFinite, bind, Except.bind]
  | ok _ =>
      have hRespond : (Request.registerSavepoint point).respond s live =
          .ok (.done, live.register point) := by
        simp only [Request.respond, hFinite, bind, Except.bind, pure, Except.pure]
      obtain ⟨a', hOk, hId, hCreatedAt⟩ : ∃ a', a.registerSavepoint point = .ok a' ∧
          a'.id = a.id ∧ a'.createdAt = a.createdAt := by
        simp only [Archive.registerSavepoint, hMode, hFinite, bind, Except.bind]
        cases a.tables.offsets.savepointId? point with
        | some number => exact ⟨a, rfl, rfl, rfl⟩
        | none => exact ⟨_, rfl, rfl, rfl⟩
      refine Or.inr ⟨.done, a', live.register point, by rw [hOk]; rfl, hRespond, ?_, hId,
        hCreatedAt⟩
      rcases h.registerSavepoint_ok hOk with ⟨hNext, -⟩ | ⟨rfl, hSame⟩
      · exact hNext
      · rw [hSame]
        exact h

theorem FollowsLedger.addMetainfo_matches (h : FollowsLedger l s dir exact intact live saved a m)
    (key : String) (value : MetaValue) :
    MatchesLedger l s dir exact intact saved a m
      ((a.addMetainfo key value).map fun a' => (.done, a'))
      ((Request.addMetainfo key value).respond s live) := by
  obtain ⟨arena, -, hMode⟩ := h.requireMode_eq_ok .addGlobalMetainfo
  simp only [Archive.addMetainfo, hMode, Request.respond, bind, Except.bind]
  cases hFinite : checkFiniteValue .archive key value with
  | error e => exact Or.inl ⟨e, rfl, rfl⟩
  | ok _ =>
      exact Or.inr ⟨.done, _, live.setMetainfo key value, rfl, rfl,
        h.of_tables (h.tables.addMetainfo key value)
          (h.isValid.setMetainfo key (checkFiniteValue_eq_ok_iff.1 hFinite)) rfl, rfl, rfl⟩

theorem FollowsLedger.addFieldMetainfo_matches
    (h : FollowsLedger l s dir exact intact live saved a m) (field key : String)
    (value : MetaValue) :
    MatchesLedger l s dir exact intact saved a m
      ((a.addFieldMetainfo field key value).map fun a' => (.done, a'))
      ((Request.addFieldMetainfo field key value).respond s live) := by
  obtain ⟨arena, -, hMode⟩ := h.requireMode_eq_ok .addFieldMetainfo
  have hFields : a.tables.catalog.fields = live.fields := h.tables.fields
  have hIndex : a.tables.catalog.byName.get? field =
      live.fields.findIdx? fun f => f.name == field := by
    rw [h.tables.catalog.byName, hFields]
  cases hFinite : checkFiniteValue (.field field) key value with
  | error e =>
      refine Or.inl ⟨e, ?_, ?_⟩
      · simp only [Archive.addFieldMetainfo, hMode, hFinite, bind, Except.bind, Except.map]
      · simp only [Request.respond, hFinite, bind, Except.bind]
  | ok _ =>
      cases hKnown : live.fields.findIdx? fun f => f.name == field with
      | none =>
          rw [hKnown] at hIndex
          refine Or.inl ⟨.invalidArgument (.unregisteredField field), ?_, ?_⟩
          · simp only [Archive.addFieldMetainfo, hMode, hFinite, Catalog.addMetainfo, hIndex, bind,
              Except.bind, Except.map]
          · simp only [Request.respond, hFinite, hKnown, bind, Except.bind]
            rfl
      | some i =>
          rw [hKnown] at hIndex
          obtain ⟨a', hOk, hId, hCreatedAt⟩ : ∃ a', a.addFieldMetainfo field key value = .ok a' ∧
              a'.id = a.id ∧ a'.createdAt = a.createdAt := by
            simp only [Archive.addFieldMetainfo, hMode, hFinite, Catalog.addMetainfo, hIndex, bind,
              Except.bind]
            exact ⟨_, rfl, rfl, rfl⟩
          obtain ⟨i', hNext, -, hSame⟩ := h.addFieldMetainfo_ok hOk
          obtain rfl : i = i' := Option.some.inj (hKnown.symm.trans hSame)
          refine Or.inr ⟨.done, a', live.setFieldMetainfo i key value, by rw [hOk]; rfl, ?_, hNext,
            hId, hCreatedAt⟩
          simp only [Request.respond, hFinite, hKnown, bind, Except.bind, pure, Except.pure]

/-! ## Storing -/

theorem FollowsLedger.hasKey_eq_false_iff (h : FollowsLedger l s dir exact intact live saved a m)
    (point : Savepoint) (field : String) :
    live.hasKey point field = false ↔ (a.tables.offsets.registerSavepoint point).2.position?
      (a.tables.offsets.registerSavepoint point).1 field = none := by
  rw [h.position?_register, Ledger.hasKey, List.any_eq_false]
  simp

/-- Storing bytes fails as the ledger says, or in the file system, or it succeeds as
the ledger says. -/
theorem FollowsLedger.append_matches (h : FollowsLedger l s dir exact intact live saved a m)
    {blob : Blob} (hInjective : Set.InjOn (Checksum.compute s.checksum)
      {p | p ∈ live.payloads ++ [blob.bytes]}) :
    (∃ e, append blob.point blob.field blob.bytes (a, m) = .error e (a, m) ∧
      (Request.append blob).respond s live = .error e) ∨
    (∃ e state, append blob.point blob.field blob.bytes (a, m) = .error (.io e) state) ∨
    ∃ r a' m' next, append blob.point blob.field blob.bytes (a, m) = .ok r (a', m') ∧
      (Request.append blob).respond s live = .ok (.appended r, next) ∧
      FollowsLedger l s dir exact intact next saved a' m' := by
  obtain ⟨arena, hArena, hMode⟩ := h.requireMode_eq_ok .writeField
  have hFind := h.find?_eq blob.field
  -- Both sides make their checks in the same order: reals, field, size, key.
  cases hFinite : checkFinite (.savepoint blob.point) blob.point.metainfo with
  | error e =>
      refine Or.inl ⟨e, ?_, ?_⟩
      · simp only [append, checkAppend, hMode, hFinite, bind, Except.bind]
      · simp only [Request.respond, hFinite, bind, Except.bind]
  | ok _ =>
      cases hKnown : live.fields.find? fun f => f.name == blob.field with
      | none =>
          rw [hKnown] at hFind
          refine Or.inl ⟨.fieldNotFound blob.point blob.field, ?_, ?_⟩
          · simp only [append, checkAppend, hMode, hFinite, hFind, bind, Except.bind]
            rfl
          · simp only [Request.respond, hFinite, hKnown, bind, Except.bind]
            rfl
      | some info =>
          rw [hKnown] at hFind
          by_cases hSize : blob.bytes.length = info.byteSize
          · have hCheck : a.checkAppend blob.point blob.field blob.bytes = .ok arena := by
              simp [checkAppend, hMode, hFinite, hFind, hSize, bind, Except.bind, pure, Except.pure]
            cases hKey : live.hasKey blob.point blob.field with
            | true =>
                obtain ⟨n, hTaken⟩ := Option.ne_none_iff_exists'.1 fun hNone => by
                  rw [(h.hasKey_eq_false_iff blob.point blob.field).2 hNone] at hKey
                  cases hKey
                refine Or.inl ⟨_, h.append_of_taken hArena hCheck hTaken, ?_⟩
                simp [Request.respond, hFinite, hKnown, hSize, hKey, bind, Except.bind, throw,
                  throwThe, MonadExceptOf.throw]
            | false =>
                have hFree := (h.hasKey_eq_false_iff blob.point blob.field).1 hKey
                rcases h.append_of_free hArena hCheck hFind hSize hFree fun _ _ _ => hInjective with
                  ⟨e, a', m', hFailed, -⟩ | ⟨r, a', m', hOk, -, hNext, -, hRecord, hShared⟩
                · exact Or.inr (Or.inl ⟨e, _, hFailed⟩)
                · refine Or.inr (Or.inr ⟨r, a', m', _, hOk, ?_, hNext⟩)
                  obtain ⟨record, shared⟩ := r
                  -- the digest tells payloads apart, so a known digest means known bytes
                  have hContains : decide (blob.bytes ∈ live.payloads) = shared := by
                    rw [Bool.eq_iff_iff, decide_eq_true_iff]
                    exact hShared.symm
                  simp [Request.respond, hFinite, hKnown, hSize, hKey, hContains, ← hRecord, bind,
                    Except.bind, pure, Except.pure]
          · refine Or.inl ⟨.sizeMismatch blob.field info.byteSize blob.bytes.length, ?_, ?_⟩
            · simp [append, checkAppend, hMode, hFinite, hFind, hSize, bind, Except.bind, throw,
                throwThe, MonadExceptOf.throw]
            · simp [Request.respond, hFinite, hKnown, hSize, bind, Except.bind, throw, throwThe,
                MonadExceptOf.throw]

end Archive

/-! ## The metadata file -/

/-- The metadata file holds the document of a ledger with an identity, and the
temporary name is free. -/
def Disk.BearsIdentity (l : Layout) (s : Settings) (dir : NodeId) (id : ArchiveId)
    (createdAt : String) (saved : Ledger) (d : Disk) : Prop :=
  (∃ node updatedAt, d.HasFile (l.metadataSlot dir) node
    (textBytes (saved.document id createdAt updatedAt s).text)) ∧
  d.entries.get? (l.temporarySlot dir) = none

namespace Archive

variable {l : Layout} {s : Settings} {dir : NodeId} {exact intact : Prop} {live saved : Ledger}
  {a a' : Archive} {m m' : Machine} {id : ArchiveId} {createdAt : String}

/-- Storing does not touch the metadata file. -/
theorem FollowsLedger.bearsIdentity_of_append_ok
    (h : FollowsLedger l s dir exact intact live saved a m)
    (hBears : m.disk.BearsIdentity l s dir id createdAt saved) {point : Savepoint} {field : String}
    {bytes : List UInt8} {r : Appended} (hOk : append point field bytes (a, m) = .ok r (a', m')) :
    m'.disk.BearsIdentity l s dir id createdAt saved := by
  obtain ⟨-, -, -, hDisk⟩ := disk_of_append_ok hOk
  rcases hDisk with hSame | ⟨arena, edit, hArena, hEdit⟩
  · rw [hSame]
    exact hBears
  · obtain ⟨arena', data, hArena', -, -, hKeeps, -⟩ := h.arena
    obtain rfl : arena = arena' := Option.some.inj (hArena.symm.trans hArena')
    obtain ⟨⟨node, updatedAt, hFile⟩, hFree⟩ := hBears
    have hNe : arena.file ≠ node :=
      Disk.HasFile.id_ne hKeeps.wellFormed hKeeps.dataFile hFile
        (l.metadataSlot_ne_dataSlot dir).symm
    rw [hEdit]
    exact ⟨⟨node, updatedAt, hFile.edit_ne hNe edit⟩, by rw [Disk.edit_entries, hFree]⟩

/-- A flush that succeeds on a changed archive has replaced the metadata. -/
theorem FollowsLedger.persist_of_flush_ok (h : FollowsLedger l s dir exact intact live saved a m)
    (hDirty : a.dirty = true) (hOk : flush (a, m) = .ok () (a', m')) :
    ∃ m₁ : Machine, m₁.disk = m.disk ∧ persist (a, m₁) = .ok () (a', m') := by
  obtain ⟨arena, data, hArena, hWritable, -⟩ := h.arena
  rw [flush_eq h.mode hArena, if_pos (by simp [needsFlush, hDirty])] at hOk
  dsimp only at hOk
  cases hSync : a.syncData with
  | false =>
      rw [hSync] at hOk
      exact ⟨m, rfl, hOk⟩
  | true =>
      rw [hSync, if_pos rfl] at hOk
      obtain ⟨_, state, hBeside, hPersist⟩ := bind_eq_ok hOk
      simp only [Effect.beside, Arena.sync, hWritable, if_true] at hBeside
      split at hBeside
      · next hCall =>
          cases hBeside
          refine ⟨_, ?_, hPersist⟩
          rw [Machine.sync_ok (Effect.ofCall_ok.1 hCall)]
          rfl
      · cases hBeside

/-- After a flush the metadata file holds the document of the ledger in memory. -/
theorem FollowsLedger.flush_ok (hPlain : l.HasPlainNames)
    (h : FollowsLedger l s dir True True live saved a m)
    (hBears : m.disk.BearsIdentity l s dir a.id a.createdAt saved)
    (hOk : flush (a, m) = .ok () (a', m')) :
    FollowsLedger l s dir True True live live a' m' ∧ a'.id = a.id ∧ a'.createdAt = a.createdAt ∧
      m'.disk.BearsIdentity l s dir a.id a.createdAt live ∧ m'.environment = m.environment := by
  cases hDirty : a.dirty with
  | false =>
      rw [h.flush_of_clean hDirty] at hOk
      cases hOk
      -- A clean archive writes nothing, but then its ledger is the saved one.
      obtain rfl : saved = live := (h.clean hDirty).2.2 trivial trivial
      exact ⟨h, rfl, rfl, hBears, rfl⟩
  | true =>
      obtain ⟨hNext, hWorld⟩ : FollowsLedger l s dir True True live live a' m' ∧
          m'.environment = m.environment := by
        rcases (h.flush_ends hDirty).cases with ⟨e, m₁, hFlush, -, -⟩ | ⟨e, m₁, hFlush, -, -⟩ |
          ⟨a₁, m₁, hFlush, hReplaces, hFollows, -, -⟩
        · rw [hFlush] at hOk
          cases hOk
        · rw [hFlush] at hOk
          cases hOk
        · rw [hFlush] at hOk
          cases hOk
          exact ⟨hFollows, hReplaces.environment⟩
      obtain ⟨m₁, hDisk, hPersist⟩ := h.persist_of_flush_ok hDirty hOk
      obtain ⟨arena, data, -, -, -, hKeeps, -⟩ := h.arena
      rw [persist_eq, h.document_eq, h.layout] at hPersist
      split at hPersist
      · next hDone =>
          cases hPersist
          have hTick : m₁.tick.disk = m.disk := hDisk
          obtain ⟨-, -, -, -, -, ⟨node, hFile⟩, hFree, -⟩ := Document.persist_ok hPlain
            (hTick ▸ hKeeps.wellFormed) (hTick ▸ hKeeps.leadsTo) (hTick ▸ hKeeps.dataFile) hDone
          exact ⟨hNext, rfl, rfl, ⟨⟨node, _, hFile⟩, hFree⟩, hWorld⟩
      · cases hPersist

/-! ## The step -/

/-- An archive serves a ledger under an identity: it follows the ledger, and its disk
bears the identity. -/
structure ServesLedger (l : Layout) (s : Settings) (dir : NodeId) (id : ArchiveId)
    (createdAt : String) (live : Ledger) (a : Archive) (m : Machine) : Prop where
  id_eq : a.id = id
  createdAt_eq : a.createdAt = createdAt
  ledger : ∃ saved, FollowsLedger l s dir True True live saved a m ∧
    m.disk.BearsIdentity l s dir id createdAt saved

theorem ServesLedger.readsBack_eq (h : ServesLedger l s dir id createdAt live a m) :
    a.tables.readsBack = live.readsBack := by
  obtain ⟨saved, hFollows, -⟩ := h.ledger
  exact hFollows.tables.readsBack_eq

theorem ServesLedger.ofTables (h : ServesLedger l s dir id createdAt live a m) {request : Request}
    {result : Except Error (Reply × Archive)}
    (hMatches : ∀ saved, FollowsLedger l s dir True True live saved a m →
      MatchesLedger l s dir True True saved a m result (request.respond s live)) :
    (Answer.ofTables a m result).reply = (request.respond s live).map Prod.fst ∧
      ServesLedger l s dir id createdAt (request.next s live) (Answer.ofTables a m result).archive
        (Answer.ofTables a m result).machine ∧
      (Answer.ofTables a m result).machine.environment = m.environment := by
  obtain ⟨saved, hFollows, hBears⟩ := h.ledger
  rcases hMatches saved hFollows with ⟨e, rfl, hRespond⟩ |
    ⟨reply, a', next, rfl, hRespond, hNext, hId, hCreatedAt⟩
  · rw [Request.next, hRespond]
    exact ⟨rfl, h, rfl⟩
  · rw [Request.next, hRespond]
    exact ⟨rfl, ⟨hId.trans h.id_eq, hCreatedAt.trans h.createdAt_eq, saved, hNext, hBears⟩, rfl⟩

/-- An archive answers a request as its ledger does, unless the file system fails, and
it serves the ledger after the request from then on. -/
theorem ServesLedger.perform (hPlain : l.HasPlainNames)
    (h : ServesLedger l s dir id createdAt live a m) {request : Request} (hBuilt : request.IsBuilt)
    (hInjective : ∀ bytes, request.payload? = some bytes →
      Set.InjOn (Checksum.compute s.checksum) {p | p ∈ live.payloads ++ [bytes]})
    (hIo : ∀ e, (request.perform a m).reply = .error e → e.isIo = false) :
    (request.perform a m).reply = (request.respond s live).map Prod.fst ∧
      ServesLedger l s dir id createdAt (request.next s live) (request.perform a m).archive
        (request.perform a m).machine ∧
      (request.perform a m).machine.environment = m.environment := by
  -- requests that touch no file are judged by their tables alone
  cases request with
  | registerField info => exact h.ofTables fun _ hFollows => hFollows.registerField_matches hBuilt
  | registerSavepoint point =>
      exact h.ofTables fun _ hFollows => hFollows.registerSavepoint_matches point
  | addMetainfo key value =>
      exact h.ofTables fun _ hFollows => hFollows.addMetainfo_matches key value
  | addFieldMetainfo field key value =>
      exact h.ofTables fun _ hFollows => hFollows.addFieldMetainfo_matches field key value
  | append blob =>
      obtain ⟨saved, hFollows, hBears⟩ := h.ledger
      rcases hFollows.append_matches (hInjective blob.bytes rfl) with ⟨e, hError, hRespond⟩ |
        ⟨e, state, hFailed⟩ | ⟨r, a', m', next, hOk, hRespond, hNext⟩
      · simp only [Request.perform, Request.next, hError, hRespond]
        exact ⟨rfl, h, rfl⟩
      · have hNot := hIo (.io e) (by simp only [Request.perform, hFailed, Answer.ofResult])
        cases hNot
      · obtain ⟨hId, hCreatedAt, hWorld, -⟩ := disk_of_append_ok hOk
        simp only [Request.perform, Request.next, hOk, hRespond]
        exact ⟨rfl, ⟨hId.trans h.id_eq, hCreatedAt.trans h.createdAt_eq, saved, hNext,
          hFollows.bearsIdentity_of_append_ok hBears hOk⟩, hWorld⟩
  | flush =>
      obtain ⟨saved, hFollows, hBears⟩ := h.ledger
      rw [← h.id_eq, ← h.createdAt_eq] at hBears
      cases hFlush : Archive.flush (a, m) with
      | error e state =>
          obtain ⟨arena, -, hArena, -⟩ := hFollows.arena
          have hFails := isIo_of_flush_error hFollows.mode hArena hFlush
          have hNot := hIo e (by simp only [Request.perform, hFlush, Answer.ofResult])
          rw [hFails] at hNot
          cases hNot
      | ok _ state =>
          obtain ⟨a', m'⟩ := state
          obtain ⟨hNext, hId, hCreatedAt, hBears', hWorld⟩ :=
            hFollows.flush_ok hPlain hBears hFlush
          rw [h.id_eq, h.createdAt_eq] at hBears'
          simp only [Request.perform, hFlush]
          exact ⟨rfl, ⟨hId.trans h.id_eq, hCreatedAt.trans h.createdAt_eq, live, hNext, hBears'⟩,
            hWorld⟩

end Archive

/-- The files of an archive: the contents of the data file, and the document in the
metadata file, which is loaded as it was written. -/
structure Disk.ShowsArchive (l : Layout) (contents : List UInt8) (doc : Document) (d : Disk) :
    Prop where
  data : d.readBytes l.data = .ok contents
  metadata : d.readBytes l.metadata = .ok (textBytes doc.text)
  loads : Document.load d l.metadata = .ok doc

namespace Archive

variable {l : Layout} {s : Settings} {dir : NodeId} {live saved : Ledger} {a a' : Archive}
  {m m' : Machine} {id : ArchiveId} {createdAt : String} {file : NodeId}

/-! ## Closing and opening again -/

/-- An archive that is closed leaves its ledger on the disk, and nothing else in the data
file. -/
theorem ServesLedger.close (hPlain : l.HasPlainNames)
    (h : ServesLedger l s dir id createdAt live a m)
    (hIo : ∀ e state, Archive.close (a, m) = .error e state → e.isIo = false) :
    ∃ a' m', Archive.close (a, m) = .ok () (a', m') ∧ a'.tables.Records s live ∧
      a'.layout = l ∧ l.IsUsable ∧
      (∃ file, m'.disk.KeepsLedger l s dir live file live.content) ∧
      m'.disk.BearsIdentity l s dir id createdAt live ∧ m'.environment = m.environment := by
  obtain ⟨saved, hFollows, hBears⟩ := h.ledger
  rw [← h.id_eq, ← h.createdAt_eq] at hBears
  obtain ⟨arena, -, hArena, -⟩ := hFollows.arena
  have hOpen : a.isClosed = false := by simp [isClosed, hArena]
  cases hFlush : Archive.flush (a, m) with
  | error e state =>
      have hFails := isIo_of_flush_error hFollows.mode hArena hFlush
      have hNot := hIo e ({ state.1 with arena := none }, state.2) (by
        simp [Archive.close, hOpen, hFlush])
      rw [hFails] at hNot
      cases hNot
  | ok _ state =>
      obtain ⟨a₁, m₁⟩ := state
      obtain ⟨hNext, -, -, hBears₁, hWorld⟩ := hFollows.flush_ok hPlain hBears hFlush
      rw [h.id_eq, h.createdAt_eq] at hBears₁
      -- no failed write has left bytes behind the content
      obtain ⟨arena₁, data, -, -, -, hKeeps, -, hExact⟩ := hNext.arena
      rw [hExact trivial] at hKeeps
      exact ⟨{ a₁ with arena := none }, m₁, by simp [Archive.close, hOpen, hFlush], hNext.tables,
        hNext.layout, hNext.usable, ⟨arena₁.file, hKeeps⟩, hBears₁, hWorld⟩

/-- The files of an archive that was closed. -/
theorem exists_showsArchive (hUsable : l.IsUsable)
    (hKeeps : m.disk.KeepsLedger l s dir live file live.content)
    (hBears : m.disk.BearsIdentity l s dir id createdAt live) (hReads : live.readsBack = true) :
    ∃ updatedAt, m.disk.ShowsArchive l live.content (live.document id createdAt updatedAt s) := by
  obtain ⟨⟨node, updatedAt, hFile⟩, -⟩ := hBears
  have hBytes : m.disk.readBytes l.metadata =
      .ok (Disk.textBytes (live.document id createdAt updatedAt s).text) :=
    l.readBytes_of_hasFile hKeeps.leadsTo hUsable.metadata hFile
  have hAgain : (live.document id createdAt updatedAt s).reread? =
      some (live.document id createdAt updatedAt s) := Document.reread?_of_readsBack hReads
  refine ⟨updatedAt, l.readBytes_of_hasFile hKeeps.leadsTo hUsable.data hKeeps.dataFile, hBytes, ?_⟩
  rw [Document.load_of_text (hKeeps.isValid.isBounded hKeeps.savepoints_le id createdAt updatedAt)
    rfl hBytes, hAgain]

/-- An archive that is opened again serves its ledger and has nothing to flush, and the
machine is as before. -/
theorem servesLedger_of_openForWrite (hUsable : l.IsUsable)
    (hKeeps : m.disk.KeepsLedger l s dir live file live.content)
    (hBears : m.disk.BearsIdentity l s dir id createdAt live) (hReads : live.readsBack = true)
    (sync : Bool) :
    ∃ a, openForWrite l s sync m = .ok a m ∧ ServesLedger l s dir id createdAt live a m ∧
      a.needsFlush = false := by
  obtain ⟨updatedAt, hShows⟩ := exists_showsArchive hUsable hKeeps hBears hReads
  obtain ⟨tables, hTables, hRepresents⟩ :=
    Document.exists_tables (hKeeps.isValid.isSound id createdAt updatedAt)
  have hFollows := followsLedger_ofDocument hUsable sync hKeeps (Ledger.rereads_self hReads)
    (Ledger.readsBack_iff.1 hReads).2.2 hRepresents.records id createdAt updatedAt
  refine ⟨_, ?_, ⟨rfl, rfl, live, hFollows.mono (fun _ => rfl) fun _ => trivial, hBears⟩,
    by simp [needsFlush, ofDocument, Ledger.document]⟩
  have hSame : s.checkMatches (live.document id createdAt updatedAt s).settings = .ok () :=
    Settings.checkMatches_eq_ok_iff.2 rfl
  rw [openForWrite_of_keepsLedger hUsable hKeeps, hShows.loads]
  simp only [hSame, hTables]
  exact bind_of_ok (Arena.openAppend_of_exact hUsable hKeeps)

/-- Close an archive, and open it again with the same settings.  One that cannot be
opened stays closed. -/
def cross (s : Settings) (sync : Bool) (a : Archive) (m : Machine) :
    Except Error Unit × Archive × Machine :=
  match close (a, m) with
  | .error e (a, m) => (.error e, a, m)
  | .ok _ (a, m) =>
      match openForWrite a.layout s sync m with
      | .ok a m => (.ok (), a, m)
      | .error e m => (.error e, a, m)

/-- A boundary succeeds, and the archive serves the ledger it has served. -/
theorem ServesLedger.cross (hPlain : l.HasPlainNames)
    (h : ServesLedger l s dir id createdAt live a m) (hReads : live.readsBack = true) (sync : Bool)
    (hIo : ∀ e state, Archive.close (a, m) = .error e state → e.isIo = false) :
    (Archive.cross s sync a m).1 = .ok () ∧
      ServesLedger l s dir id createdAt live (Archive.cross s sync a m).2.1
        (Archive.cross s sync a m).2.2 ∧
      (Archive.cross s sync a m).2.2.environment = m.environment := by
  obtain ⟨a₁, m₁, hClose, -, rfl, hUsable, ⟨file, hKeeps⟩, hBears, hWorld⟩ := h.close hPlain hIo
  obtain ⟨a₂, hOpen, hServes, -⟩ := servesLedger_of_openForWrite hUsable hKeeps hBears hReads sync
  have hCross : Archive.cross s sync a m = (.ok (), a₂, m₁) := by
    simp only [Archive.cross, hClose, hOpen]
  rw [hCross]
  exact ⟨rfl, hServes, hWorld⟩

/-- A new archive serves the empty ledger. -/
theorem servesLedger_of_isVacant (hPlain : l.HasPlainNames) {start : Machine}
    (hWell : start.disk.WellFormed) (hVacant : l.IsVacant start) {sync : Bool}
    (hCreated : openForWrite l s sync start = .ok a m) :
    ∃ dir, ServesLedger l s dir a.id a.createdAt .empty a m := by
  obtain ⟨dir, file, id, createdAt, updatedAt, rfl, hFollows, ⟨node, hFile⟩, hFree, -⟩ :=
    openForWrite_new hPlain hWell hVacant hCreated
  exact ⟨dir, rfl, rfl, .empty, hFollows, ⟨node, updatedAt, hFile⟩, hFree⟩

/-! ## Without failures -/

/-- Without failures, bytes that fit into the data file can be written. -/
theorem FollowsLedger.append_of_isCalm {exact intact : Prop}
    (h : FollowsLedger l s dir exact intact live saved a m) (hCalm : m.IsCalm) {point : Savepoint}
    {field : String} {bytes : List UInt8}
    (hRoom : live.content.length + bytes.length ≤ Disk.maxFileLength) {e : Error}
    {state : Archive × Machine} (hError : append point field bytes (a, m) = .error e state) :
    e.isIo = false := by
  rcases h.checkAppend_cases point field bytes with ⟨e', hCheck, hIo⟩ |
    ⟨arena, info, hArena, hCheck, hFind, -⟩
  · simp only [append, hCheck] at hError
    cases hError
    exact hIo
  · obtain ⟨arena', -, hArena', hWritable, hLength, -⟩ := h.arena
    obtain rfl : arena = arena' := Option.some.inj (hArena.symm.trans hArena')
    obtain ⟨catalog, hPresence, -⟩ := Catalog.recordPresence_of_find? hFind point
    obtain ⟨m₁, hWrite, -⟩ := hCalm.stays.write_ok arena.file (hLength ▸ hRoom)
    have hDone : Arena.append bytes (arena, m) =
        .ok arena.length ({ arena with length := arena.length + bytes.length }, m₁) := by
      simp [Arena.append, hWritable, Effect.ofCall, EStateM.adaptExcept, hWrite]
    simp only [append, hCheck] at hError
    split at hError
    · next hAppend =>
        cases hError
        -- the key was taken, since the data file can be written
        rcases (OffsetTable.append_error hAppend).2 with rfl | hFailed
        · rfl
        · rw [hDone] at hFailed
          cases hFailed
    · simp only [hPresence] at hError
      cases hError

/-- The text of a ledger's document is not longer than a file can be, whenever it is
written. -/
def Writable (s : Settings) (id : ArchiveId) (createdAt : String) (world : Environment)
    (live : Ledger) : Prop :=
  ∀ n, (Disk.textBytes (live.document id createdAt (world.clock n) s).text).length ≤
    Disk.maxFileLength

theorem ServesLedger.flush_of_isCalm (h : ServesLedger l s dir id createdAt live a m)
    (hCalm : m.IsCalm) (hText : Writable s id createdAt m.environment live) :
    ∃ a' m', Archive.flush (a, m) = .ok () (a', m') := by
  obtain ⟨saved, hFollows, -, hFree⟩ := h.ledger
  obtain ⟨arena, data, -, -, -, hKeeps, -⟩ := hFollows.arena
  refine hFollows.flush_of_staysCalm hCalm.stays
    (l.locateFile_of_free hKeeps.leadsTo hFollows.usable.temporary hFree) fun n => ?_
  rw [hFollows.document_eq, h.id_eq, h.createdAt_eq]
  exact hText n

theorem ServesLedger.close_of_isCalm (h : ServesLedger l s dir id createdAt live a m)
    (hCalm : m.IsCalm) (hText : Writable s id createdAt m.environment live) {e : Error}
    {state : Archive × Machine} (hError : Archive.close (a, m) = .error e state) :
    e.isIo = false := by
  obtain ⟨a', m', hFlush⟩ := h.flush_of_isCalm hCalm hText
  simp only [Archive.close, hFlush] at hError
  split at hError <;> cases hError

/-- Without failures, no request fails in the file system whose bytes fit. -/
theorem ServesLedger.perform_of_isCalm (h : ServesLedger l s dir id createdAt live a m)
    (hCalm : m.IsCalm) {request : Request} (hBuilt : request.IsBuilt)
    (hRoom : live.content.length + request.size ≤ Disk.maxFileLength)
    (hText : request = .flush → Writable s id createdAt m.environment live) {e : Error}
    (hError : (request.perform a m).reply = .error e) : e.isIo = false := by
  -- a ledger has no errors of the file system
  have hTables : ∀ {result}, (∀ saved, FollowsLedger l s dir True True live saved a m →
      MatchesLedger l s dir True True saved a m result (request.respond s live)) →
      (Answer.ofTables a m result).reply = .error e → e.isIo = false := by
    intro result hMatches hReply
    rw [(h.ofTables hMatches).1] at hReply
    cases hRespond : request.respond s live with
    | ok done =>
        rw [hRespond] at hReply
        cases hReply
    | error e' =>
        rw [hRespond] at hReply
        cases hReply
        exact Request.isIo_of_respond hRespond
  cases request with
  | registerField info =>
      exact hTables (fun _ hFollows => hFollows.registerField_matches hBuilt) hError
  | registerSavepoint point =>
      exact hTables (fun _ hFollows => hFollows.registerSavepoint_matches point) hError
  | addMetainfo key value =>
      exact hTables (fun _ hFollows => hFollows.addMetainfo_matches key value) hError
  | addFieldMetainfo field key value =>
      exact hTables (fun _ hFollows => hFollows.addFieldMetainfo_matches field key value) hError
  | append blob =>
      obtain ⟨saved, hFollows, -⟩ := h.ledger
      simp only [Request.perform] at hError
      cases hAppend : Archive.append blob.point blob.field blob.bytes (a, m) with
      | ok r state =>
          rw [hAppend] at hError
          cases hError
      | error e' state =>
          rw [hAppend] at hError
          cases hError
          exact hFollows.append_of_isCalm hCalm hRoom hAppend
  | flush =>
      obtain ⟨a', m', hFlush⟩ := h.flush_of_isCalm hCalm (hText rfl)
      simp only [Request.perform, hFlush] at hError
      cases hError

/-- Without failures, every request is answered as by the ledger whose bytes fit. -/
theorem ServesLedger.answer_of_isCalm (hPlain : l.HasPlainNames)
    (h : ServesLedger l s dir id createdAt live a m) (hCalm : m.IsCalm) {request : Request}
    (hBuilt : request.IsBuilt)
    (hInjective : ∀ bytes, request.payload? = some bytes →
      Set.InjOn (Checksum.compute s.checksum) {p | p ∈ live.payloads ++ [bytes]})
    (hRoom : live.content.length + request.size ≤ Disk.maxFileLength)
    (hText : request = .flush → Writable s id createdAt m.environment live) :
    (request.perform a m).reply = (request.respond s live).map Prod.fst ∧
      ServesLedger l s dir id createdAt (request.next s live) (request.perform a m).archive
        (request.perform a m).machine ∧
      (request.perform a m).machine.environment = m.environment :=
  h.perform hPlain hBuilt hInjective fun _ hError =>
    h.perform_of_isCalm hCalm hBuilt hRoom hText hError

/-- Without failures, an archive is flushed. -/
theorem ServesLedger.exists_flush (hPlain : l.HasPlainNames)
    (h : ServesLedger l s dir id createdAt live a m) (hCalm : m.IsCalm)
    (hText : Writable s id createdAt m.environment live) :
    ∃ a' m', Archive.flush (a, m) = .ok () (a', m') ∧ ServesLedger l s dir id createdAt live a' m' ∧
      m'.environment = m.environment := by
  obtain ⟨a', m', hFlush⟩ := h.flush_of_isCalm hCalm hText
  obtain ⟨saved, hFollows, -⟩ := h.ledger
  have hBuilt : Request.flush.IsBuilt := trivial
  obtain ⟨-, hServes, hWorld⟩ := h.answer_of_isCalm hPlain hCalm hBuilt
    (fun _ hNone => by cases hNone) hFollows.isValid.content_le fun _ => hText
  simp only [Request.perform, Answer.ofResult, hFlush] at hServes hWorld
  exact ⟨a', m', hFlush, hServes, hWorld⟩

end Archive
end FieldArchive

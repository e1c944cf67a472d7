import FieldArchive.Proofs.Archive.Crash
import FieldArchive.Proofs.Document.Presence

/-!
# Snapshots that can be loaded

Whatever a run has made of an archive, a snapshot of its tables is a document that
is accepted, and the tables that are built from it answer every question as those in
memory do.  Runs may fail at any call, and they may drop the archive and open it again
even if documents do not give back all reals: what is opened then is not what was
saved, but it can be saved and loaded like anything else.

For such an archive the disk keeps a ledger that does not cover the one in memory,
although nothing is marked as changed.  The invariant of a run (`Archive.PresenceRunState`)
is therefore about the archive with that mark set, `Archive.touched`; the operations
do the same with it and without it.
-/

namespace FieldArchive

namespace Archive

variable {l : Layout} {s : Settings} {dir : NodeId} {live saved : Ledger} {a a' : Archive}
  {m m' : Machine} {blobs : List Blob}

/-! ## Presence -/

/-- The fields that an archive notes at a savepoint are those of its entries. -/
def NotesPresence (a : Archive) : Prop :=
  Tables.NotesPresence a.tables.catalog a.tables.offsets

theorem NotesPresence.registerField (h : a.NotesPresence) {info : FieldInfo} {r : Registration}
    (hOk : a.registerField info = .ok (r, a')) : a'.NotesPresence := by
  obtain ⟨_, -, hChecked⟩ := except_bind_eq_ok_iff.1 hOk
  obtain ⟨_, -, hFinite⟩ := except_bind_eq_ok_iff.1 hChecked
  obtain ⟨⟨r', catalog⟩, hRegister, hDone⟩ := except_bind_eq_ok_iff.1 hFinite
  cases hDone
  exact Tables.NotesPresence.congr h (Catalog.presence_of_register hRegister)

theorem NotesPresence.addFieldMetainfo (h : a.NotesPresence) {field key : String}
    {value : MetaValue} (hOk : a.addFieldMetainfo field key value = .ok a') :
    a'.NotesPresence := by
  obtain ⟨_, -, hChecked⟩ := except_bind_eq_ok_iff.1 hOk
  obtain ⟨_, -, hFinite⟩ := except_bind_eq_ok_iff.1 hChecked
  obtain ⟨catalog, hAdd, hDone⟩ := except_bind_eq_ok_iff.1 hFinite
  cases hDone
  exact Tables.NotesPresence.congr h (Catalog.presence_of_addMetainfo hAdd)

theorem NotesPresence.addMetainfo (h : a.NotesPresence) {key : String} {value : MetaValue}
    (hOk : a.addMetainfo key value = .ok a') : a'.NotesPresence := by
  obtain ⟨_, -, hChecked⟩ := except_bind_eq_ok_iff.1 hOk
  obtain ⟨_, -, hDone⟩ := except_bind_eq_ok_iff.1 hChecked
  cases hDone
  exact h

theorem NotesPresence.registerSavepoint (h : a.NotesPresence)
    (hOffsets : a.tables.offsets.IsCoherent) {point : Savepoint}
    (hOk : a.registerSavepoint point = .ok a') : a'.NotesPresence := by
  obtain ⟨_, -, hChecked⟩ := except_bind_eq_ok_iff.1 hOk
  obtain ⟨_, -, hFinite⟩ := except_bind_eq_ok_iff.1 hChecked
  split at hFinite
  · cases hFinite
    exact h
  · cases hFinite
    exact Tables.NotesPresence.registerSavepoint h hOffsets point

theorem NotesPresence.append_ok (h : a.NotesPresence) (hOffsets : a.tables.offsets.IsCoherent)
    {point : Savepoint} {field : String} {bytes : List UInt8} {r : Appended}
    (hOk : append point field bytes (a, m) = .ok r (a', m')) : a'.NotesPresence := by
  obtain ⟨hFree, hPresence, hTable⟩ := tables_of_append_ok hOk
  obtain ⟨known, hKnown, hSame⟩ := hOffsets.registerSavepoint_fst point
  rw [NotesPresence, hTable]
  exact (Tables.NotesPresence.registerSavepoint h hOffsets point).add
    (hOffsets.registerSavepoint point) hKnown hSame hFree hPresence r.record

theorem NotesPresence.append_error (h : a.NotesPresence) (hOffsets : a.tables.offsets.IsCoherent)
    {point : Savepoint} {field : String} {bytes : List UInt8} {e : Error}
    (hError : append point field bytes (a, m) = .error e (a', m')) : a'.NotesPresence := by
  obtain ⟨hCatalog, hTable | hTable⟩ := tables_of_append_error hError
  · rw [NotesPresence, hCatalog, hTable]
    exact h
  · rw [NotesPresence, hCatalog, hTable]
    exact Tables.NotesPresence.registerSavepoint h hOffsets point

/-! ## Archives that count as changed -/

/-- An archive that is marked as changed. -/
def touched (a : Archive) : Archive := { a with dirty := true }

/-- A result with the archive in it marked as changed. -/
def touchResult {α : Type} :
    EStateM.Result Error (Archive × Machine) α → EStateM.Result Error (Archive × Machine) α
  | .ok r (a, m) => .ok r (a.touched, m)
  | .error e (a, m) => .error e (a.touched, m)

theorem FollowsLedger.touch {exact intact : Prop}
    (h : FollowsLedger l s dir exact intact live saved a m) :
    FollowsLedger l s dir True False live saved a.touched m := by
  obtain ⟨arena, data, hArena, hWritable, hLength, hKeeps, hContent, -⟩ := h.arena
  exact ⟨h.usable, h.layout, h.mode, h.settings, h.tables, h.isValid, h.writes,
    ⟨arena, data, hArena, hWritable, hLength, hKeeps, hContent, False.elim⟩, nofun⟩

theorem addMetainfo_touched (a : Archive) (key : String) (value : MetaValue) :
    a.touched.addMetainfo key value = (a.addMetainfo key value).map touched := by
  have hMode : a.touched.requireMode .write .addGlobalMetainfo =
      a.requireMode .write .addGlobalMetainfo := rfl
  simp only [addMetainfo, hMode]
  cases a.requireMode .write .addGlobalMetainfo with
  | error e => rfl
  | ok arena =>
      cases checkFiniteValue .archive key value with
      | error e => rfl
      | ok _ => rfl

theorem registerField_touched (a : Archive) (info : FieldInfo) :
    a.touched.registerField info =
      (a.registerField info).map fun result => (result.1, result.2.touched) := by
  have hMode : a.touched.requireMode .write .registerField =
      a.requireMode .write .registerField := rfl
  have hTables : a.touched.tables = a.tables := rfl
  simp only [registerField, hMode, hTables]
  cases a.requireMode .write .registerField with
  | error e => rfl
  | ok arena =>
      cases checkFinite (.field info.name) info.metainfo with
      | error e => rfl
      | ok _ =>
          cases a.tables.catalog.register info with
          | error e => rfl
          | ok result => rfl

theorem registerSavepoint_touched (a : Archive) (point : Savepoint) :
    a.touched.registerSavepoint point = (a.registerSavepoint point).map touched := by
  have hMode : a.touched.requireMode .write .registerSavepoint =
      a.requireMode .write .registerSavepoint := rfl
  have hTables : a.touched.tables = a.tables := rfl
  simp only [registerSavepoint, hMode, hTables]
  cases a.requireMode .write .registerSavepoint with
  | error e => rfl
  | ok arena =>
      cases checkFinite (.savepoint point) point.metainfo with
      | error e => rfl
      | ok _ =>
          cases a.tables.offsets.savepointId? point with
          | none => simp [bind, Except.bind, pure, Except.pure, Except.map, touched]
          | some id => simp [bind, Except.bind, pure, Except.pure, Except.map]

theorem addFieldMetainfo_touched (a : Archive) (field key : String) (value : MetaValue) :
    a.touched.addFieldMetainfo field key value =
      (a.addFieldMetainfo field key value).map touched := by
  have hMode : a.touched.requireMode .write .addFieldMetainfo =
      a.requireMode .write .addFieldMetainfo := rfl
  have hTables : a.touched.tables = a.tables := rfl
  simp only [addFieldMetainfo, hMode, hTables]
  cases a.requireMode .write .addFieldMetainfo with
  | error e => rfl
  | ok arena =>
      cases checkFiniteValue (.field field) key value with
      | error e => rfl
      | ok _ =>
          cases a.tables.catalog.addMetainfo field key value with
          | error e => rfl
          | ok catalog => rfl

theorem append_touched (a : Archive) (m : Machine) (point : Savepoint) (field : String)
    (bytes : List UInt8) :
    append point field bytes (a.touched, m) = touchResult (append point field bytes (a, m)) := by
  have hCheck : a.touched.checkAppend point field bytes = a.checkAppend point field bytes := rfl
  have hTables : a.touched.tables = a.tables := rfl
  simp only [append, hCheck, hTables]
  cases a.checkAppend point field bytes with
  | error e => rfl
  | ok arena =>
      dsimp only
      cases OffsetTable.append Arena.append point field bytes (a.tables.offsets, arena, m) with
      | error e state => rfl
      | ok appended state =>
          dsimp only
          cases a.tables.catalog.recordPresence point field with
          | error e => rfl
          | ok catalog => rfl

theorem persist_touched (a : Archive) (m : Machine) :
    touchResult (persist (a.touched, m)) = touchResult (persist (a, m)) := by
  have hDocument : a.touched.document (m.environment.clock m.calls) =
      a.document (m.environment.clock m.calls) := rfl
  have hLayout : a.touched.layout = a.layout := rfl
  rw [persist_eq, persist_eq, hDocument, hLayout]
  cases (a.document (m.environment.clock m.calls)).persist a.layout.metadata a.layout.temporary
    m.tick <;> rfl

/-- A flush does nothing, or what it does with the mark set. -/
theorem flush_touched (hMode : a.mode = .write) {arena : Arena} (hArena : a.arena = some arena) :
    flush (a, m) = .ok () (a, m) ∨
      touchResult (flush (a.touched, m)) = touchResult (flush (a, m)) := by
  have hMode' : a.touched.mode = .write := hMode
  have hArena' : a.touched.arena = some arena := hArena
  have hNeeds' : a.touched.needsFlush = true := by simp [needsFlush, touched]
  rw [flush_eq hMode hArena, flush_eq hMode' hArena', if_pos hNeeds']
  cases a.needsFlush with
  | false => exact Or.inl rfl
  | true =>
      refine Or.inr ?_
      rw [if_pos rfl]
      have hSync' : a.touched.syncData = a.syncData := rfl
      rw [hSync']
      cases a.syncData with
      | false => exact persist_touched a m
      | true =>
          simp only [if_true]
          cases hSync : arena.sync m with
          | error e m₁ =>
              have hBeside : ∀ a : Archive, Effect.beside arena.sync (a, m) =
                  .error e (a, m₁) := by
                intro a
                simp only [Effect.beside, hSync]
              rw [bind_of_error (hBeside a), bind_of_error (hBeside a.touched)]
              rfl
          | ok u m₁ =>
              have hBeside : ∀ a : Archive, Effect.beside arena.sync (a, m) = .ok u (a, m₁) := by
                intro a
                simp only [Effect.beside, hSync]
              rw [bind_of_ok (hBeside a), bind_of_ok (hBeside a.touched)]
              exact persist_touched a m₁

theorem touchResult_eq_ok {α : Type} {result : EStateM.Result Error (Archive × Machine) α} {r : α}
    (h : touchResult result = .ok r (a', m')) :
    ∃ a₁, result = .ok r (a₁, m') ∧ a₁.touched = a' := by
  cases result with
  | ok r₁ state =>
      cases h
      exact ⟨_, rfl, rfl⟩
  | error e state => cases h

theorem touchResult_eq_error {α : Type} {result : EStateM.Result Error (Archive × Machine) α}
    {e : Error} (h : touchResult result = .error e (a', m')) :
    ∃ a₁, result = .error e (a₁, m') ∧ a₁.touched = a' := by
  cases result with
  | ok r state => cases h
  | error e₁ state =>
      cases h
      exact ⟨_, rfl, rfl⟩

/-! ## Archives in a run -/

/-- An open archive follows a ledger of some blobs, as one that is marked as changed. -/
def TracksPresence (l : Layout) (s : Settings) (dir : NodeId) (blobs : List Blob) (a : Archive)
    (m : Machine) : Prop :=
  ∃ live saved, FollowsLedger l s dir True False live saved a.touched m ∧
    {p | p ∈ live.payloads} ⊆ bytesOf blobs ∧ a.NotesPresence

/-- An archive in a run that has stored some blobs: its disk keeps a ledger of them,
and it is closed or follows one. -/
structure PresenceRunState (l : Layout) (s : Settings) (dir : NodeId)
    (blobs : List Blob) (a : Archive) (m : Machine) : Prop where
  usable : l.IsUsable
  layout : a.layout = l
  disk : ∃ saved, m.disk.HoldsLedger l s dir saved ∧ {p | p ∈ saved.payloads} ⊆ bytesOf blobs
  memory : a.arena = none ∨ TracksPresence l s dir blobs a m

theorem bytesOf_mono {more : List Blob} (h : blobs ⊆ more) : bytesOf blobs ⊆ bytesOf more := by
  rintro p ⟨b, hb, rfl⟩
  exact ⟨b, h hb, rfl⟩

theorem TracksPresence.exists_arena (h : TracksPresence l s dir blobs a m) :
    ∃ arena, a.arena = some arena := by
  obtain ⟨live, saved, hFollows, -⟩ := h
  obtain ⟨arena, -, hArena, -⟩ := hFollows.arena
  exact ⟨arena, hArena⟩

theorem TracksPresence.presenceRunState (h : TracksPresence l s dir blobs a m) :
    PresenceRunState l s dir blobs a m := by
  obtain ⟨live, saved, hFollows, hBlobs, hPresence⟩ := h
  refine ⟨hFollows.usable, hFollows.layout, ⟨saved, hFollows.holds, ?_⟩,
    Or.inr ⟨live, saved, hFollows, hBlobs, hPresence⟩⟩
  intro p hp
  obtain ⟨w, hw, rfl⟩ := List.mem_map.1 hp
  exact hBlobs (Ledger.mem_payloads_of_mem (hFollows.writes.subset hw))

/-- A snapshot of an archive in a run is accepted, and gives back its tables. -/
theorem TracksPresence.exists_agrees (h : TracksPresence l s dir blobs a m) (updatedAt : String) :
    ∃ t, (a.document updatedAt).tables = .ok t ∧ t.Agrees a.tables := by
  obtain ⟨live, saved, hFollows, -, hPresence⟩ := h
  have hDocument : a.document updatedAt = live.document a.id a.createdAt updatedAt s :=
    hFollows.document_eq updatedAt
  obtain ⟨hMetainfo, hFields, hSavepoints, hEntries, hAlgorithm, hCatalog, hOffsets⟩ :=
    hFollows.tables
  rw [hDocument]
  exact Document.exists_agrees (hFollows.isValid.isSound a.id a.createdAt updatedAt)
    ⟨hMetainfo, hFields, hSavepoints, hEntries, hAlgorithm, hCatalog, hOffsets⟩ hPresence

/-! ## Changing the tables -/

/-- A command that changes the tables, or fails. -/
theorem PresenceRunState.ofTables (h : PresenceRunState l s dir blobs a m)
    {result : Except Error Archive} (hClosed : a.arena = none → ∃ e, result = .error e)
    (hOpen : ∀ live saved a', FollowsLedger l s dir True False live saved a.touched m →
      a.NotesPresence →
      result = .ok a' → ∃ live', FollowsLedger l s dir True False live' saved a'.touched m ∧
        live'.writes = live.writes ∧ a'.NotesPresence) :
    PresenceRunState l s dir blobs (Outcome.ofTables a m result).archive
      (Outcome.ofTables a m result).machine := by
  cases hResult : result with
  | error e => exact h
  | ok a' =>
      rcases h.memory with hNone | ⟨live, saved, hFollows, hBlobs, hPresence⟩
      · obtain ⟨e, hError⟩ := hClosed hNone
        rw [hError] at hResult
        cases hResult
      · obtain ⟨live', hNext, hWrites, hPresence'⟩ :=
          hOpen live saved a' hFollows hPresence hResult
        refine TracksPresence.presenceRunState ⟨live', saved, hNext, ?_, hPresence'⟩
        rw [Ledger.payloads, hWrites]
        exact hBlobs

theorem PresenceRunState.registerField (h : PresenceRunState l s dir blobs a m) {info : FieldInfo}
    (hBuilt : info.IsBuilt) :
    PresenceRunState l s dir blobs ((Command.registerField info).perform a m).archive
      ((Command.registerField info).perform a m).machine := by
  refine h.ofTables ?_ ?_
  · intro hClosed
    refine ⟨.invalidState .registerField .closed, ?_⟩
    simp only [Archive.registerField, requireMode_of_closed hClosed, bind, Except.bind, Except.map]
  · intro live saved a' hFollows hPresence hOk
    cases hRegister : a.registerField info with
    | error e =>
        rw [hRegister] at hOk
        cases hOk
    | ok result =>
        obtain ⟨r, a₁⟩ := result
        rw [hRegister] at hOk
        cases hOk
        have hTouched := registerField_touched a info
        rw [hRegister] at hTouched
        obtain ⟨hCases, -⟩ := hFollows.registerField_ok (FieldInfo.isBuilt_iff.1 hBuilt) hTouched
        have hPresence' := hPresence.registerField hRegister
        rcases hCases with ⟨hNext, -⟩ | hSame
        · exact ⟨_, hNext, rfl, hPresence'⟩
        · refine ⟨live, ?_, rfl, hPresence'⟩
          rw [hSame]
          exact hFollows

theorem PresenceRunState.registerSavepoint (h : PresenceRunState l s dir blobs a m)
    (point : Savepoint) :
    PresenceRunState l s dir blobs ((Command.registerSavepoint point).perform a m).archive
      ((Command.registerSavepoint point).perform a m).machine := by
  refine h.ofTables ?_ ?_
  · intro hClosed
    refine ⟨.invalidState .registerSavepoint .closed, ?_⟩
    simp only [Archive.registerSavepoint, requireMode_of_closed hClosed, bind, Except.bind]
  · intro live saved a' hFollows hPresence hOk
    have hTouched := registerSavepoint_touched a point
    rw [hOk] at hTouched
    have hPresence' := hPresence.registerSavepoint hFollows.tables.offsets hOk
    rcases hFollows.registerSavepoint_ok hTouched with ⟨hNext, -⟩ | ⟨hSame, -⟩
    · exact ⟨_, hNext, live.register_writes point, hPresence'⟩
    · refine ⟨live, ?_, rfl, hPresence'⟩
      rw [hSame]
      exact hFollows

theorem PresenceRunState.addMetainfo (h : PresenceRunState l s dir blobs a m) (key : String)
    (value : MetaValue) :
    PresenceRunState l s dir blobs ((Command.addMetainfo key value).perform a m).archive
      ((Command.addMetainfo key value).perform a m).machine := by
  refine h.ofTables ?_ ?_
  · intro hClosed
    refine ⟨.invalidState .addGlobalMetainfo .closed, ?_⟩
    simp only [Archive.addMetainfo, requireMode_of_closed hClosed, bind, Except.bind]
  · intro live saved a' hFollows hPresence hOk
    have hTouched := addMetainfo_touched a key value
    rw [hOk] at hTouched
    obtain ⟨hNext, -⟩ := hFollows.addMetainfo_ok hTouched
    exact ⟨_, hNext, rfl, hPresence.addMetainfo hOk⟩

theorem PresenceRunState.addFieldMetainfo (h : PresenceRunState l s dir blobs a m)
    (field key : String) (value : MetaValue) :
    PresenceRunState l s dir blobs ((Command.addFieldMetainfo field key value).perform a m).archive
      ((Command.addFieldMetainfo field key value).perform a m).machine := by
  refine h.ofTables ?_ ?_
  · intro hClosed
    refine ⟨.invalidState .addFieldMetainfo .closed, ?_⟩
    simp only [Archive.addFieldMetainfo, requireMode_of_closed hClosed, bind, Except.bind]
  · intro live saved a' hFollows hPresence hOk
    have hTouched := addFieldMetainfo_touched a field key value
    rw [hOk] at hTouched
    obtain ⟨i, hNext, -⟩ := hFollows.addFieldMetainfo_ok hTouched
    exact ⟨_, hNext, rfl, hPresence.addFieldMetainfo hOk⟩

/-! ## Storing, flushing and closing -/

theorem TracksPresence.append_ok (h : TracksPresence l s dir blobs a m) {blob : Blob} {r : Appended}
    (hOk : append blob.point blob.field blob.bytes (a, m) = .ok r (a', m'))
    (hDigest : Set.InjOn (Checksum.compute s.checksum) (bytesOf (blobs ++ [blob]))) :
    TracksPresence l s dir (blobs ++ [blob]) a' m' := by
  obtain ⟨live, saved, hFollows, hBlobs, hPresence⟩ := h
  have hGrown : {p | p ∈ live.payloads ++ [blob.bytes]} ⊆ bytesOf (blobs ++ [blob]) := by
    intro p hp
    rcases List.mem_append.1 hp with hOld | hNew
    · exact bytesOf_mono (List.subset_append_left _ _) (hBlobs hOld)
    · exact ⟨blob, by simp, List.mem_singleton.1 hNew⟩
  have hTouched := append_touched a m blob.point blob.field blob.bytes
  rw [hOk] at hTouched
  rcases hFollows.append_cases fun _ _ _ => hDigest.mono hGrown with ⟨e, hError, -⟩ |
    ⟨e, a₁, m₁, hError, -⟩ | ⟨r', a₁, m₁, hDone, -, hNext, -⟩
  · rw [hTouched] at hError
    cases hError
  · rw [hTouched] at hError
    cases hError
  · rw [hTouched] at hDone
    cases hDone
    refine ⟨_, saved, hNext, ?_, hPresence.append_ok hFollows.tables.offsets hOk⟩
    rw [stored_payloads]
    exact hGrown

theorem TracksPresence.append_error (h : TracksPresence l s dir blobs a m) {blob : Blob} {e : Error}
    (hError : append blob.point blob.field blob.bytes (a, m) = .error e (a', m')) :
    TracksPresence l s dir blobs a' m' := by
  obtain ⟨live, saved, hFollows, hBlobs, hPresence⟩ := h
  have hPresence' := hPresence.append_error hFollows.tables.offsets hError
  have hTouched := append_touched a m blob.point blob.field blob.bytes
  rw [hError] at hTouched
  -- nothing is stored, so the digest need not tell the bytes from others
  have hFailed : ∀ r state,
      append blob.point blob.field blob.bytes (a.touched, m) ≠ .ok r state := by
    intro r state hOk
    rw [hTouched] at hOk
    cases hOk
  rcases hFollows.append_cases fun r state hOk => absurd hOk (hFailed r state) with
    ⟨e', hSame, -⟩ | ⟨e', a₁, m₁, hSame, -, hNext⟩ | ⟨r, a₁, m₁, hOk, -⟩
  · have hStates := hTouched.symm.trans hSame
    injection hStates with _ hStates
    obtain ⟨hArchive, rfl⟩ := Prod.mk.inj hStates
    exact ⟨live, saved, hArchive ▸ hFollows, hBlobs, hPresence'⟩
  · have hStates := hTouched.symm.trans hSame
    injection hStates with _ hStates
    obtain ⟨hArchive, rfl⟩ := Prod.mk.inj hStates
    refine ⟨_, saved, hArchive ▸ hNext, ?_, hPresence'⟩
    rw [Ledger.register_payloads]
    exact hBlobs
  · exact absurd hOk (hFailed r _)

/-- An archive tracks its blobs if it does so when it is marked as changed. -/
theorem TracksPresence.of_touched {marked : Archive}
    (hFollows : FollowsLedger l s dir True False live saved marked m)
    (hBlobs : {p | p ∈ live.payloads} ⊆ bytesOf blobs)
    (hPresence : Tables.NotesPresence marked.tables.catalog marked.tables.offsets)
    (hMarked : a.touched = marked) : TracksPresence l s dir blobs a m := by
  subst hMarked
  exact ⟨live, saved, hFollows, hBlobs, hPresence⟩

/-- A flush keeps what an archive tracks, whether it fails or not. -/
theorem TracksPresence.flush (h : TracksPresence l s dir blobs a m)
    {stored : Option Blob} {o : Outcome}
    (hOutcome : Outcome.ofResult stored (Archive.flush (a, m)) = o) :
    TracksPresence l s dir blobs o.archive o.machine := by
  obtain ⟨live, saved, hFollows, hBlobs, hPresence⟩ := h
  obtain ⟨arena, data, hArena, -⟩ := hFollows.arena
  subst hOutcome
  have hMode : a.mode = .write := hFollows.mode
  have hHere : a.arena = some arena := hArena
  -- A clean archive stays as it is, though the marked one would be written.
  rcases flush_touched (m := m) hMode hHere with hSame | hSame
  · rw [hSame]
    exact ⟨live, saved, hFollows, hBlobs, hPresence⟩
  · rcases (hFollows.flush_ends rfl).cases with ⟨e, m', hFlush, -, hNext⟩ |
      ⟨e, m', hFlush, -, hNext⟩ | ⟨a', m', hFlush, -, hNext, -, hKept⟩
    · rw [hFlush] at hSame
      obtain ⟨a₁, hResult, hArchive⟩ := touchResult_eq_error hSame.symm
      rw [hResult]
      exact .of_touched hNext hBlobs hPresence hArchive
    · rw [hFlush] at hSame
      obtain ⟨a₁, hResult, hArchive⟩ := touchResult_eq_error hSame.symm
      rw [hResult]
      exact .of_touched hNext hBlobs hPresence hArchive
    · rw [hFlush] at hSame
      obtain ⟨a₁, hResult, hArchive⟩ := touchResult_eq_ok hSame.symm
      rw [hResult]
      refine .of_touched hNext.touch hBlobs ?_ hArchive
      change Tables.NotesPresence a'.tables.catalog a'.tables.offsets
      rw [hKept]
      exact hPresence

theorem PresenceRunState.flush (h : PresenceRunState l s dir blobs a m) :
    PresenceRunState l s dir blobs (Command.flush.perform a m).archive
      (Command.flush.perform a m).machine := by
  rcases h.memory with hClosed | hTracks
  · have hStay : ∃ e, Command.flush.perform a m = ⟨none, e, a, m⟩ := perform_flush_of_closed hClosed
    obtain ⟨e, hPerform⟩ := hStay
    rw [hPerform]
    exact h
  · exact (hTracks.flush (rfl : Outcome.ofResult none _ = _)).presenceRunState

theorem PresenceRunState.close (h : PresenceRunState l s dir blobs a m) :
    PresenceRunState l s dir blobs (Command.close.perform a m).archive
      (Command.close.perform a m).machine := by
  rcases h.memory with hClosed | hTracks
  · have hPerform : Command.close.perform a m = ⟨none, none, a, m⟩ := by
      simp [Command.perform, Archive.close, isClosed, hClosed, Outcome.ofResult]
    rw [hPerform]
    exact h
  · obtain ⟨arena, hArena⟩ := hTracks.exists_arena
    rw [perform_close_of_open hArena]
    have hNext := hTracks.flush (rfl : Outcome.ofResult none _ = _)
    exact ⟨h.usable, hNext.presenceRunState.layout, hNext.presenceRunState.disk, Or.inl rfl⟩

theorem PresenceRunState.store (h : PresenceRunState l s dir blobs a m) (durability : Durability)
    (blob : Blob) (hDigest : Set.InjOn (Checksum.compute s.checksum)
      (bytesOf (blobs ++ ((Command.store durability blob).perform a m).stored.toList))) :
    PresenceRunState l s dir (blobs ++ ((Command.store durability blob).perform a m).stored.toList)
      ((Command.store durability blob).perform a m).archive
      ((Command.store durability blob).perform a m).machine := by
  rcases h.memory with hClosed | hTracks
  · rw [perform_store_of_closed hClosed, Option.toList_none, List.append_nil]
    exact h
  · cases hAppend : append blob.point blob.field blob.bytes (a, m) with
    | error e state =>
        obtain ⟨a', m'⟩ := state
        rw [perform_store_of_error hAppend, Option.toList_none, List.append_nil]
        exact (hTracks.append_error hAppend).presenceRunState
    | ok r state =>
        obtain ⟨a', m'⟩ := state
        rw [stored_of_append hAppend durability] at hDigest ⊢
        have hNext := hTracks.append_ok hAppend hDigest
        rw [perform_store_of_ok hAppend]
        split
        · exact (hNext.flush rfl).presenceRunState
        · exact hNext.presenceRunState

/-! ## Opening again -/

theorem settings_of_reread {id : ArchiveId} {createdAt updatedAt : String} {doc : Document}
    (hRead : (saved.document id createdAt updatedAt s).reread? = some doc) :
    doc.settings = s ∧ doc.dataLength = saved.content.length := by
  obtain ⟨metainfo, fields, savepoints, -, -, -, rfl⟩ := Document.reread?_eq_some hRead
  exact ⟨rfl, rfl⟩

/-- Tables that were built from what documents give back for a ledger record a ledger
with the same snapshots. -/
theorem records_of_reread (hValid : saved.IsValid s.checksum) {id : ArchiveId}
    {createdAt updatedAt : String} {doc : Document}
    (hRead : (saved.document id createdAt updatedAt s).reread? = some doc) {tables : Tables}
    (hTables : doc.tables = .ok tables) :
    ∃ live : Ledger, live.writes = saved.writes ∧ live.IsValid s.checksum ∧
      tables.Records s live := by
  obtain ⟨live, hRereads, rfl⟩ := Ledger.exists_rereads_of_document hRead
  have hSound := Document.isSound_of_tables hTables
  exact ⟨live, hRereads.writes, hRereads.isValid hValid hSound.savepoints,
    (Document.tables_ok hTables).records⟩

/-- An archive over the tables of a loaded document tracks what the disk keeps. -/
theorem tracksPresence_ofDocument (hUsable : l.IsUsable) {file : NodeId} {doc : Document}
    {tables : Tables} (hCut : m.disk.KeepsLedger l s dir saved file saved.content)
    (hDeclared : doc.settings = s) (hTables : doc.tables = .ok tables)
    (hRecords : tables.Records s live) (hValid : live.IsValid s.checksum)
    (hWrites : live.writes = saved.writes) (hBlobs : {p | p ∈ saved.payloads} ⊆ bytesOf blobs)
    (sync : Bool) :
    TracksPresence l s dir blobs
      (ofDocument l .write doc tables ⟨l.data, file, saved.content.length, true⟩ sync) m := by
  have hPayloads : live.payloads = saved.payloads := by
    rw [Ledger.payloads, hWrites, Ledger.payloads]
  have hContent : live.content = saved.content := by
    rw [Ledger.content, hPayloads, Ledger.content]
  refine ⟨live, saved, ⟨hUsable, rfl, rfl, hDeclared, hRecords, hValid, ?_, ?_, ?_⟩, ?_,
    Document.notesPresence_of_tables hTables⟩
  · rw [hWrites]
  · exact ⟨_, saved.content, rfl, rfl, by rw [hContent], hCut, by rw [hContent], False.elim⟩
  · -- what was loaded need not be what was saved, so the mark must be set
    intro hDirty
    cases hDirty
  · rw [hPayloads]
    exact hBlobs

theorem PresenceRunState.reopen (h : PresenceRunState l s dir blobs a m) (settings : Settings)
    (sync : Bool) :
    PresenceRunState l s dir blobs ((Command.reopen settings sync).perform a m).archive
      ((Command.reopen settings sync).perform a m).machine := by
  obtain ⟨saved, ⟨file, data, hKeeps⟩, hBlobs⟩ := h.disk
  have hLayout := h.layout
  have hFailed : ∀ {e m'}, openForWrite l settings sync m = .error e m' →
      m'.disk.HoldsLedger l s dir saved →
      PresenceRunState l s dir blobs ((Command.reopen settings sync).perform a m).archive
        ((Command.reopen settings sync).perform a m).machine := by
    intro e m' hError hHolds
    simp only [Command.perform, hLayout, hError]
    exact ⟨h.usable, rfl, ⟨saved, hHolds, hBlobs⟩, Or.inl rfl⟩
  obtain ⟨id, createdAt, updatedAt, hLoad⟩ := Document.load_of_keepsLedger h.usable hKeeps
  -- The cases are the checks of `openForWrite`; one that fails leaves the archive closed.
  have hOpen := openForWrite_of_keepsLedger h.usable hKeeps settings sync
  rw [hLoad] at hOpen
  cases hRead : (saved.document id createdAt updatedAt s).reread? with
  | none =>
      rw [hRead] at hOpen
      exact hFailed hOpen ⟨file, data, hKeeps⟩
  | some doc =>
      simp only [hRead] at hOpen
      cases hMatches : settings.checkMatches doc.settings with
      | error difference =>
          rw [hMatches] at hOpen
          exact hFailed hOpen ⟨file, data, hKeeps⟩
      | ok _ =>
          simp only [hMatches] at hOpen
          cases hTables : doc.tables with
          | error e =>
              rw [hTables] at hOpen
              exact hFailed hOpen ⟨file, data, hKeeps⟩
          | ok tables =>
              obtain ⟨live, hWrites, hValid, hRecords⟩ :=
                records_of_reread hKeeps.isValid hRead hTables
              obtain ⟨hDeclared, hLength⟩ := settings_of_reread hRead
              simp only [hTables, hLength] at hOpen
              rcases Arena.openAppend_cases h.usable hKeeps with ⟨e, m', _, _, hError, -, hTo⟩ |
                ⟨m', hOk, -, hCut⟩
              · rw [bind_of_error hError] at hOpen
                exact hFailed hOpen hTo.last
              · rw [bind_of_ok hOk] at hOpen
                have hPerform : (Command.reopen settings sync).perform a m = ⟨none, none,
                    ofDocument l .write doc tables ⟨l.data, file, saved.content.length, true⟩ sync,
                    m'⟩ := by
                  simp only [Command.perform, hLayout, hOpen]
                  rfl
                rw [hPerform]
                exact (tracksPresence_ofDocument h.usable hCut hDeclared hTables
                  hRecords hValid hWrites
                  hBlobs sync).presenceRunState

/-! ## Runs -/

/-- Every command keeps the invariant. -/
theorem PresenceRunState.perform (h : PresenceRunState l s dir blobs a m) {command : Command}
    (hBuilt : command.IsBuilt)
    (hDigest : Set.InjOn (Checksum.compute s.checksum)
      (bytesOf (blobs ++ (command.perform a m).stored.toList))) :
    PresenceRunState l s dir (blobs ++ (command.perform a m).stored.toList)
      (command.perform a m).archive (command.perform a m).machine := by
  have hNone : ∀ {result : Except Error Archive}, (Outcome.ofTables a m result).stored = none := by
    intro result
    cases result <;> rfl
  have hQuiet : (command.perform a m).stored = none →
      PresenceRunState l s dir blobs (command.perform a m).archive (command.perform a m).machine →
      PresenceRunState l s dir (blobs ++ (command.perform a m).stored.toList)
        (command.perform a m).archive (command.perform a m).machine := by
    intro hStored hCarries
    rw [hStored, Option.toList_none, List.append_nil]
    exact hCarries
  cases command with
  | registerField info => exact hQuiet hNone (h.registerField hBuilt)
  | registerSavepoint point => exact hQuiet hNone (h.registerSavepoint point)
  | addMetainfo key value => exact hQuiet hNone (h.addMetainfo key value)
  | addFieldMetainfo field key value => exact hQuiet hNone (h.addFieldMetainfo field key value)
  | store durability blob => exact h.store durability blob hDigest
  | flush =>
      refine hQuiet ?_ h.flush
      simp only [Command.perform]
      cases Archive.flush (a, m) <;> rfl
  | close =>
      refine hQuiet ?_ h.close
      simp only [Command.perform]
      cases Archive.close (a, m) <;> rfl
  | reopen settings sync =>
      refine hQuiet ?_ (h.reopen settings sync)
      simp only [Command.perform]
      cases openForWrite a.layout settings sync m <;> rfl

/-- The archive and its machine after some commands. -/
def afterRun : List Command → Archive → Machine → Archive × Machine
  | [], a, m => (a, m)
  | command :: rest, a, m =>
      afterRun rest (command.perform a m).archive (command.perform a m).machine

/-- A run keeps the invariant. -/
theorem PresenceRunState.run (h : PresenceRunState l s dir blobs a m) {commands : List Command}
    (hBuilt : ∀ c ∈ commands, c.IsBuilt)
    (hDigest : Set.InjOn (Checksum.compute s.checksum)
      (bytesOf (blobs ++ storedBy (run commands a m)))) :
    PresenceRunState l s dir (blobs ++ storedBy (run commands a m))
      (afterRun commands a m).1 (afterRun commands a m).2 := by
  induction commands generalizing blobs a m with
  | nil =>
      rw [show storedBy (Archive.run [] a m) = [] from rfl, List.append_nil]
      exact h
  | cons command commands ih =>
      have hStored : storedBy (Archive.run (command :: commands) a m) =
          (command.perform a m).stored.toList ++ storedBy (Archive.run commands
            (command.perform a m).archive (command.perform a m).machine) := rfl
      rw [hStored, ← List.append_assoc] at hDigest ⊢
      have hNext := h.perform (hBuilt command (by simp))
        (hDigest.mono (bytesOf_mono (List.subset_append_left _ _)))
      exact ih hNext (fun c hc => hBuilt c (by simp [hc])) hDigest

/-- Snapshots and loading are inverse.  An archive that is open after any run on a new
archive has a snapshot that is accepted and gives back tables with the same answers;
and a document that is accepted is the snapshot of its tables, but for the time of the
snapshot and the version. -/
theorem snapshot_inverse {directory stem : String} {sync : Bool} {start : Machine}
    (hLayout : Layout.make directory stem = .ok l) (hWell : start.disk.WellFormed)
    (hVacant : l.IsVacant start) (hCreated : openForWrite l s sync start = .ok a m)
    {commands : List Command} (hBuilt : ∀ c ∈ commands, c.IsBuilt)
    (hDigest : Set.InjOn (Checksum.compute s.checksum)
      (bytesOf (storedBy (run commands a m)))) :
    (∀ reached, reached = (afterRun commands a m).1 → reached.isClosed = false → ∀ updatedAt, ∃ t,
      (Document.snapshot reached.id reached.createdAt updatedAt reached.settings reached.tables
        reached.dataLength).tables = .ok t ∧ t.Agrees reached.tables) ∧
    ∀ (doc : Document) (t : Tables), doc.tables = .ok t → ∀ updatedAt,
      Document.snapshot doc.id doc.createdAt updatedAt doc.settings t doc.dataLength =
        { doc with updatedAt := updatedAt, formatVersion := Document.currentVersion } := by
  refine ⟨?_, fun doc t hOk updatedAt => Document.snapshot_of_tables hOk updatedAt⟩
  rintro reached rfl hOpen updatedAt
  have hPlain := Layout.hasPlainNames_of_make hLayout
  obtain ⟨dir, file, id, createdAt, -, rfl, hFollows, -⟩ :=
    openForWrite_new hPlain hWell hVacant hCreated
  have hStart : TracksPresence l s dir [] _ m :=
    ⟨.empty, .empty, hFollows.touch, (fun p hp => by cases hp), fun probe => rfl⟩
  have hRun := hStart.presenceRunState.run hBuilt hDigest
  rcases hRun.memory with hClosed | hTracks
  · simp [isClosed, hClosed] at hOpen
  · exact hTracks.exists_agrees updatedAt

namespace Sample

/-- The bytes of the blob are stored at two savepoints; a third attempt fails. -/
def commands : List Command :=
  [register, .store .standard blob, .store .standard { blob with point := Session.Sample.step 1 },
    .store .standard blob]

theorem exists_afterRun : ∃ a m, create = .ok a m ∧
    (afterRun commands a m).1.isClosed = false ∧
    (afterRun commands a m).1.tables.offsets.entries.map (·.record.extent.offset) = [0, 0] ∧
    (storedBy (run commands a m)).map Blob.bytes = [blob.bytes, blob.bytes] := by
  decide +kernel

/-- What was stored is given back, with one range for both keys, and what is given
back has the same snapshot. -/
theorem snapshot_inverse_sample : ∃ a m, create = .ok a m ∧ ∀ updatedAt, ∃ t : Tables,
    ((afterRun commands a m).1.document updatedAt).tables = .ok t ∧
      t.offsets.entries.map (·.record.extent.offset) = [0, 0] ∧
      (afterRun commands a m).1.document "later" =
        .snapshot (afterRun commands a m).1.id (afterRun commands a m).1.createdAt "later"
          (afterRun commands a m).1.settings t (afterRun commands a m).1.dataLength := by
  obtain ⟨a, m, hCreate, hOpen, hOffsets, hStored⟩ := exists_afterRun
  have hBuilt : ∀ c ∈ commands, c.IsBuilt := by
    intro c hc
    simp only [commands, List.mem_cons, List.not_mem_nil, or_false] at hc
    rcases hc with rfl | rfl | rfl | rfl
    · exact Session.Sample.isBuilt_temperature
    all_goals trivial
  have hDigest : Set.InjOn (Checksum.compute Session.Sample.settings.checksum)
      (bytesOf (storedBy (run commands a m))) := by
    have hOnly : ∀ p ∈ bytesOf (storedBy (run commands a m)), p = blob.bytes := by
      rintro p ⟨b, hb, rfl⟩
      have hMem := List.mem_map_of_mem (f := Blob.bytes) hb
      rw [hStored] at hMem
      simpa using hMem
    intro p hp q hq _
    rw [hOnly p hp, hOnly q hq]
  obtain ⟨hLoads, hGivesBack⟩ := snapshot_inverse Session.Sample.layout_eq Disk.wellFormed_empty
    Session.Sample.isVacant hCreate hBuilt hDigest
  refine ⟨a, m, hCreate, fun updatedAt => ?_⟩
  obtain ⟨t, hTables, hAgrees⟩ := hLoads _ rfl hOpen updatedAt
  exact ⟨t, hTables, by rw [hAgrees.entries, hOffsets], (hGivesBack _ t hTables "later").symm⟩

end Sample
end Archive
end FieldArchive

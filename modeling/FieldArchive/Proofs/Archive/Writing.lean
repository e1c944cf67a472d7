import FieldArchive.Archive.Operations
import FieldArchive.Proofs.Archive.Saved
import FieldArchive.Proofs.Codec
import FieldArchive.Proofs.Ledger.Tables

/-!
# Archives open for writing

An archive that is open for writing follows two ledgers: the one in memory, and
the one that its disk keeps, which has the first stored snapshots of the other.
`Archive.FollowsLedger` is the invariant.  Each operation keeps it; the lemmas say what
happens to the two ledgers, and that the disk keeps the saved one at every
possible stop until the metadata file is renamed.

A failed write leaves bytes behind the end of the data file and makes its
savepoint known without marking the archive as changed.  The invariant therefore
says more of runs that are intact, which means without such a failure.  It also says
more if the archive was opened with the exact metainfo that its disk keeps.
-/

namespace FieldArchive

/-- True for a failure of the file system during an operation. -/
def Error.isIo : Error → Bool
  | .io _ => true
  | _ => false

/-- A disk that keeps a ledger, whatever the data file holds after its contents. -/
def Disk.HoldsLedger (l : Layout) (s : Settings) (dir : NodeId) (saved : Ledger) (d : Disk) :
    Prop :=
  ∃ file data, d.KeepsLedger l s dir saved file data

namespace Archive

/-- An archive open for writing follows the ledger `live`, and its disk keeps the
ledger `saved`. -/
structure FollowsLedger (l : Layout) (s : Settings) (dir : NodeId) (exact intact : Prop)
    (live saved : Ledger) (a : Archive) (m : Machine) : Prop where
  usable : l.IsUsable
  layout : a.layout = l
  mode : a.mode = .write
  settings : a.settings = s
  tables : a.tables.Records s live
  isValid : live.IsValid s.checksum
  writes : saved.writes <+: live.writes
  arena : ∃ arena data, a.arena = some arena ∧ arena.writable = true ∧
    arena.length = live.content.length ∧ m.disk.KeepsLedger l s dir saved arena.file data ∧
    live.content <+: data ∧ (intact → data = live.content)
  clean : a.dirty = false → a.recordedLength = live.content.length ∧ saved.Covers exact live ∧
    (exact → intact → saved = live)

variable {l : Layout} {s : Settings} {dir : NodeId} {exact intact : Prop} {live saved : Ledger}
  {a : Archive} {m m' : Machine}

theorem FollowsLedger.holds (h : FollowsLedger l s dir exact intact live saved a m) :
    m.disk.HoldsLedger l s dir saved := by
  obtain ⟨arena, data, -, -, -, hKeeps, -, -⟩ := h.arena
  exact ⟨arena.file, data, hKeeps⟩

/-- The document that a flush writes is that of the ledger. -/
theorem FollowsLedger.document_eq (h : FollowsLedger l s dir exact intact live saved a m)
    (updatedAt : String) :
    a.document updatedAt = live.document a.id a.createdAt updatedAt s := by
  obtain ⟨arena, data, hArena, -, hLength, -, -, -⟩ := h.arena
  have hMetainfo : a.tables.metainfo = live.metainfo := h.tables.metainfo
  have hFields : a.tables.catalog.fields = live.fields := h.tables.fields
  have hSavepoints : a.tables.offsets.savepoints = live.savepoints := h.tables.savepoints
  have hEntries : a.tables.offsets.entries = live.entries s.checksum := h.tables.entries
  have hData : a.dataLength = live.content.length := by
    simp [dataLength, hArena, hLength]
  simp only [document, Document.snapshot, Ledger.document, h.settings, hMetainfo, hFields,
    hSavepoints, hEntries, hData]

/-- The invariant depends on the machine through its disk. -/
theorem FollowsLedger.of_keepsLedger (h : FollowsLedger l s dir exact intact live saved a m)
    (hKeeps : ∀ {file data}, m.disk.KeepsLedger l s dir saved file data →
      m'.disk.KeepsLedger l s dir saved file data) :
    FollowsLedger l s dir exact intact live saved a m' := by
  obtain ⟨arena, data, hArena, hWritable, hLength, hDisk, hContent, hIntact⟩ := h.arena
  exact ⟨h.usable, h.layout, h.mode, h.settings, h.tables, h.isValid, h.writes,
    ⟨arena, data, hArena, hWritable, hLength, hKeeps hDisk, hContent, hIntact⟩, h.clean⟩

/-- Less may be promised of an archive. -/
theorem FollowsLedger.mono {exact' intact' : Prop}
    (h : FollowsLedger l s dir exact intact live saved a m) (hExact : exact' → exact)
    (hImp : intact' → intact) :
    FollowsLedger l s dir exact' intact' live saved a m := by
  obtain ⟨arena, data, hArena, hWritable, hLength, hKeeps, hContent, hIntact⟩ := h.arena
  refine ⟨h.usable, h.layout, h.mode, h.settings, h.tables, h.isValid, h.writes,
    ⟨arena, data, hArena, hWritable, hLength, hKeeps, hContent, fun hi => hIntact (hImp hi)⟩, ?_⟩
  intro hDirty
  obtain ⟨hRecorded, hCovers, hSame⟩ := h.clean hDirty
  exact ⟨hRecorded, hCovers.weaken hExact, fun he hi => hSame (hExact he) (hImp hi)⟩

theorem FollowsLedger.weaken {intact' : Prop}
    (h : FollowsLedger l s dir exact intact live saved a m) (hImp : intact' → intact) :
    FollowsLedger l s dir exact intact' live saved a m :=
  h.mono (fun hExact => hExact) hImp

/-- Once the disk keeps the ledger in memory, that one is the saved one. -/
theorem FollowsLedger.of_replaced (h : FollowsLedger l s dir exact intact live saved a m)
    {arena : Arena} {data : List UInt8} (hArena : a.arena = some arena)
    (hKeeps : m.disk.KeepsLedger l s dir saved arena.file data)
    (hLive : m'.disk.KeepsLedger l s dir live arena.file data) :
    FollowsLedger l s dir exact intact live live a m' := by
  obtain ⟨arena', data', hArena', hWritable, hLength, hDisk, hContent, hIntact⟩ := h.arena
  obtain rfl : arena = arena' := Option.some.inj (hArena.symm.trans hArena')
  have hData : data' = data := by
    have hNode := hDisk.dataFile.node.symm.trans hKeeps.dataFile.node
    exact Node.file.inj (Option.some.inj hNode)
  subst hData
  refine ⟨h.usable, h.layout, h.mode, h.settings, h.tables, h.isValid, List.prefix_refl _,
    ⟨arena, data', hArena, hWritable, hLength, hLive, hContent, hIntact⟩, ?_⟩
  intro hDirty
  exact ⟨(h.clean hDirty).1, .refl exact live, fun _ _ => rfl⟩

/-! ## Flushing -/

theorem persist_eq (a : Archive) (m : Machine) :
    persist (a, m) =
      match (a.document (m.environment.clock m.calls)).persist a.layout.metadata
        a.layout.temporary m.tick with
      | .ok _ m' => .ok () ({ a with recordedLength := a.dataLength, dirty := false }, m')
      | .error e m' => .error e (a, m') := by
  unfold persist
  rfl

theorem flush_eq (hMode : a.mode = .write) {arena : Arena} (hArena : a.arena = some arena) :
    flush (a, m) =
      if a.needsFlush then (do
        if a.syncData then Effect.beside arena.sync else pure ()
        persist : ArchiveAction Unit) (a, m)
      else .ok () (a, m) := by
  simp only [flush, hMode, requireOpen, isClosed, hArena, Option.isNone_some, Bool.false_eq_true,
    if_false]

/-- A flush of an open archive does nothing, or fails in waiting for the data file, or
replaces the metadata. -/
theorem flush_cases (hMode : a.mode = .write) {arena : Arena} (hArena : a.arena = some arena)
    (hWritable : arena.writable = true) :
    (a.needsFlush = false ∧ flush (a, m) = .ok () (a, m)) ∨
    (∃ e, flush (a, m) = .error (.io e) (a, m.tick)) ∨
    (a.needsFlush = true ∧ ∃ m₁, (m₁ = m ∨ m₁ = m.tick) ∧ flush (a, m) = persist (a, m₁)) := by
  rw [flush_eq hMode hArena]
  cases hNeeds : a.needsFlush with
  | false => exact Or.inl ⟨rfl, if_neg (by simp)⟩
  | true =>
      rw [if_pos rfl]
      cases hSync : a.syncData with
      | false => exact Or.inr (Or.inr ⟨rfl, m, Or.inl rfl, rfl⟩)
      | true =>
          have hArenaSync : arena.sync = Effect.ofCall Machine.sync := by
            rw [Arena.sync, if_pos hWritable]
          rw [hArenaSync, if_pos rfl]
          cases hMachine : Machine.sync m with
          | error e m' =>
              have hTick := Machine.sync_error hMachine
              subst hTick
              refine Or.inr (Or.inl ⟨e, bind_of_error ?_⟩)
              simp only [Effect.beside, Effect.ofCall, EStateM.adaptExcept, hMachine]
          | ok u m' =>
              have hTick := Machine.sync_ok hMachine
              subst hTick
              refine Or.inr (Or.inr ⟨rfl, m.tick, Or.inr rfl, bind_of_ok (a := ()) ?_⟩)
              simp only [Effect.beside, Effect.ofCall, EStateM.adaptExcept, hMachine]

/-- The ways in which replacing the metadata can end.  `act` is the action that
replaces it. -/
structure FollowsLedger.Ends (l : Layout) (s : Settings) (dir : NodeId) (exact intact : Prop)
    (live saved : Ledger) (a : Archive) (m : Machine) (act : ArchiveAction Unit) : Prop where
  cases :
    (∃ e m', act (a, m) = .error (.io e) (a, m') ∧
      Machine.Proceeds (Disk.HoldsLedger l s dir saved) m m' ∧
      FollowsLedger l s dir exact intact live saved a m') ∨
    (∃ e m', act (a, m) = .error (.io e) (a, m') ∧
      Machine.Replaces l dir (Disk.HoldsLedger l s dir saved) (Disk.HoldsLedger l s dir live) m m' ∧
      FollowsLedger l s dir exact intact live live a m') ∨
    (∃ a' m', act (a, m) = .ok () (a', m') ∧
      Machine.Replaces l dir (Disk.HoldsLedger l s dir saved) (Disk.HoldsLedger l s dir live) m m' ∧
      FollowsLedger l s dir exact intact live live a' m' ∧ a'.dirty = false ∧ a'.tables = a.tables)

theorem FollowsLedger.persist_ends (h : FollowsLedger l s dir exact intact live saved a m) :
    FollowsLedger.Ends l s dir exact intact live saved a m persist := by
  have hLayout := h.layout
  subst hLayout
  obtain ⟨arena, data, hArena, hWritable, hLength, hDisk, hContent, hIntact⟩ := h.arena
  have hAct : ∀ {r}, (a.document (m.environment.clock m.calls)).persist a.layout.metadata
      a.layout.temporary m.tick = r →
      persist (a, m) =
        match r with
        | .ok _ m' => .ok () ({ a with recordedLength := a.dataLength, dirty := false }, m')
        | .error e m' => .error e (a, m') := by
    rintro r rfl
    exact persist_eq a m
  have hCases := Document.persist_cases h.usable (m := m.tick) hDisk h.isValid hContent a.id
    a.createdAt (m.environment.clock m.calls)
  rw [← h.document_eq] at hCases
  have hTick : Machine.Proceeds (Disk.KeepsLedger a.layout s dir saved arena.file data) m m.tick :=
    .tick hDisk
  have hHolds : ∀ {ledger : Ledger} (d : Disk),
      d.KeepsLedger a.layout s dir ledger arena.file data →
      d.HoldsLedger a.layout s dir ledger := fun d hd => ⟨arena.file, data, hd⟩
  -- the document is in its place, or it is not; the memory changes only on success
  rcases hCases with ⟨e, m', hError, hTo⟩ | ⟨m', ⟨m₁, hTo, hFrom⟩, hResult⟩
  · refine ⟨Or.inl ⟨e, m', hAct hError, (hTick.trans hTo).mono hHolds, ?_⟩⟩
    exact ⟨h.usable, h.layout, h.mode, h.settings, h.tables, h.isValid, h.writes,
      ⟨arena, data, hArena, hWritable, hLength, hTo.last, hContent, hIntact⟩, h.clean⟩
  · have hReplaces : Machine.Replaces a.layout dir (Disk.HoldsLedger a.layout s dir saved)
        (Disk.HoldsLedger a.layout s dir live) m m' :=
        ⟨m₁, (hTick.trans hTo).mono hHolds, hFrom.mono hHolds⟩
    have hFollows := h.of_replaced hArena hDisk hFrom.last
    rcases hResult with hOk | ⟨e, hError⟩
    · refine ⟨Or.inr (Or.inr ⟨_, m', hAct hOk, hReplaces, ?_, rfl, rfl⟩)⟩
      refine ⟨h.usable, rfl, h.mode, h.settings, h.tables, h.isValid, List.prefix_refl _,
        ⟨arena, data, hArena, hWritable, hLength, hFrom.last, hContent, hIntact⟩, ?_⟩
      intro _
      refine ⟨?_, .refl exact live, fun _ _ => rfl⟩
      simp [dataLength, hArena, hLength]
    · exact ⟨Or.inr (Or.inl ⟨e, m', hAct hError, hReplaces, hFollows⟩)⟩

/-- A flush of an archive that was not changed does nothing. -/
theorem FollowsLedger.flush_of_clean (h : FollowsLedger l s dir exact intact live saved a m)
    (hDirty : a.dirty = false) : flush (a, m) = .ok () (a, m) := by
  obtain ⟨arena, data, hArena, -, hLength, -, -, -⟩ := h.arena
  have hRecorded := (h.clean hDirty).1
  have hNeeds : a.needsFlush = false := by
    simp [needsFlush, hDirty, hArena, hLength, hRecorded]
  rw [flush_eq h.mode hArena, if_neg (by simp [hNeeds])]

/-- A flush of a changed archive replaces the metadata. -/
theorem FollowsLedger.flush_ends (h : FollowsLedger l s dir exact intact live saved a m)
    (hDirty : a.dirty = true) :
    FollowsLedger.Ends l s dir exact intact live saved a m flush := by
  obtain ⟨arena, data, hArena, hWritable, -⟩ := h.arena
  have hTick : Machine.Proceeds (Disk.HoldsLedger l s dir saved) m m.tick := .tick h.holds
  have hLater : FollowsLedger l s dir exact intact live saved a m.tick :=
    h.of_keepsLedger fun hKeeps => hKeeps
  rcases flush_cases (m := m) h.mode hArena hWritable with ⟨hNeeds, -⟩ | ⟨e, hFailed⟩ |
    ⟨-, m₁, hFrom, hPersist⟩
  · simp [needsFlush, hDirty] at hNeeds
  · exact ⟨Or.inl ⟨e, m.tick, hFailed, hTick, hLater⟩⟩
  · -- waiting for the data file has changed nothing
    have hStart : Machine.Proceeds (Disk.HoldsLedger l s dir saved) m m₁ ∧
        FollowsLedger l s dir exact intact live saved a m₁ := by
      rcases hFrom with rfl | rfl
      · exact ⟨.refl h.holds, h⟩
      · exact ⟨hTick, hLater⟩
    obtain ⟨hTo₁, hNext⟩ := hStart
    rcases hNext.persist_ends.cases with ⟨e, m', hEnd, hTo, hFollows⟩ |
      ⟨e, m', hEnd, ⟨m₂, hTo, hAfter⟩, hFollows⟩ |
      ⟨a', m', hEnd, ⟨m₂, hTo, hAfter⟩, hFollows, hClean, hTables⟩
    · exact ⟨Or.inl ⟨e, m', hPersist.trans hEnd, hTo₁.trans hTo, hFollows⟩⟩
    · exact ⟨Or.inr (Or.inl ⟨e, m', hPersist.trans hEnd,
        ⟨m₂, hTo₁.trans hTo, hAfter⟩, hFollows⟩)⟩
    · exact ⟨Or.inr (Or.inr ⟨a', m', hPersist.trans hEnd,
        ⟨m₂, hTo₁.trans hTo, hAfter⟩, hFollows, hClean, hTables⟩)⟩

/-- An archive that is open fails to flush only in the file system. -/
theorem isIo_of_flush_error (hMode : a.mode = .write) {arena : Arena}
    (hArena : a.arena = some arena) {e : Error} {state : Archive × Machine}
    (h : flush (a, m) = .error e state) : e.isIo = true := by
  have hPersist : ∀ state₁ : Archive × Machine, persist state₁ = .error e state →
      e.isIo = true := by
    rintro ⟨a, m⟩ hError
    rw [persist_eq] at hError
    split at hError
    · cases hError
    · next hRun =>
        cases hError
        obtain ⟨cause, rfl, -⟩ := Effect.ofCall_error hRun
        rfl
  rw [flush_eq hMode hArena] at h
  split at h
  · dsimp only at h
    -- the data file is synchronised first if the settings say so
    cases hSync : a.syncData with
    | false =>
        rw [hSync] at h
        exact hPersist (a, m) h
    | true =>
        rw [hSync, if_pos rfl] at h
        rcases bind_eq_error h with hFailed | ⟨u, state₁, -, hRest⟩
        · simp only [Effect.beside, Arena.sync] at hFailed
          split at hFailed
          · cases hFailed
          · next hRun =>
              cases hFailed
              split at hRun
              · obtain ⟨cause, rfl, -⟩ := Effect.ofCall_error hRun
                rfl
              · cases hRun
        · exact hPersist state₁ hRest
  · cases h

/-- An archive that was closed is kept by its disk, except perhaps for savepoints
that only a failed write made known. -/
theorem FollowsLedger.close_ok (h : FollowsLedger l s dir exact intact live saved a m)
    {a' : Archive} (hOk : close (a, m) = .ok () (a', m')) :
    ∃ kept, kept.Covers exact live ∧ (exact → intact → kept = live) ∧ a'.tables = a.tables ∧
      ∃ file data, m'.disk.KeepsLedger l s dir kept file data ∧ (intact → data = live.content) := by
  obtain ⟨arena, data, hArena, -, -, hKeeps, -, hExact⟩ := h.arena
  have hOpen : a.isClosed = false := by simp [isClosed, hArena]
  simp only [close, hOpen, Bool.false_eq_true, if_false] at hOk
  cases hDirty : a.dirty with
  | false =>
      rw [h.flush_of_clean hDirty] at hOk
      cases hOk
      obtain ⟨-, hCovers, hSame⟩ := h.clean hDirty
      exact ⟨saved, hCovers, hSame, rfl, arena.file, data, hKeeps, hExact⟩
  | true =>
      rcases (h.flush_ends hDirty).cases with ⟨e, m₁, hFlush, -, -⟩ | ⟨e, m₁, hFlush, -, -⟩ |
        ⟨a₁, m₁, hFlush, -, hFollows, -, hTables⟩
      · rw [hFlush] at hOk
        cases hOk
      · rw [hFlush] at hOk
        cases hOk
      · rw [hFlush] at hOk
        cases hOk
        obtain ⟨arena₁, data₁, -, -, -, hKeeps₁, -, hExact₁⟩ := hFollows.arena
        exact ⟨live, .refl exact live, fun _ _ => rfl, hTables, arena₁.file, data₁, hKeeps₁,
          hExact₁⟩

/-! ## Changing the tables -/

theorem checkFinite_eq_ok_iff {owner : Owner} {metainfo : Metainfo} :
    checkFinite owner metainfo = .ok () ↔ metainfo.firstNonFinite? = none := by
  unfold checkFinite
  cases metainfo.firstNonFinite? <;> simp

theorem checkFiniteValue_eq_ok_iff {owner : Owner} {key : String} {value : MetaValue} :
    checkFiniteValue owner key value = .ok () ↔ value.isFinite = true := by
  unfold checkFiniteValue
  cases value.isFinite <;> simp

theorem FollowsLedger.requireMode_eq_ok (h : FollowsLedger l s dir exact intact live saved a m)
    (operation : Operation) :
    ∃ arena, a.arena = some arena ∧ a.requireMode .write operation = .ok arena := by
  obtain ⟨arena, data, hArena, -⟩ := h.arena
  exact ⟨arena, hArena, by simp [requireMode, hArena, h.mode]⟩

theorem FollowsLedger.of_tables (h : FollowsLedger l s dir exact intact live saved a m)
    {next : Ledger} {tables : Tables} (hTables : tables.Records s next)
    (hValid : next.IsValid s.checksum) (hWrites : next.writes = live.writes) :
    FollowsLedger l s dir exact intact next saved { a with tables := tables, dirty := true } m := by
  obtain ⟨arena, data, hArena, hWritable, hLength, hDisk, hContent, hIntact⟩ := h.arena
  have hSame : next.content = live.content := by
    simp only [Ledger.content, Ledger.payloads, hWrites]
  refine ⟨h.usable, h.layout, h.mode, h.settings, hTables, hValid, ?_, ⟨arena, data, hArena,
    hWritable, ?_, hDisk, ?_, ?_⟩, ?_⟩
  · rw [hWrites]
    exact h.writes
  · rw [hSame]
    exact hLength
  · rw [hSame]
    exact hContent
  · rw [hSame]
    exact hIntact
  · intro hDirty
    cases hDirty

theorem FollowsLedger.addMetainfo_ok (h : FollowsLedger l s dir exact intact live saved a m)
    {key : String} {value : MetaValue} {a' : Archive} (hOk : a.addMetainfo key value = .ok a') :
    FollowsLedger l s dir exact intact (live.setMetainfo key value) saved a' m ∧
      a'.dirty = true := by
  obtain ⟨arena, -, hMode⟩ := h.requireMode_eq_ok .addGlobalMetainfo
  simp only [addMetainfo, hMode, bind, Except.bind] at hOk
  split at hOk
  · cases hOk
  · next hCheck =>
      cases hOk
      have hFinite := checkFiniteValue_eq_ok_iff.1 hCheck
      exact ⟨h.of_tables (h.tables.addMetainfo key value) (h.isValid.setMetainfo key hFinite) rfl,
        rfl⟩

/-- A field that is registered adds its description or changes nothing. -/
theorem FollowsLedger.registerField_ok (h : FollowsLedger l s dir exact intact live saved a m)
    {info : FieldInfo} (hValid : info.validate = .ok ()) {r : Registration} {a' : Archive}
    (hOk : a.registerField info = .ok (r, a')) :
    ((FollowsLedger l s dir exact intact (live.addField info) saved a' m ∧ a'.dirty = true) ∨
      a' = a) ∧ ∃ registered, a'.tables.catalog.find? info.name = some registered ∧
        registered.agreesWith info = true := by
  obtain ⟨arena, -, hMode⟩ := h.requireMode_eq_ok .registerField
  simp only [registerField, hMode, checkFinite, bind, Except.bind] at hOk
  cases hFinite : info.metainfo.firstNonFinite? with
  | some key => simp [hFinite] at hOk
  | none =>
      simp only [hFinite] at hOk
      cases hRegister : a.tables.catalog.register info with
      | error e => simp [hRegister] at hOk
      | ok result =>
          obtain ⟨r', catalog⟩ := result
          simp only [hRegister, pure, Except.pure, Except.ok.injEq, Prod.mk.injEq] at hOk
          obtain ⟨rfl, rfl⟩ := hOk
          rcases h.tables.catalog.register_ok hRegister with
            ⟨rfl, hCoherent, hFields, hNone⟩ | ⟨rfl, rfl, registered, hFind, hAgrees⟩
          · have hFresh := h.tables.find?_eq_none_iff.1 hNone
            have hAdded := h.of_tables (h.tables.addField hCoherent hFields)
              (h.isValid.addField hFresh hValid hFinite) rfl
            refine ⟨Or.inl ?_, info, ?_, ?_⟩
            · simp only [decide_true, Bool.or_true]
              exact ⟨hAdded, trivial⟩
            · exact hCoherent.find?_eq_some_iff.2 ⟨by rw [hFields]; simp, rfl⟩
            · exact FieldInfo.agreesWith_iff.2 ⟨rfl, rfl, rfl⟩
          · have hSame : (a.dirty || decide (Registration.confirmed = .inserted)) = a.dirty := by
              simp
            refine ⟨Or.inr ?_, registered, hFind, hAgrees⟩
            simp only [hSame]

theorem FollowsLedger.registerSavepoint_ok (h : FollowsLedger l s dir exact intact live saved a m)
    {point : Savepoint} {a' : Archive} (hOk : a.registerSavepoint point = .ok a') :
    (FollowsLedger l s dir exact intact (live.register point) saved a' m ∧ a'.dirty = true) ∨
      (a' = a ∧ live.register point = live) := by
  obtain ⟨arena, -, hMode⟩ := h.requireMode_eq_ok .registerSavepoint
  have hRegister := h.tables.registerSavepoint point
  have hSavepoints : a.tables.offsets.savepoints = live.savepoints := h.tables.savepoints
  simp only [registerSavepoint, hMode, checkFinite, bind, Except.bind] at hOk
  cases hFinite : point.metainfo.firstNonFinite? with
  | some key => simp [hFinite] at hOk
  | none =>
      simp only [hFinite] at hOk
      cases hId : a.tables.offsets.savepointId? point with
      | some id =>
          simp only [hId, pure, Except.pure, Except.ok.injEq] at hOk
          have hKnown : live.savepoints.findIdx? (fun known => known == point) = some id := by
            rw [← hSavepoints, ← h.tables.offsets.savepointIds]
            exact hId
          refine Or.inr ⟨hOk.symm, ?_⟩
          simp only [Ledger.register, hKnown]
      | none =>
          simp only [hId, pure, Except.pure, Except.ok.injEq] at hOk
          subst hOk
          exact Or.inl ⟨h.of_tables hRegister.2 (h.isValid.register hFinite)
            (live.register_writes point), rfl⟩

theorem FollowsLedger.addFieldMetainfo_ok (h : FollowsLedger l s dir exact intact live saved a m)
    {field key : String} {value : MetaValue} {a' : Archive}
    (hOk : a.addFieldMetainfo field key value = .ok a') :
    ∃ i, FollowsLedger l s dir exact intact (live.setFieldMetainfo i key value) saved a' m ∧
      a'.dirty = true ∧ live.fields.findIdx? (fun f => f.name == field) = some i := by
  obtain ⟨arena, -, hMode⟩ := h.requireMode_eq_ok .addFieldMetainfo
  simp only [addFieldMetainfo, hMode, bind, Except.bind] at hOk
  split at hOk
  · cases hOk
  · next hCheck =>
      have hFinite := checkFiniteValue_eq_ok_iff.1 hCheck
      cases hAdd : a.tables.catalog.addMetainfo field key value with
      | error e => simp [hAdd] at hOk
      | ok catalog =>
          simp only [hAdd, pure, Except.pure, Except.ok.injEq] at hOk
          subst hOk
          obtain ⟨hCoherent, i, hIndex, hFields⟩ := h.tables.catalog.addMetainfo_ok hAdd
          have hList : a.tables.catalog.fields = live.fields := h.tables.fields
          exact ⟨i, h.of_tables (h.tables.setFieldMetainfo hCoherent hFields)
            (h.isValid.setFieldMetainfo i key hFinite) rfl, rfl, by rw [← hList, hIndex]⟩

end Archive
end FieldArchive

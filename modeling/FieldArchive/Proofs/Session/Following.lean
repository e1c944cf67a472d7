import FieldArchive.Proofs.Session.Accounting

/-!
# Sessions follow their log

`Session.FollowsLog` is the invariant of a session that is open for writing: its
archive follows a ledger that accounts for the log so far, and the answers in the
log are exact unless the file system failed.  Every request keeps it, whatever the
answer (`Session.FollowsLog.perform`), and so do any number of requests.
-/

namespace FieldArchive

/-- The outcome of a write that was not skipped. -/
def WriteOutcome.ofAppended (appended : Appended) : WriteOutcome :=
  if appended.deduplicated then .deduplicated appended.record else .stored appended.record

theorem WriteOutcome.record?_ofAppended (appended : Appended) :
    (ofAppended appended).record? = some appended.record := by
  unfold ofAppended
  split <;> rfl

/-- The counts of an archive with a ledger. -/
def Ledger.counts (live : Ledger) : Stats :=
  { fields := live.fields.length
    savepoints := live.savepoints.length
    entries := live.payloads.length
    uniqueRanges := (Packing.blocks live.payloads).length
    dataBytes := live.content.length }

namespace Session

variable {l : Layout} {s : Settings} {dir : NodeId} {exact : Prop} {live saved : Ledger}
  {session : Session} {m : Machine} {log : List Event} {point : Savepoint} {name : String}
  {bytes : List UInt8}

/-! ## Storing bytes -/

theorem append_eq (point : Savepoint) (name : String) (bytes : List UInt8) (session : Session)
    (m : Machine) :
    append point name bytes (session, m) =
      match Archive.append point name bytes (session.primary, m) with
      | .error e (a, m) => .error e ({ session with primary := a }, m)
      | .ok appended (a, m) =>
          if session.durability = .always then
            match Archive.flush (a, m) with
            | .error e (a, m) => .error e ({ session with primary := a }, m)
            | .ok _ (a, m) => .ok (.ofAppended appended) ({ session with primary := a }, m)
          else .ok (.ofAppended appended) ({ session with primary := a }, m) := by
  cases hAppend : Archive.append point name bytes (session.primary, m) with
  | error e state =>
      refine bind_of_error ?_
      simp only [onPrimary, hAppend]
  | ok appended state =>
      obtain ⟨a, m'⟩ := state
      have hFirst : onPrimary (Archive.append point name bytes) (session, m) =
          .ok appended ({ session with primary := a }, m') := by
        simp only [onPrimary, hAppend]
      unfold append
      rw [bind_of_ok hFirst, get_bind]
      dsimp only
      split
      · cases hFlush : Archive.flush (a, m') with
        | error e state =>
            refine bind_of_error ?_
            simp only [onPrimary, hFlush]
        | ok u state =>
            have hSecond : onPrimary Archive.flush ({ session with primary := a }, m') =
                .ok () ({ session with primary := state.1 }, state.2) := by
              simp only [onPrimary, hFlush]
            rw [bind_of_ok hSecond]
            rfl
      · rfl

theorem append_ok {outcome : WriteOutcome} {state : Session × Machine}
    (h : append point name bytes (session, m) = .ok outcome state) :
    ∃ r, outcome = .ofAppended r := by
  rw [append_eq] at h
  split at h
  · cases h
  · next r a m' hAppend =>
      refine ⟨r, ?_⟩
      split at h
      · split at h
        · cases h
        · cases h
          rfl
      · cases h
        rfl

/-- If the archive has stored the bytes, only the flush after them can fail. -/
theorem isIo_of_append_error {r : Appended} {stored : Archive × Machine} {e : Error}
    {state : Session × Machine}
    (hOk : Archive.append point name bytes (session.primary, m) = .ok r stored)
    (hError : append point name bytes (session, m) = .error e state) :
    e.isIo = true ∧ session.durability = .always := by
  obtain ⟨hMode, arena, hArena⟩ := Archive.open_of_append_ok hOk
  rw [append_eq, hOk] at hError
  dsimp only at hError
  split at hError
  · next hAlways =>
      split at hError
      · next hFlush =>
          cases hError
          exact ⟨Archive.isIo_of_flush_error hMode hArena hFlush, hAlways⟩
      · cases hError
  · cases hError

/-- How storing bytes can end in a session. -/
theorem append_cases {exact intact : Prop}
    (h : Archive.FollowsLedger l s dir exact intact live saved session.primary m)
    (hInjective : (∀ e state, append point name bytes (session, m) = .error e state →
        e.isIo = true ∧ session.durability = .always) →
      Set.InjOn (Checksum.compute s.checksum) {p | p ∈ live.payloads ++ [bytes]}) :
    (∃ e, append point name bytes (session, m) = .error e (session, m)) ∨
    (∃ e a' m' live' saved',
      append point name bytes (session, m) = .error (.io e) ({ session with primary := a' }, m') ∧
      Archive.FollowsLedger l s dir exact False live' saved' a' m' ∧
      m'.environment = m.environment ∧
      (live' = live.register point ∨
        live' = Archive.stored live point name bytes ∧ session.durability = .always)) ∨
    (∃ r a' m' saved',
      append point name bytes (session, m) =
        .ok (.ofAppended r) ({ session with primary := a' }, m') ∧
      Archive.FollowsLedger l s dir exact intact (Archive.stored live point name bytes) saved'
        a' m' ∧
      m'.environment = m.environment ∧
      r.record = (Archive.stored live point name bytes).recordOf s.checksum bytes ∧
      (r.deduplicated = true ↔ bytes ∈ live.payloads)) := by
  have hDigest : ∀ r state, Archive.append point name bytes (session.primary, m) = .ok r state →
      Set.InjOn (Checksum.compute s.checksum) {p | p ∈ live.payloads ++ [bytes]} :=
    fun r stored hOk => hInjective fun e state => isIo_of_append_error hOk
  rcases h.append_cases hDigest with ⟨e, hError, -⟩ | ⟨e, a', m', hError, hTo, hFollows⟩ |
    ⟨r, a', m', hOk, hTo, hFollows, hDirty, hRecord, hDeduplicated, -, -⟩
  · exact Or.inl ⟨e, by rw [append_eq, hError]⟩
  · exact Or.inr (Or.inl ⟨e, a', m', _, _, by rw [append_eq, hError], hFollows, hTo.1,
      Or.inl rfl⟩)
  · -- a durable write ends with the flush, which may fail before or after the renaming
    by_cases hAlways : session.durability = .always
    · rcases (hFollows.flush_ends hDirty).cases with ⟨e, m'', hFlush, hTo', hEnd⟩ |
        ⟨e, m'', hFlush, hTo', hEnd⟩ | ⟨a'', m'', hFlush, hTo', hEnd, -, -⟩
      · refine Or.inr (Or.inl ⟨e, a', m'', _, _, ?_, hEnd.weaken False.elim,
          hTo'.1.trans hTo.1, Or.inr ⟨rfl, hAlways⟩⟩)
        simp only [append_eq, hOk, hAlways, if_true, hFlush]
      · refine Or.inr (Or.inl ⟨e, a', m'', _, _, ?_, hEnd.weaken False.elim,
          hTo'.environment.trans hTo.1, Or.inr ⟨rfl, hAlways⟩⟩)
        simp only [append_eq, hOk, hAlways, if_true, hFlush]
      · refine Or.inr (Or.inr ⟨r, a'', m'', _, ?_, hEnd, hTo'.environment.trans hTo.1, hRecord,
          hDeduplicated⟩)
        simp only [append_eq, hOk, hAlways, if_true, hFlush]
    · refine Or.inr (Or.inr ⟨r, a', m', _, ?_, hFollows, hTo.1, hRecord, hDeduplicated⟩)
      simp only [append_eq, hOk, hAlways, if_false]

/-! ## Encoding -/

theorem prepareField_ok {info : FieldInfo} {buffer : Buffer}
    (h : session.prepareField name info buffer = .ok (some bytes)) :
    name = info.name ∧ session.codec.Encodes info buffer ∧
      bytes = Codec.payload session.codec.endianness buffer := by
  simp only [prepareField, require, bind, Except.bind] at h
  split at h
  · cases h
  · split at h
    · cases h
    · next hName =>
        split at h
        · split at h
          · cases h
          · next hEncode =>
              cases h
              obtain ⟨hEncodes, hBytes⟩ := Codec.encode_ok hEncode
              exact ⟨Decidable.of_not_not hName, hEncodes, hBytes⟩
        · cases h

theorem prepare_ok {buffer : Buffer} (h : session.prepare point name buffer = .ok (some bytes)) :
    ∃ info, session.primary.tables.catalog.find? name = some info ∧
      session.codec.Encodes info buffer ∧
      bytes = Codec.payload session.codec.endianness buffer := by
  simp only [prepare, require, bind, Except.bind] at h
  split at h
  · cases h
  · split at h
    · cases h
    · next info hFind =>
        split at h
        · split at h
          · cases h
          · next hEncode =>
              cases h
              exact ⟨info, hFind, Codec.encode_ok hEncode⟩
        · cases h

theorem writeField_eq (point : Savepoint) (name : String) (info : FieldInfo) (buffer : Buffer)
    (session : Session) (m : Machine) :
    writeField point name info buffer (session, m) =
      match session.prepareField name info buffer with
      | .error e => .error e (session, m)
      | .ok none => .ok .skipped (session, m)
      | .ok (some bytes) =>
          match session.primary.registerField info with
          | .error e => .error e (session, m)
          | .ok (_, a) => append point name bytes ({ session with primary := a }, m) := by
  unfold writeField
  rw [get_bind, Effect.ofExcept_bind]
  cases session.prepareField name info buffer with
  | error e => rfl
  | ok prepared =>
      cases prepared with
      | none => rfl
      | some bytes =>
          dsimp only
          rw [get_bind]
          dsimp only
          rw [Effect.ofExcept_bind]
          cases session.primary.registerField info with
          | error e => rfl
          | ok result => rfl

theorem write_eq (point : Savepoint) (name : String) (buffer : Buffer) (session : Session)
    (m : Machine) :
    write point name buffer (session, m) =
      match session.prepare point name buffer with
      | .error e => .error e (session, m)
      | .ok none => .ok .skipped (session, m)
      | .ok (some bytes) => append point name bytes (session, m) := by
  unfold write
  rw [get_bind, Effect.ofExcept_bind]
  cases session.prepare point name buffer with
  | error e => rfl
  | ok prepared =>
      cases prepared with
      | none => rfl
      | some bytes => rfl

/-! ## The invariant -/

/-- The payloads that a log may have stored. -/
def written (order : Endianness) (log : List Event) : Set (List UInt8) :=
  {p | ∃ x ∈ attempted log, p = x.payload order}

theorem written_append_left (order : Endianness) (log log' : List Event) :
    written order log ⊆ written order (log ++ log') := by
  rintro p ⟨x, hx, rfl⟩
  refine ⟨x, ?_, rfl⟩
  rw [attempted_append]
  exact List.mem_append_left _ hx

/-- A session open for writing, after the requests of a log. -/
structure FollowsLog (l : Layout) (s : Settings) (dir : NodeId) (exact : Prop) (log : List Event)
    (live saved : Ledger) (session : Session) (m : Machine) : Prop where
  archive : Archive.FollowsLedger l s dir exact (IsIntact log) live saved session.primary m
  status : session.status = .openForWrite
  codec : session.codec = .ofSettings s
  reference : ∀ a, session.reference = some a → a.mode = .read
  accounts : live.Accounts s log
  answers : IsIntact log → IsExact s log

/-- What a request makes of a session that follows a log. -/
theorem FollowsLog.next (h : FollowsLog l s dir exact log live saved session m)
    {e : Event} {a' : Archive} {m' : Machine} {live' saved' : Ledger} (enabled : Bool)
    (hArchive : Archive.FollowsLedger l s dir exact (IsIntact (log ++ [e])) live' saved' a' m')
    (hAccounts : live'.Accounts s (log ++ [e]))
    (hExact : IsIntact (log ++ [e]) → e.IsExact s log) :
    FollowsLog l s dir exact (log ++ [e]) live' saved'
      { session with primary := a', enabled := enabled } m' := by
  refine ⟨hArchive, h.status, h.codec, h.reference, hAccounts, fun hIntact => ?_⟩
  exact (h.answers (isIntact_append.1 hIntact).1).concat (hExact hIntact)

/-- A request that stores nothing and counts nothing. -/
theorem FollowsLog.quiet (h : FollowsLog l s dir exact log live saved session m)
    {e : Event} {a' : Archive} {m' : Machine} {live' saved' : Ledger}
    (enabled : Bool)
    (hArchive : Archive.FollowsLedger l s dir exact (IsIntact log) live' saved' a' m')
    (hExtends : live.Extends live') (hWrites : live'.writes = live.writes)
    (hReported : e.reported? = none) (hCounted : ∀ counts, e.reply ≠ .counted counts) :
    FollowsLog l s dir exact (log ++ [e]) live' saved'
      { session with primary := a', enabled := enabled } m' :=
  h.next enabled (hArchive.weaken fun hIntact => (isIntact_append.1 hIntact).1)
    ((h.accounts.mono hExtends hWrites).next hReported)
    fun _ => Event.isExact_of_silent hReported hCounted

/-- A request that fails and leaves everything as it was. -/
theorem FollowsLog.unchanged (h : FollowsLog l s dir exact log live saved session m) {e : Event}
    (hReported : e.reported? = none) (hCounted : ∀ counts, e.reply ≠ .counted counts) :
    FollowsLog l s dir exact (log ++ [e]) live saved session m :=
  h.quiet session.enabled h.archive (.refl live) rfl hReported hCounted

/-- A session whose archive has changed between requests. -/
theorem FollowsLog.of_archive (h : FollowsLog l s dir exact log live saved session m) {a' : Archive}
    {live' : Ledger}
    (hArchive : Archive.FollowsLedger l s dir exact (IsIntact log) live' saved a' m)
    (hExtends : live.Extends live') (hWrites : live'.writes = live.writes) :
    FollowsLog l s dir exact log live' saved { session with primary := a' } m :=
  ⟨hArchive, h.status, h.codec, h.reference, h.accounts.mono hExtends hWrites, h.answers⟩

/-! ## Requests -/

/-- The invariant holds after a request, of the log with its answer, in the same
environment. -/
def ContinuesLog (l : Layout) (s : Settings) (dir : NodeId) (exact : Prop) (log : List Event)
    (request : Request) (session : Session) (m : Machine) : Prop :=
  ∃ live saved, FollowsLog l s dir exact
      (log ++ [⟨session.durability, request, (request.perform (session, m)).1⟩]) live saved
      (request.perform (session, m)).2.1 (request.perform (session, m)).2.2 ∧
    (request.perform (session, m)).2.2.environment = m.environment

theorem ContinuesLog.of_eq {request : Request} {reply : Reply} {session' : Session} {m' : Machine}
    (hPerform : request.perform (session, m) = (reply, session', m'))
    (hWorld : m'.environment = m.environment)
    (h : FollowsLog l s dir exact (log ++ [⟨session.durability, request, reply⟩]) live saved
      session' m') :
    ContinuesLog l s dir exact log request session m := by
  refine ⟨live, saved, ?_⟩
  rw [hPerform]
  exact ⟨h, hWorld⟩

/-- A request that changes the tables, or fails. -/
theorem FollowsLog.change (h : FollowsLog l s dir exact log live saved session m)
    {request : Request} (result : Except Error Archive)
    (hPerform : request.perform (session, m) =
      Reply.ofChange (result.map fun a => { session with primary := a }) (session, m))
    (hOk : ∀ a', result = .ok a' → ∃ live',
      Archive.FollowsLedger l s dir exact (IsIntact log) live' saved a' m ∧ live.Extends live' ∧
        live'.writes = live.writes) : ContinuesLog l s dir exact log request session m := by
  cases hResult : result with
  | error e =>
      rw [hResult] at hPerform
      exact .of_eq hPerform rfl (h.unchanged rfl fun _ hReply => by cases hReply)
  | ok a' =>
      rw [hResult] at hPerform
      obtain ⟨live', hArchive, hExtends, hWrites⟩ := hOk a' hResult
      exact .of_eq hPerform rfl (h.quiet session.enabled hArchive hExtends hWrites rfl
        fun _ hReply => by
        cases hReply)

theorem FollowsLog.registerSavepoint (h : FollowsLog l s dir exact log live saved session m)
    (point : Savepoint) : ContinuesLog l s dir exact log (.registerSavepoint point) session m := by
  refine h.change (session.primary.registerSavepoint point) ?_ ?_
  · simp only [Request.perform, Session.registerSavepoint, require, h.status, ne_eq,
      not_true_eq_false, if_false, bind, Except.bind]
    cases session.primary.registerSavepoint point <;> rfl
  · intro a' hOk
    rcases h.archive.registerSavepoint_ok hOk with ⟨hArchive, -⟩ | ⟨rfl, -⟩
    · exact ⟨_, hArchive, live.extends_register point, live.register_writes point⟩
    · exact ⟨live, h.archive, .refl live, rfl⟩

theorem FollowsLog.addMetainfo (h : FollowsLog l s dir exact log live saved session m)
    (key : String) (value : MetaValue) :
    ContinuesLog l s dir exact log (.addMetainfo key value) session m := by
  refine h.change (session.primary.addMetainfo key value) ?_ ?_
  · simp only [Request.perform, Session.addMetainfo, require, h.status, ne_eq,
      not_true_eq_false, if_false, bind, Except.bind]
    cases session.primary.addMetainfo key value <;> rfl
  · intro a' hOk
    obtain ⟨hArchive, -⟩ := h.archive.addMetainfo_ok hOk
    exact ⟨_, hArchive, .of_fields_eq (List.prefix_refl _) rfl, rfl⟩

theorem FollowsLog.addFieldMetainfo (h : FollowsLog l s dir exact log live saved session m)
    (field key : String) (value : MetaValue) :
    ContinuesLog l s dir exact log (.addFieldMetainfo field key value) session m := by
  refine h.change (session.primary.addFieldMetainfo field key value) ?_ ?_
  · simp only [Request.perform, Session.addFieldMetainfo, require, h.status, ne_eq,
      not_true_eq_false, if_false, bind, Except.bind]
    cases session.primary.addFieldMetainfo field key value <;> rfl
  · intro a' hOk
    obtain ⟨i, hArchive, -⟩ := h.archive.addFieldMetainfo_ok hOk
    exact ⟨_, hArchive, live.extends_setFieldMetainfo i key value, rfl⟩

/-- The archive after a field was registered, which may have been before. -/
theorem FollowsLog.archive_registerField (h : FollowsLog l s dir exact log live saved session m)
    {info : FieldInfo} (hBuilt : info.IsBuilt) {r : Registration} {a' : Archive}
    (hOk : session.primary.registerField info = .ok (r, a')) :
    ∃ live', Archive.FollowsLedger l s dir exact (IsIntact log) live' saved a' m ∧
      live.Extends live' ∧
      live'.writes = live.writes ∧
      ∃ registered ∈ live'.fields, registered.name = info.name ∧
        registered.agreesWith info = true := by
  obtain ⟨hCases, registered, hFind, hAgrees⟩ :=
    h.archive.registerField_ok (FieldInfo.isBuilt_iff.1 hBuilt) hOk
  rcases hCases with ⟨hArchive, -⟩ | rfl
  · obtain ⟨hMem, hName⟩ := hArchive.tables.find?_eq_some_iff.1 hFind
    exact ⟨_, hArchive, live.extends_addField info, rfl, registered, hMem, hName, hAgrees⟩
  · obtain ⟨hMem, hName⟩ := h.archive.tables.find?_eq_some_iff.1 hFind
    exact ⟨live, h.archive, .refl live, rfl, registered, hMem, hName, hAgrees⟩

theorem FollowsLog.registerField (h : FollowsLog l s dir exact log live saved session m)
    {info : FieldInfo} (hBuilt : info.IsBuilt) :
    ContinuesLog l s dir exact log (.registerField info) session m := by
  cases hResult : session.primary.registerField info with
  | error e =>
      have hPerform : (Request.registerField info).perform (session, m) =
          (.failed e, session, m) := by
        simp [Request.perform, Session.registerField, require, h.status, bind, Except.bind, hResult]
      exact .of_eq hPerform rfl (h.unchanged rfl fun _ hReply => by cases hReply)
  | ok result =>
      obtain ⟨r, a'⟩ := result
      have hPerform : (Request.registerField info).perform (session, m) =
          (.registered r, { session with primary := a' }, m) := by
        simp [Request.perform, Session.registerField, require, h.status, bind, Except.bind, hResult,
          pure, Except.pure]
      obtain ⟨live', hArchive, hExtends, hWrites, -⟩ := h.archive_registerField hBuilt hResult
      exact .of_eq hPerform rfl (h.quiet session.enabled hArchive hExtends hWrites rfl
        fun _ hReply => by
        cases hReply)

theorem FollowsLog.enable (h : FollowsLog l s dir exact log live saved session m) :
    ContinuesLog l s dir exact log .enable session m :=
  .of_eq rfl rfl (h.quiet true h.archive (.refl live) rfl rfl fun _ hReply => by cases hReply)

theorem FollowsLog.disable (h : FollowsLog l s dir exact log live saved session m) :
    ContinuesLog l s dir exact log .disable session m :=
  .of_eq rfl rfl (h.quiet false h.archive (.refl live) rfl rfl fun _ hReply => by cases hReply)

/-- A flush leaves the ledger in memory as it is. -/
theorem FollowsLog.flush (h : FollowsLog l s dir exact log live saved session m) :
    ContinuesLog l s dir exact log .flush session m := by
  have hFlush : Session.flush (session, m) = onPrimary Archive.flush (session, m) := by
    simp [Session.flush, requireOpen, h.status, get_bind, Effect.ofExcept_bind]
  have hOk : ∀ a' m', Archive.flush (session.primary, m) = .ok () (a', m') →
      Request.flush.perform (session, m) = (.done, { session with primary := a' }, m') := by
    intro a' m' hEnd
    simp only [Request.perform, Reply.ofAction, hFlush, onPrimary, hEnd]
  have hError : ∀ e a' m', Archive.flush (session.primary, m) = .error e (a', m') →
      Request.flush.perform (session, m) = (.failed e, { session with primary := a' }, m') := by
    intro e a' m' hEnd
    simp only [Request.perform, Reply.ofAction, hFlush, onPrimary, hEnd]
  cases hDirty : session.primary.dirty with
  | false =>
      have hSame := hOk _ _ (h.archive.flush_of_clean hDirty)
      exact .of_eq hSame rfl (h.unchanged rfl fun _ hReply => by cases hReply)
  | true =>
      rcases (h.archive.flush_ends hDirty).cases with ⟨e, m', hEnd, hTo, hArchive⟩ |
        ⟨e, m', hEnd, hTo, hArchive⟩ | ⟨a', m', hEnd, hTo, hArchive, -, -⟩
      · exact .of_eq (hError _ _ _ hEnd) hTo.1 (h.quiet session.enabled hArchive (.refl live) rfl
          rfl fun _ hReply => by cases hReply)
      · exact .of_eq (hError _ _ _ hEnd) hTo.environment (h.quiet session.enabled hArchive
          (.refl live) rfl rfl fun _ hReply => by cases hReply)
      · exact .of_eq (hOk _ _ hEnd) hTo.environment (h.quiet session.enabled hArchive (.refl live)
          rfl rfl fun _ hReply => by cases hReply)

/-- Counts are those of the ledger that the tables record. -/
theorem stats_of_records (hStatus : session.status ≠ .closed)
    (hTables : session.primary.tables.Records s live) (hValid : live.IsValid s.checksum)
    (hLength : session.primary.dataLength = live.content.length) :
    session.stats = .ok live.counts := by
  have hFields : session.primary.tables.catalog.fields = live.fields := hTables.fields
  have hSavepoints : session.primary.tables.offsets.savepoints = live.savepoints :=
    hTables.savepoints
  have hEntries : session.primary.tables.offsets.entries = live.entries s.checksum :=
    hTables.entries
  simp [stats, requireOpen, hStatus, Ledger.counts, Catalog.size, OffsetTable.size, hFields,
    hSavepoints, hEntries, hTables.uniqueRanges_eq hValid, hLength, Ledger.entries,
    Ledger.payloads, bind, Except.bind, pure, Except.pure]

/-- Counts are those of the log. -/
theorem FollowsLog.stats (h : FollowsLog l s dir exact log live saved session m) :
    ContinuesLog l s dir exact log .stats session m := by
  obtain ⟨arena, data, hArena, -, hLength, -⟩ := h.archive.arena
  have hData : session.primary.dataLength = live.content.length := by
    simp [Archive.dataLength, hArena, hLength]
  have hStatus : session.status ≠ .closed := by
    rw [h.status]
    simp
  have hStats := stats_of_records hStatus h.archive.tables h.archive.isValid hData
  have hPerform : Request.stats.perform (session, m) = (.counted live.counts, session, m) := by
    simp only [Request.perform, hStats]
  refine .of_eq hPerform rfl (h.next session.enabled (h.archive.weaken fun hIntact =>
    (isIntact_append.1 hIntact).1) (h.accounts.next rfl) fun hIntact => ?_)
  have hPayloads := h.accounts.payloads_eq (isIntact_append.1 hIntact).1
  refine ⟨?_, ?_, ?_⟩
  · intro x hx
    cases hx
  · intro x hx
    cases hx
  · rintro _ ⟨⟩
    have hCount : live.payloads.length = (reported log).length := by
      rw [hPayloads, payloads, List.length_map]
    rw [← hPayloads]
    exact ⟨hCount, rfl, rfl⟩

/-! ## Writes -/

theorem stores_stored {x : Snapshot} (hBytes : bytes = x.payload s.endianness)
    (hDescribed : ∃ info ∈ live.fields, info.name = x.field ∧
      (Codec.ofSettings s).Encodes info x.buffer) :
    (Archive.stored live x.point x.field bytes).Stores s
      ⟨live.numberOf x.point, x.field, bytes⟩ x := by
  obtain ⟨info, hInfo, hName, hEncodes⟩ := hDescribed
  refine ⟨live.getElem?_numberOf x.point, rfl, hBytes, info, ?_, hName, hEncodes⟩
  change info ∈ (live.register x.point).fields
  rw [Ledger.register_fields]
  exact hInfo

/-- A snapshot may have been stored if nothing but a flush after it can have failed. -/
theorem attempted_of_append {request : Request} {x : Snapshot}
    (hSnapshot : request.snapshot? = some x) {reply : Reply} {state : Session × Machine}
    (hReply : Reply.ofAction .wrote (append x.point x.field bytes) (session, m) = (reply, state))
    (hIo : ∀ e state', append x.point x.field bytes (session, m) = .error e state' →
      e.isIo = true ∧ session.durability = .always) :
    Event.attempted? ⟨session.durability, request, reply⟩ = some x := by
  unfold Reply.ofAction at hReply
  split at hReply
  · next outcome state' hOk =>
      obtain ⟨r, rfl⟩ := append_ok hOk
      cases hReply
      simp [Event.attempted?, Reply.record?, WriteOutcome.record?_ofAppended, hSnapshot]
  · next e state' hError =>
      obtain ⟨hFailed, hAlways⟩ := hIo e state' hError
      cases hReply
      simp [Event.attempted?, Reply.isIo, hFailed, hAlways, hSnapshot]

/-- The log accounts for all bytes that were stored, with those of a next write. -/
theorem FollowsLog.payloads_subset_written (h : FollowsLog l s dir exact log live saved session m)
    {e : Event} {x : Snapshot} (hAttempted : e.attempted? = some x)
    (hBytes : bytes = x.payload s.endianness) :
    {p | p ∈ live.payloads ++ [bytes]} ⊆ written s.endianness (log ++ [e]) := by
  intro p hp
  rcases List.mem_append.1 hp with hOld | hNew
  · exact written_append_left _ _ _ (h.accounts.mem_payloads hOld)
  · refine ⟨x, ?_, (List.mem_singleton.1 hNew).trans hBytes⟩
    rw [attempted_append]
    exact List.mem_append_right _ (by simp [attempted, hAttempted])

/-- The answer to a write is exact if the archive gave the record of its payload. -/
theorem Event.isExact_of_appended {e : Event} {x : Snapshot} {r : Appended}
    (hReply : e.reply = .wrote (.ofAppended r)) (hReported : e.reported? = some x)
    (hRecord : r.record = recordIn s (payloads s.endianness log ++ [x.payload s.endianness])
      (x.payload s.endianness))
    (hDeduplicated : r.deduplicated = true ↔
      x.payload s.endianness ∈ payloads s.endianness log) : e.IsExact s log where
  record x' hx' := by
    obtain rfl : x = x' := Option.some.inj (hReported.symm.trans hx')
    rw [hReply, ← hRecord]
    exact WriteOutcome.record?_ofAppended r
  deduplicated x' hx' := by
    obtain rfl : x = x' := Option.some.inj (hReported.symm.trans hx')
    have hSame : (Reply.wrote (.ofAppended r)).isDeduplicated = r.deduplicated := by
      unfold WriteOutcome.ofAppended Reply.isDeduplicated
      cases r.deduplicated <;> rfl
    rw [hReply, hSame, hDeduplicated]
  counted _ hCounts := by
    rw [hReply] at hCounts
    cases hCounts

/-- A session keeps the invariant when it stores the bytes of a snapshot. -/
theorem FollowsLog.store (h : FollowsLog l s dir exact log live saved session m) {request : Request}
    {x : Snapshot} (hSnapshot : request.snapshot? = some x)
    (hBytes : bytes = x.payload s.endianness)
    (hDescribed : ∃ info ∈ live.fields, info.name = x.field ∧
      (Codec.ofSettings s).Encodes info x.buffer) {reply : Reply}
      {session' : Session} {m' : Machine}
    (hReply : Reply.ofAction .wrote (append x.point x.field bytes) (session, m) =
      (reply, session', m'))
    (hDigest : Set.InjOn (Checksum.compute s.checksum)
      (written s.endianness (log ++ [⟨session.durability, request, reply⟩]))) :
    ∃ live' saved', FollowsLog l s dir exact (log ++ [⟨session.durability, request, reply⟩])
      live' saved'
        session' m' ∧
      m'.environment = m.environment := by
  have hInjective : (∀ e state, append x.point x.field bytes (session, m) = .error e state →
      e.isIo = true ∧ session.durability = .always) →
      Set.InjOn (Checksum.compute s.checksum) {p | p ∈ live.payloads ++ [bytes]} := fun hIo =>
    hDigest.mono (h.payloads_subset_written (attempted_of_append hSnapshot hReply hIo) hBytes)
  have hExtends : (live.register x.point).Extends (Archive.stored live x.point x.field bytes) :=
    .of_fields_eq (List.prefix_refl _) rfl
  have hWrites : (Archive.stored live x.point x.field bytes).writes =
      (live.register x.point).writes ++ [⟨live.numberOf x.point, x.field, bytes⟩] := rfl
  have hStores := stores_stored hBytes hDescribed
  have hGrown := h.accounts.mono (live.extends_register x.point) (live.register_writes x.point)
  rcases append_cases h.archive hInjective with ⟨e, hError⟩ |
    ⟨e, a', m₁, live', saved', hError, hArchive, hWorld, hLive⟩ |
    ⟨r, a', m₁, saved', hOk, hArchive, hWorld, hRecord, hDeduplicated⟩
  · -- refused before anything was done
    simp only [Reply.ofAction, hError] at hReply
    cases hReply
    exact ⟨live, saved, h.unchanged rfl (fun _ hCounts => by cases hCounts), rfl⟩
  · -- the file system failed: the log is not intact any more, and the snapshot is stored if
    -- it was the flush that failed
    simp only [Reply.ofAction, hError] at hReply
    cases hReply
    have hBroken : ¬ IsIntact (log ++ [⟨session.durability, request, .failed (.io e)⟩]) := by
      intro hIntact
      have hLast := isIntact_singleton.1 (isIntact_append.1 hIntact).2 rfl
      rw [hSnapshot] at hLast
      cases hLast
    refine ⟨live', saved', h.next session.enabled (hArchive.weaken hBroken) ?_ fun hIntact =>
      absurd hIntact hBroken, hWorld⟩
    rcases hLive with rfl | ⟨rfl, hAlways⟩
    · exact hGrown.next rfl
    · refine hGrown.store hExtends hWrites hStores ?_ (Or.inr rfl)
      simp [Event.attempted?, Reply.isIo, Error.isIo, hAlways, hSnapshot]
  · simp only [Reply.ofAction, hOk] at hReply
    cases hReply
    have hSome : (Reply.wrote (.ofAppended r)).record? = some r.record :=
      WriteOutcome.record?_ofAppended r
    have hReported : Event.reported? ⟨session.durability, request, .wrote (.ofAppended r)⟩ =
        some x := by
      simp [Event.reported?, hSome, hSnapshot]
    have hAttempted : Event.attempted? ⟨session.durability, request, .wrote (.ofAppended r)⟩ =
        some x := by
      simp [Event.attempted?, hSome, hSnapshot]
    refine ⟨_, saved', h.next session.enabled (hArchive.weaken fun hIntact =>
      (isIntact_append.1 hIntact).1) (hGrown.store hExtends hWrites hStores hAttempted
        (Or.inl hReported)) fun hIntact => ?_, hWorld⟩
    have hPayloads := h.accounts.payloads_eq (isIntact_append.1 hIntact).1
    refine Event.isExact_of_appended rfl hReported ?_ ?_
    · rw [hRecord, Ledger.recordOf, Archive.stored_payloads, hPayloads, hBytes]
      rfl
    · rw [hDeduplicated, hPayloads, hBytes]

theorem FollowsLog.writeField (h : FollowsLog l s dir exact log live saved session m)
    (point : Savepoint) (name : String) {info : FieldInfo} (hBuilt : info.IsBuilt) (buffer : Buffer)
    (hDigest : Set.InjOn (Checksum.compute s.checksum) (written s.endianness (log ++
      [⟨session.durability, .writeField point name info buffer,
        ((Request.writeField point name info buffer).perform (session, m)).1⟩]))) :
    ContinuesLog l s dir exact log (.writeField point name info buffer) session m := by
  have hPerform : (Request.writeField point name info buffer).perform (session, m) =
      Reply.ofAction .wrote (Session.writeField point name info buffer) (session, m) := rfl
  have hAct := writeField_eq point name info buffer session m
  cases hPrepare : session.prepareField name info buffer with
  | error e =>
      simp only [Reply.ofAction, hAct, hPrepare] at hPerform
      exact .of_eq hPerform rfl (h.unchanged rfl fun _ hReply => by cases hReply)
  | ok prepared =>
      cases prepared with
      | none =>
          simp only [Reply.ofAction, hAct, hPrepare] at hPerform
          exact .of_eq hPerform rfl (h.unchanged rfl fun _ hReply => by cases hReply)
      | some bytes =>
          obtain ⟨rfl, hEncodes, hBytes⟩ := prepareField_ok hPrepare
          rw [h.codec] at hEncodes hBytes
          cases hRegister : session.primary.registerField info with
          | error e =>
              simp only [Reply.ofAction, hAct, hPrepare, hRegister] at hPerform
              exact .of_eq hPerform rfl (h.unchanged rfl fun _ hReply => by cases hReply)
          | ok result =>
              obtain ⟨r, a'⟩ := result
              obtain ⟨live', hArchive, hExtends, hWrites, registered, hMem, hName, hAgrees⟩ :=
                h.archive_registerField hBuilt hRegister
              have hNext := h.of_archive hArchive hExtends hWrites
              refine hNext.store (x := ⟨point, info.name, buffer⟩) rfl hBytes
                ⟨registered, hMem, hName, hEncodes.congr hAgrees⟩ ?_ hDigest
              simp only [hPerform, Reply.ofAction, hAct, hPrepare, hRegister]

theorem FollowsLog.write (h : FollowsLog l s dir exact log live saved session m) (point : Savepoint)
    (name : String) (buffer : Buffer)
    (hDigest : Set.InjOn (Checksum.compute s.checksum) (written s.endianness (log ++
      [⟨session.durability, .write point name buffer,
        ((Request.write point name buffer).perform (session, m)).1⟩]))) :
    ContinuesLog l s dir exact log (.write point name buffer) session m := by
  have hPerform : (Request.write point name buffer).perform (session, m) =
      Reply.ofAction .wrote (Session.write point name buffer) (session, m) := rfl
  have hAct := write_eq point name buffer session m
  cases hPrepare : session.prepare point name buffer with
  | error e =>
      simp only [Reply.ofAction, hAct, hPrepare] at hPerform
      exact .of_eq hPerform rfl (h.unchanged rfl fun _ hReply => by cases hReply)
  | ok prepared =>
      cases prepared with
      | none =>
          simp only [Reply.ofAction, hAct, hPrepare] at hPerform
          exact .of_eq hPerform rfl (h.unchanged rfl fun _ hReply => by cases hReply)
      | some bytes =>
          obtain ⟨info, hFind, hEncodes, hBytes⟩ := prepare_ok hPrepare
          rw [h.codec] at hEncodes hBytes
          obtain ⟨hMem, hName⟩ := h.archive.tables.find?_eq_some_iff.1 hFind
          refine h.store (x := ⟨point, name, buffer⟩) rfl hBytes ⟨info, hMem, hName, hEncodes⟩ ?_
            hDigest
          simp only [hPerform, Reply.ofAction, hAct, hPrepare]

/-- Every request keeps the invariant. -/
theorem FollowsLog.perform (h : FollowsLog l s dir exact log live saved session m)
    {request : Request} (hBuilt : request.IsBuilt)
    (hDigest : Set.InjOn (Checksum.compute s.checksum) (written s.endianness
      (log ++ [⟨session.durability, request, (request.perform (session, m)).1⟩]))) :
    ContinuesLog l s dir exact log request session m := by
  cases request with
  | registerField info => exact h.registerField hBuilt
  | registerSavepoint point => exact h.registerSavepoint point
  | addMetainfo key value => exact h.addMetainfo key value
  | addFieldMetainfo field key value => exact h.addFieldMetainfo field key value
  | writeField point name info buffer => exact h.writeField point name hBuilt buffer hDigest
  | write point name buffer => exact h.write point name buffer hDigest
  | enable => exact h.enable
  | disable => exact h.disable
  | flush => exact h.flush
  | stats => exact h.stats

/-- So do any number of requests. -/
theorem FollowsLog.serve {requests : List Request} (hBuilt : ∀ r ∈ requests, r.IsBuilt)
    (h : FollowsLog l s dir exact log live saved session m)
    (hDigest : Set.InjOn (Checksum.compute s.checksum)
      (written s.endianness (log ++ (serve requests (session, m)).1))) :
    ∃ live' saved', FollowsLog l s dir exact (log ++ (serve requests (session, m)).1) live' saved'
        (serve requests (session, m)).2.1 (serve requests (session, m)).2.2 ∧
      (serve requests (session, m)).2.2.environment = m.environment := by
  induction requests generalizing session m log live saved with
  | nil =>
      refine ⟨live, saved, ?_⟩
      rw [Session.serve, List.append_nil]
      exact ⟨h, rfl⟩
  | cons request rest ih =>
      -- the log of the rest begins with the answer to the first request
      have hLog : log ++ (Session.serve (request :: rest) (session, m)).1 =
          (log ++ [⟨session.durability, request, (request.perform (session, m)).1⟩]) ++
            (Session.serve rest (request.perform (session, m)).2).1 := by
        rw [List.append_assoc]
        rfl
      rw [hLog] at hDigest ⊢
      have hFirst := hDigest.mono (written_append_left s.endianness _ _)
      obtain ⟨live', saved', hNext, hWorld⟩ := h.perform (hBuilt request List.mem_cons_self) hFirst
      obtain ⟨live'', saved'', hLast, hWorld'⟩ :=
        ih (fun r hr => hBuilt r (List.mem_cons_of_mem _ hr)) hNext hDigest
      exact ⟨live'', saved'', hLast, hWorld'.trans hWorld⟩

end Session
end FieldArchive

import FieldArchive.Proofs.Archive.Reopening
import FieldArchive.Proofs.Session.Following

/-!
# Archives between sessions

`Session.ArchiveAtRest` says what a disk holds when no session is open: an archive whose
ledger accounts for the log of all sessions so far.  Closing a session establishes
it, opening one again needs it, and so every run of sessions ends with it
(`Session.leavesLedger_of_runAll`), provided that documents give back the savepoints of
every session before the last as they were.  More is said if they give back all
metainfo as it was set.
-/

namespace FieldArchive

/-! ## Opening -/

theorem Arena.openRead_unchanged {path : String} {valid : Nat} {m m' : Machine} {arena : Arena}
    (h : openRead path valid m = .ok arena m') : m' = m := by
  unfold openRead at h
  rw [get_bind] at h
  cases hFind : m.disk.find path with
  | error e =>
      rw [hFind] at h
      cases e <;> cases h
  | ok file =>
      rw [hFind] at h
      dsimp only at h
      rw [get_bind] at h
      obtain ⟨_, m₁, hPhysical, h₁⟩ := bind_eq_ok h
      obtain ⟨-, rfl⟩ := Effect.ofExcept_ok hPhysical
      cases h₁
      rfl

/-- Opening for reading leaves the machine as it is. -/
theorem Archive.openForRead_unchanged {l : Layout} {m m' : Machine} {a : Archive}
    (h : openForRead l m = .ok a m') : m' = m ∧ a.mode = .read := by
  unfold openForRead at h
  rw [get_bind] at h
  obtain ⟨_, m₁, hCheck, h₁⟩ := bind_eq_ok h
  obtain ⟨-, rfl⟩ := Effect.ofExcept_ok hCheck
  rw [get_bind] at h₁
  obtain ⟨doc, m₂, hLoad, h₂⟩ := bind_eq_ok h₁
  obtain ⟨-, rfl⟩ := Effect.ofExcept_ok hLoad
  obtain ⟨tables, m₃, hTables, h₃⟩ := bind_eq_ok h₂
  obtain ⟨-, rfl⟩ := Effect.ofExcept_ok hTables
  obtain ⟨arena, m₄, hArena, h₄⟩ := bind_eq_ok h₃
  cases h₄
  exact ⟨Arena.openRead_unchanged hArena, rfl⟩

/-- Closing an archive that was read leaves the machine as it is. -/
theorem Archive.close_of_read {a : Archive} (hMode : a.mode = .read) (m : Machine) :
    ∃ a', close (a, m) = .ok () (a', m) := by
  by_cases hClosed : a.isClosed = true
  · exact ⟨a, by simp [close, hClosed]⟩
  · exact ⟨{ a with arena := none }, by simp [close, hClosed, flush, hMode]⟩

namespace Session

variable {l : Layout} {s : Settings} {dir : NodeId} {exact : Prop} {live saved : Ledger}
  {session : Session} {m m' : Machine} {log : List Event}

theorem openReference_ok {stem : Option String} {reference : Option Archive}
    (h : openReference l stem m = .ok reference m') :
    m' = m ∧ ∀ a, reference = some a → a.mode = .read := by
  cases stem with
  | none =>
      cases h
      exact ⟨rfl, fun a ha => by cases ha⟩
  | some stem =>
      simp only [openReference] at h
      split at h
      · cases h
      · obtain ⟨sibling, m₁, hSibling, h₁⟩ := bind_eq_ok h
        obtain ⟨-, rfl⟩ := Effect.ofExcept_ok hSibling
        obtain ⟨a, m₂, hOpen, h₂⟩ := bind_eq_ok h₁
        obtain ⟨rfl, hMode⟩ := Archive.openForRead_unchanged hOpen
        cases h₂
        refine ⟨rfl, fun a' ha' => ?_⟩
        cases ha'
        exact hMode

/-- The archive that a session is opened on. -/
def openPrimary (l : Layout) (settings : Settings) (sync : Bool) : Mode → Effect Archive
  | .write => Archive.openForWrite l settings sync
  | .read => Archive.openForRead l

/-- What opening a session did. -/
theorem openWith_ok {directory stem : String} {mode : Mode} {reference : Option String}
    {config : Config} (hLayout : Layout.make directory stem = .ok l)
    (h : openWith directory stem mode reference config m = .ok session m') :
    ∃ settings a other durability, config.settings = .ok settings ∧
      openReference l reference m = .ok other m ∧
      openPrimary l settings config.syncData mode m = .ok a m' ∧
      session = ofArchives a other durability := by
  unfold openWith at h
  obtain ⟨settings, m₁, hFirst, h₁⟩ := bind_eq_ok h
  obtain ⟨hSettings, rfl⟩ := Effect.ofExcept_ok hFirst
  obtain ⟨durability, m₂, hSecond, h₂⟩ := bind_eq_ok h₁
  obtain ⟨-, rfl⟩ := Effect.ofExcept_ok hSecond
  obtain ⟨l₁, m₃, hThird, h₃⟩ := bind_eq_ok h₂
  obtain ⟨hMade, rfl⟩ := Effect.ofExcept_ok hThird
  rw [hLayout] at hMade
  obtain rfl : l = l₁ := Except.ok.inj hMade
  obtain ⟨other, m₄, hReference, h₄⟩ := bind_eq_ok h₃
  obtain ⟨rfl, -⟩ := openReference_ok hReference
  cases mode with
  | write =>
      obtain ⟨a, m₅, hOpen, h₅⟩ := bind_eq_ok h₄
      cases h₅
      exact ⟨settings, a, other, durability, hSettings, hReference, hOpen, rfl⟩
  | read =>
      obtain ⟨a, m₅, hOpen, h₅⟩ := bind_eq_ok h₄
      cases h₅
      exact ⟨settings, a, other, durability, hSettings, hReference, hOpen, rfl⟩

/-- A configuration that is accepted has settings and a durability. -/
theorem exists_of_validate {config : Config} (h : config.validate = .ok ()) :
    ∃ settings durability, config.settings = .ok settings ∧
      config.durabilitySetting = .ok durability := by
  obtain ⟨settings, hSettings, h₁⟩ := except_bind_eq_ok_iff.1 h
  obtain ⟨durability, hDurability, -⟩ := except_bind_eq_ok_iff.1 h₁
  exact ⟨settings, durability, hSettings, hDurability⟩

/-- A session without a reference is opened as its archive is. -/
theorem openWith_eq {directory stem : String} {mode : Mode} {config : Config}
    {durability : Durability} (hLayout : Layout.make directory stem = .ok l)
    (hSettings : config.settings = .ok s) (hDurability : config.durabilitySetting = .ok durability)
    {a : Archive} (hOpen : openPrimary l s config.syncData mode m = .ok a m') :
    openWith directory stem mode none config m = .ok (ofArchives a none durability) m' := by
  have hMapped : (Layout.make directory stem).mapError Error.invalidArgument = .ok l := by
    rw [hLayout]
    rfl
  unfold openWith
  rw [hSettings, Effect.ofExcept_bind]
  dsimp only
  rw [hDurability, Effect.ofExcept_bind]
  dsimp only
  rw [hMapped, Effect.ofExcept_bind]
  cases mode with
  | write =>
      have hPrimary : Archive.openForWrite l s config.syncData m = .ok a m' := hOpen
      change (Archive.openForWrite l s config.syncData >>= fun primary =>
        pure (ofArchives primary none durability)) m = _
      rw [bind_of_ok hPrimary]
      rfl
  | read =>
      have hPrimary : Archive.openForRead l m = .ok a m' := hOpen
      change (Archive.openForRead l >>= fun primary =>
        pure (ofArchives primary none durability)) m = _
      rw [bind_of_ok hPrimary]
      rfl

/-- A session for reading is opened as its archive is. -/
theorem openWith_read_eq {directory stem : String} {config : Config}
    (hLayout : Layout.make directory stem = .ok l) (hConfig : config.validate = .ok ())
    {a : Archive} (hOpen : Archive.openForRead l m = .ok a m') :
    ∃ durability, openWith directory stem .read none config m =
      .ok (ofArchives a none durability) m' := by
  obtain ⟨settings, durability, hSettings, hDurability⟩ := exists_of_validate hConfig
  exact ⟨durability, openWith_eq hLayout hSettings hDurability hOpen⟩

/-! ## Closing -/

/-- What a disk holds of an archive on which no session is open. -/
structure ArchiveAtRest (l : Layout) (s : Settings) (dir : NodeId) (log : List Event)
    (saved : Ledger) (d : Disk) : Prop where
  usable : l.IsUsable
  keeps : ∃ file data, d.KeepsLedger l s dir saved file data ∧ (IsIntact log → data = saved.content)
  accounts : saved.Accounts s log
  answers : IsIntact log → IsExact s log

/-- Closing the reference leaves the machine and the primary archive as they are. -/
theorem closeReference_ok (served : Session)
    (hReference : ∀ a, served.reference = some a → a.mode = .read) (m : Machine) :
    ∃ session', closeReference (served, m) = .ok () (session', m) ∧
      session'.primary = served.primary := by
  cases hOther : served.reference with
  | none => exact ⟨served, by simp only [closeReference, hOther], rfl⟩
  | some other =>
      obtain ⟨other', hClose⟩ := Archive.close_of_read (hReference other hOther) m
      exact ⟨{ served with reference := some other' },
        by simp only [closeReference, hOther, hClose], rfl⟩

/-- Closing a session closes its archive and leaves the machine so. -/
theorem close_eq_ok (hStatus : session.status = .openForWrite)
    (hReference : ∀ a, session.reference = some a → a.mode = .read) {session' : Session}
    (h : close (session, m) = .ok () (session', m')) :
    ∃ a', Archive.close (session.primary, m) = .ok () (a', m') ∧ session'.primary = a' := by
  simp only [close, hStatus, reduceCtorEq, if_false, onPrimary] at h
  cases hPrimary : Archive.close (session.primary, m) with
  | error e state =>
      simp only [hPrimary] at h
      split at h
      · cases h
      · cases h
  | ok u state =>
      obtain ⟨a', m₁⟩ := state
      simp only [hPrimary] at h
      obtain ⟨closed, hClose, hSame⟩ :=
        closeReference_ok { session with status := .closed, primary := a' } hReference m₁
      rw [hClose] at h
      cases h
      exact ⟨a', rfl, hSame⟩

theorem FollowsLog.close_ok (h : FollowsLog l s dir exact log live saved session m)
    {session' : Session} (hOk : close (session, m) = .ok () (session', m')) :
    ∃ kept, ArchiveAtRest l s dir log kept m'.disk ∧ kept.Covers exact live ∧
      (exact → IsIntact log → kept = live) ∧ session'.primary.tables.Records s live := by
  obtain ⟨a', hClose, hPrimary⟩ := close_eq_ok h.status h.reference hOk
  obtain ⟨kept, hCovers, hSame, hTables, file, data, hKeeps, hData⟩ := h.archive.close_ok hClose
  refine ⟨kept, ⟨h.archive.usable, ⟨file, data, hKeeps, ?_⟩, ?_, h.answers⟩, hCovers, hSame, ?_⟩
  · intro hIntact
    rw [hCovers.content_eq]
    exact hData hIntact
  · exact h.accounts.of_covers hCovers hKeeps.isValid
  · rw [hPrimary, hTables]
    exact h.archive.tables

/-! ## Runs -/

theorem followsLog_ofArchives {a : Archive} {other : Option Archive} (durability : Durability)
    (hArchive : Archive.FollowsLedger l s dir exact True live saved a m)
    (hOther : ∀ a, other = some a → a.mode = .read) (hAccounts : live.Accounts s log)
    (hExact : IsIntact log → IsExact s log) :
    FollowsLog l s dir exact log live saved (ofArchives a other durability) m where
  archive := hArchive.weaken fun _ => trivial
  status := by
    change a.mode.status = .openForWrite
    rw [hArchive.mode]
    rfl
  codec := by
    change Codec.ofSettings a.settings = .ofSettings s
    rw [hArchive.settings]
  reference := hOther
  accounts := hAccounts
  answers := hExact

/-- What a session leaves that was closed, compared with a log.  Unless `exact` holds, the
metainfo of the archive and of its fields may differ from what was set. -/
def LeavesLedger (l : Layout) (s : Settings) (dir : NodeId) (exact : Prop) (log : List Event)
    (v : Visited) : Prop :=
  ∃ live kept, ArchiveAtRest l s dir log kept v.machine.disk ∧ kept.Covers exact live ∧
    (exact → IsIntact log → kept = live) ∧ v.session.primary.tables.Records s live

variable {directory stem : String} {visit : Visit} {v : Visited}

theorem Visit.run_eq_some (h : visit.run directory stem m = some v) :
    ∃ session m₁, openWith directory stem .write visit.reference visit.config m =
        .ok session m₁ ∧
      v.events = (serve visit.requests (session, m₁)).1 ∧
      close (serve visit.requests (session, m₁)).2 = .ok () (v.session, v.machine) := by
  unfold Visit.run at h
  split at h
  · cases h
  · next session m₁ hOpen =>
      dsimp only at h
      split at h
      · cases h
      · next hClose =>
          cases h
          exact ⟨session, m₁, hOpen, rfl, hClose⟩

/-- A session that follows a log leaves the log with its requests. -/
theorem FollowsLog.leavesLedger {m₁ : Machine}
    (h : FollowsLog l s dir exact log live saved session m₁)
    (hBuilt : ∀ r ∈ visit.requests, r.IsBuilt)
    (hEvents : v.events = (Session.serve visit.requests (session, m₁)).1)
    (hClose : Session.close (Session.serve visit.requests (session, m₁)).2 =
      .ok () (v.session, v.machine))
    (hDigest : Set.InjOn (Checksum.compute s.checksum) (written s.endianness (log ++ v.events))) :
    LeavesLedger l s dir exact (log ++ v.events) v := by
  rw [hEvents] at hDigest ⊢
  obtain ⟨live', saved', hFollows, -⟩ := h.serve hBuilt hDigest
  obtain ⟨kept, hRests, hCovers, hSame, hTables⟩ := hFollows.close_ok hClose
  exact ⟨live', kept, hRests, hCovers, hSame, hTables⟩

/-- The first session of an archive. -/
theorem Visit.leavesLedger_of_isVacant (hSettings : visit.config.settings = .ok s)
    (hLayout : Layout.make directory stem = .ok l) (hWell : m.disk.WellFormed)
    (hVacant : l.IsVacant m) (hBuilt : ∀ r ∈ visit.requests, r.IsBuilt)
    (hRun : visit.run directory stem m = some v)
    (hDigest : Set.InjOn (Checksum.compute s.checksum) (written s.endianness v.events)) :
    ∃ dir, LeavesLedger l s dir exact v.events v := by
  obtain ⟨session, m₁, hOpen, hEvents, hClose⟩ := Visit.run_eq_some hRun
  obtain ⟨settings, a, other, durability, hSame, hReference, hArchive, rfl⟩ :=
    openWith_ok hLayout hOpen
  obtain ⟨-, hOther⟩ := openReference_ok hReference
  obtain rfl : s = settings := Except.ok.inj (hSettings.symm.trans hSame)
  obtain ⟨dir, hFollows, -, -⟩ :=
    Archive.openForWrite_of_isVacant (Layout.hasPlainNames_of_make hLayout) hWell hVacant hArchive
  have hArchive' : Archive.FollowsLedger l s dir exact True .empty .empty a m₁ :=
    hFollows.mono (fun _ => trivial) fun h => h
  have hSession := followsLog_ofArchives durability hArchive' hOther (Ledger.accounts_empty s)
    fun _ => isExact_nil s
  exact ⟨dir, hSession.leavesLedger hBuilt hEvents hClose hDigest⟩

/-- A ledger accounts for a log if documents give it back for one that does. -/
theorem accounts_of_rereads {again : Ledger} (h : saved.Accounts s log)
    (hRereads : saved.Rereads again) (hPoints : ∀ p ∈ saved.savepoints, p.readsBack = true) :
    again.Accounts s log := by
  refine h.mono ⟨?_, hRereads.describes⟩ hRereads.writes
  rw [hRereads.savepoints_eq hPoints]

/-- A later session of an archive. -/
theorem ArchiveAtRest.leavesLedger (h : ArchiveAtRest l s dir log saved m.disk)
    (hReads : saved.ReadsBackAs exact) (hLayout : Layout.make directory stem = .ok l)
    (hBuilt : ∀ r ∈ visit.requests, r.IsBuilt)
    (hRun : visit.run directory stem m = some v)
    (hDigest : Set.InjOn (Checksum.compute s.checksum) (written s.endianness (log ++ v.events))) :
    LeavesLedger l s dir exact (log ++ v.events) v := by
  obtain ⟨session, m₁, hOpen, hEvents, hClose⟩ := Visit.run_eq_some hRun
  obtain ⟨settings, a, other, durability, -, hReference, hArchive, rfl⟩ :=
    openWith_ok hLayout hOpen
  obtain ⟨-, hOther⟩ := openReference_ok hReference
  obtain ⟨file, data, hKeeps, -⟩ := h.keeps
  obtain ⟨again, hRereads, -⟩ := hKeeps.isValid.finite.exists_rereads
  -- with other settings the session would not have been opened
  rcases Archive.openForWrite_of_rereads h.usable hKeeps hRereads hReads.savepoints settings
    visit.config.syncData with ⟨e, m', hError, -⟩ | ⟨a', m', -, hOk, -, hFollows, -⟩
  · cases hError.symm.trans hArchive
  · cases hOk.symm.trans hArchive
    have hExact : exact → again = saved := fun hExact =>
      hRereads.unique (Ledger.rereads_self (hReads.all hExact))
    have hSession := followsLog_ofArchives durability (hFollows.mono hExact fun h => h) hOther
      (accounts_of_rereads h.accounts hRereads hReads.savepoints) h.answers
    exact hSession.leavesLedger hBuilt hEvents hClose hDigest

theorem readsBack_of_covers {kept : Ledger} (h : kept.Covers exact live) (hExact : exact)
    (hReads : live.readsBack = true) : kept.readsBack = true := by
  rw [Ledger.readsBack_iff] at hReads ⊢
  rw [h.metainfo hExact, h.fields hExact]
  exact ⟨hReads.1, hReads.2.1, fun point hPoint => hReads.2.2 point (h.savepoints.subset hPoint)⟩

/-- Metainfo that reads back for the tables of a session reads back for its disk. -/
theorem LeavesLedger.archiveAtRest (h : LeavesLedger l s dir exact log v)
    (hReads : v.session.primary.tables.ReadsBackAs exact) :
    ∃ kept, ArchiveAtRest l s dir log kept v.machine.disk ∧ kept.ReadsBackAs exact := by
  obtain ⟨live, kept, hRests, hCovers, -, hTables⟩ := h
  have hPoints : v.session.primary.tables.offsets.savepoints = live.savepoints :=
    hTables.savepoints
  refine ⟨kept, hRests, fun p hp => ?_, fun hExact => ?_⟩
  · exact hReads.savepoints p (by rw [hPoints]; exact hCovers.savepoints.subset hp)
  · exact readsBack_of_covers hCovers hExact (hTables.readsBack_eq ▸ hReads.all hExact)

theorem runAll_eq_cons {visits : List Visit} {others : List Visited}
    (h : runAll directory stem visits m = some (v :: others)) :
    ∃ visit rest, visits = visit :: rest ∧ visit.run directory stem m = some v ∧
      runAll directory stem rest v.machine = some others := by
  cases visits with
  | nil => cases h
  | cons visit rest =>
      simp only [runAll, bind, Option.bind_eq_some_iff, pure, Option.some.injEq] at h
      obtain ⟨v', hFirst, others', hRest, hSame⟩ := h
      cases hSame
      exact ⟨visit, rest, rfl, hFirst, hRest⟩

@[simp] theorem logOf_singleton (v : Visited) : logOf [v] = v.events := by simp [logOf]

theorem logOf_cons (v : Visited) (others : List Visited) :
    logOf (v :: others) = v.events ++ logOf others := List.flatMap_cons

/-- What the last of some sessions leaves that begin on an archive that rests. -/
theorem ArchiveAtRest.leavesLedger_last {visits : List Visit} {before : List Visited}
    (hLayout : Layout.make directory stem = .ok l) (h : ArchiveAtRest l s dir log saved m.disk)
    (hReads : saved.ReadsBackAs exact)
    (hBuilt : ∀ visit ∈ visits, ∀ r ∈ visit.requests, r.IsBuilt)
    (hRun : runAll directory stem visits m = some (before ++ [v]))
    (hKept : ∀ u ∈ before, u.session.primary.tables.ReadsBackAs exact)
    (hDigest : Set.InjOn (Checksum.compute s.checksum)
      (written s.endianness (log ++ logOf (before ++ [v])))) :
    LeavesLedger l s dir exact (log ++ logOf (before ++ [v])) v := by
  induction before generalizing log saved m visits with
  | nil =>
      obtain ⟨visit, rest, rfl, hFirst, -⟩ := runAll_eq_cons hRun
      rw [List.nil_append, logOf_singleton] at hDigest ⊢
      exact h.leavesLedger hReads hLayout (hBuilt visit List.mem_cons_self) hFirst hDigest
  | cons u before ih =>
      obtain ⟨visit, rest, rfl, hFirst, hOthers⟩ := runAll_eq_cons hRun
      have hLog : log ++ logOf (u :: before ++ [v]) =
          (log ++ u.events) ++ logOf (before ++ [v]) := by
        rw [List.cons_append, logOf_cons, List.append_assoc]
      rw [hLog] at hDigest ⊢
      have hLeaves := h.leavesLedger hReads hLayout (hBuilt visit List.mem_cons_self) hFirst
        (hDigest.mono (written_append_left s.endianness _ _))
      obtain ⟨kept, hRests, hKeptReads⟩ := hLeaves.archiveAtRest (hKept u List.mem_cons_self)
      exact ih hRests hKeptReads (fun visit hVisit => hBuilt visit (List.mem_cons_of_mem _ hVisit))
        hOthers (fun u hu => hKept u (List.mem_cons_of_mem _ hu)) hDigest

/-- What the last session of a run leaves that creates an archive. -/
theorem leavesLedger_of_runAll {first : Visit} {later : List Visit} {before : List Visited}
    (hSettings : first.config.settings = .ok s) (hLayout : Layout.make directory stem = .ok l)
    (hWell : m.disk.WellFormed) (hVacant : l.IsVacant m)
    (hBuilt : ∀ visit ∈ first :: later, ∀ r ∈ visit.requests, r.IsBuilt)
    (hRun : runAll directory stem (first :: later) m = some (before ++ [v]))
    (hKept : ∀ u ∈ before, u.session.primary.tables.ReadsBackAs exact)
    (hDigest : Set.InjOn (Checksum.compute s.checksum)
      (written s.endianness (logOf (before ++ [v])))) :
    ∃ dir, LeavesLedger l s dir exact (logOf (before ++ [v])) v := by
  cases before with
  | nil =>
      obtain ⟨visit, rest, hVisits, hFirst, -⟩ := runAll_eq_cons hRun
      cases hVisits
      rw [List.nil_append, logOf_singleton] at hDigest ⊢
      exact Visit.leavesLedger_of_isVacant hSettings hLayout hWell hVacant
        (hBuilt first List.mem_cons_self) hFirst hDigest
  | cons u before =>
      obtain ⟨visit, rest, hVisits, hFirst, hOthers⟩ := runAll_eq_cons hRun
      cases hVisits
      rw [List.cons_append, logOf_cons] at hDigest ⊢
      obtain ⟨dir, hLeaves⟩ := Visit.leavesLedger_of_isVacant hSettings hLayout hWell hVacant
        (hBuilt first List.mem_cons_self) hFirst
        (hDigest.mono (written_append_left s.endianness _ _))
      obtain ⟨kept, hRests, hReads⟩ := hLeaves.archiveAtRest (hKept u List.mem_cons_self)
      exact ⟨dir, hRests.leavesLedger_last hLayout hReads
        (fun visit hVisit => hBuilt visit (List.mem_cons_of_mem _ hVisit)) hOthers
        (fun u hu => hKept u (List.mem_cons_of_mem _ hu)) hDigest⟩

theorem machineAfter_concat (m : Machine) (before : List Visited) (v : Visited) :
    machineAfter m (before ++ [v]) = v.machine := by simp [machineAfter]

/-- A run that creates an archive leaves it resting. -/
theorem archiveAtRest_of_runAll {first : Visit} {later : List Visit} {visited : List Visited}
    (hSettings : first.config.settings = .ok s) (hLayout : Layout.make directory stem = .ok l)
    (hWell : m.disk.WellFormed) (hVacant : l.IsVacant m)
    (hBuilt : ∀ visit ∈ first :: later, ∀ r ∈ visit.requests, r.IsBuilt)
    (hRun : runAll directory stem (first :: later) m = some visited)
    (hKept : ∀ v ∈ visited, v.session.primary.tables.readsBack = true)
    (hDigest : Set.InjOn (Checksum.compute s.checksum) (written s.endianness (logOf visited))) :
    ∃ dir kept, ArchiveAtRest l s dir (logOf visited) kept (machineAfter m visited).disk ∧
      kept.readsBack = true := by
  rcases List.eq_nil_or_concat' visited with rfl | ⟨before, v, rfl⟩
  · simp only [runAll, bind, Option.bind_eq_some_iff] at hRun
    obtain ⟨v, -, others, -, hNone⟩ := hRun
    cases hNone
  · have hAll : ∀ u ∈ before ++ [v], u.session.primary.tables.ReadsBackAs True := fun u hu =>
      Tables.readsBackAs (hKept u hu)
    obtain ⟨dir, hLeaves⟩ := leavesLedger_of_runAll hSettings hLayout hWell hVacant hBuilt hRun
      (fun u hu => hAll u (List.mem_append_left _ hu)) hDigest
    obtain ⟨kept, hRests, hReads⟩ := hLeaves.archiveAtRest (hAll v (by simp))
    rw [machineAfter_concat]
    exact ⟨dir, kept, hRests, hReads.all trivial⟩

end Session
end FieldArchive

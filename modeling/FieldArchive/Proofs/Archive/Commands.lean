import FieldArchive.Proofs.Archive.Reading
import FieldArchive.Proofs.Archive.Reopening
import FieldArchive.Proofs.Session.Following

/-!
# Runs of an archive

A run gives commands to an archive that is open for writing, one after the other:
to change its tables, to store bytes, to flush, to close, and to drop it and open
it again.  Commands may fail, and a failed call may leave part of a write behind.
`Archive.LedgerRunState` is the invariant: the disk keeps a ledger, and the archive is
closed or follows a ledger that begins with that one.  Each command keeps it
(`Archive.LedgerRunState.perform`), and the disk keeps the old ledger until the metadata
file is renamed and the ledger of the tables from then on (`Machine.Advances`).
-/

namespace FieldArchive

namespace Archive

/-- Bytes to be stored under a key. -/
structure Blob where
  point : Savepoint
  field : String
  bytes : List UInt8

/-- What is asked of an archive. -/
inductive Command where
  | registerField (info : FieldInfo)
  | registerSavepoint (point : Savepoint)
  | addMetainfo (key : String) (value : MetaValue)
  | addFieldMetainfo (field key : String) (value : MetaValue)
  /-- Store bytes, and flush if every write is to be durable. -/
  | store (durability : Durability) (blob : Blob)
  | flush
  | close
  /-- Drop the archive as it is, and open it again. -/
  | reopen (settings : Settings) (sync : Bool)

/-- Descriptions in a command come from the constructor. -/
def Command.IsBuilt : Command → Prop
  | .registerField info => info.IsBuilt
  | _ => True

/-- What a command leaves. -/
structure Outcome where
  /-- The bytes that the tables have an entry for since. -/
  stored : Option Blob
  error : Option Error
  archive : Archive
  machine : Machine

namespace Outcome

/-- The outcome of a command that changes the tables alone. -/
def ofTables (a : Archive) (m : Machine) : Except Error Archive → Outcome
  | .ok a' => ⟨none, none, a', m⟩
  | .error e => ⟨none, some e, a, m⟩

/-- The outcome of a command that acts on the machine. -/
def ofResult {α : Type} (stored : Option Blob) :
    EStateM.Result Error (Archive × Machine) α → Outcome
  | .ok _ (a, m) => ⟨stored, none, a, m⟩
  | .error e (a, m) => ⟨stored, some e, a, m⟩

end Outcome

/-- Follow a command.  An archive that cannot be opened again is closed. -/
def Command.perform (command : Command) (a : Archive) (m : Machine) : Outcome :=
  match command with
  | .registerField info => .ofTables a m ((a.registerField info).map Prod.snd)
  | .registerSavepoint point => .ofTables a m (a.registerSavepoint point)
  | .addMetainfo key value => .ofTables a m (a.addMetainfo key value)
  | .addFieldMetainfo field key value => .ofTables a m (a.addFieldMetainfo field key value)
  | .store durability blob =>
      match append blob.point blob.field blob.bytes (a, m) with
      | .error e (a, m) => ⟨none, some e, a, m⟩
      | .ok _ (a, m) =>
          if durability = .always then .ofResult (some blob) (Archive.flush (a, m))
          else ⟨some blob, none, a, m⟩
  | .flush => .ofResult none (Archive.flush (a, m))
  | .close => .ofResult none (Archive.close (a, m))
  | .reopen settings sync =>
      match openForWrite a.layout settings sync m with
      | .ok a' m' => ⟨none, none, a', m'⟩
      | .error e m' => ⟨none, some e, { a with arena := none }, m'⟩

/-- A session stores bytes as the command does that has its durability. -/
theorem Command.append_eq_perform (session : Session) (m : Machine) (blob : Blob) :
    let o := (Command.store session.durability blob).perform session.primary m
    (∀ e, o.error = some e → Session.append blob.point blob.field blob.bytes (session, m) =
      .error e ({ session with primary := o.archive }, o.machine)) ∧
    (o.error = none → ∃ outcome, Session.append blob.point blob.field blob.bytes (session, m) =
      .ok outcome ({ session with primary := o.archive }, o.machine)) := by
  intro o
  rw [Session.append_eq]
  simp only [o, perform]
  cases append blob.point blob.field blob.bytes (session.primary, m) with
  | error e state =>
      constructor
      · rintro e' ⟨⟩
        rfl
      · rintro ⟨⟩
  | ok appended state =>
      obtain ⟨a, m'⟩ := state
      -- the flush is made in both, or in neither
      by_cases hAlways : session.durability = .always
      · simp only [hAlways, if_true]
        cases Archive.flush (a, m') with
        | error e state =>
            constructor
            · rintro e' ⟨⟩
              rfl
            · rintro ⟨⟩
        | ok u state =>
            constructor
            · rintro e' ⟨⟩
            · intro _
              exact ⟨_, rfl⟩
      · simp only [hAlways, if_false]
        constructor
        · rintro e' ⟨⟩
        · intro _
          exact ⟨_, rfl⟩

end Archive

/-! ## Ledgers of blobs -/

namespace Ledger

/-- A stored snapshot has the key and the bytes of a blob. -/
structure IsOf (l : Ledger) (w : Write) (b : Archive.Blob) : Prop where
  isAt : l.IsAt w b.point
  field : w.field = b.field
  payload : w.payload = b.bytes

/-- Every stored snapshot is one of some blobs. -/
def MadeOf (blobs : List Archive.Blob) (l : Ledger) : Prop :=
  ∀ w ∈ l.writes, ∃ b ∈ blobs, l.IsOf w b

/-- The second ledger continues the first. -/
structure Below (l l' : Ledger) : Prop where
  savepoints : l.savepoints <+: l'.savepoints
  writes : l.writes <+: l'.writes

variable {l l' l'' : Ledger} {w : Write} {b : Archive.Blob} {blobs : List Archive.Blob}

theorem Below.refl (l : Ledger) : l.Below l := ⟨List.prefix_refl _, List.prefix_refl _⟩

theorem Below.trans (h : l.Below l') (h' : l'.Below l'') : l.Below l'' :=
  ⟨h.savepoints.trans h'.savepoints, h.writes.trans h'.writes⟩

theorem below_register (l : Ledger) (point : Savepoint) : l.Below (l.register point) := by
  refine ⟨l.savepoints_isPrefix_register point, ?_⟩
  rw [register_writes]

theorem below_stored (l : Ledger) (b : Archive.Blob) :
    l.Below (Archive.stored l b.point b.field b.bytes) := by
  refine (l.below_register b.point).trans ⟨List.prefix_refl _, ?_⟩
  exact List.prefix_append _ _

theorem Below.isOf (h : l.Below l') (hOf : l.IsOf w b) : l'.IsOf w b :=
  ⟨hOf.isAt.mono h.savepoints, hOf.field, hOf.payload⟩

theorem MadeOf.mono {more : List Archive.Blob} (h : l.MadeOf blobs) (hMore : blobs ⊆ more) :
    l.MadeOf more := by
  intro w hw
  obtain ⟨b, hb, hOf⟩ := h w hw
  exact ⟨b, hMore hb, hOf⟩

/-- A ledger that continues another without storing anything. -/
theorem MadeOf.of_below (h : l.MadeOf blobs) (hBelow : l.Below l')
    (hWrites : l'.writes = l.writes) : l'.MadeOf blobs := by
  intro w hw
  rw [hWrites] at hw
  obtain ⟨b, hb, hOf⟩ := h w hw
  exact ⟨b, hb, hBelow.isOf hOf⟩

/-- A ledger that another continues. -/
theorem MadeOf.of_above {algorithm : ChecksumAlgorithm} (h : l'.MadeOf blobs)
    (hBelow : l.Below l') (hValid : l.IsValid algorithm) : l.MadeOf blobs := by
  intro w hw
  obtain ⟨b, hb, hOf⟩ := h w (hBelow.writes.subset hw)
  have hAt := hOf.isAt.of_prefix hBelow.savepoints (hValid.savepoint_lt w hw)
  exact ⟨b, hb, hAt, hOf.field, hOf.payload⟩

theorem isOf_stored (l : Ledger) (b : Archive.Blob) :
    (Archive.stored l b.point b.field b.bytes).IsOf ⟨l.numberOf b.point, b.field, b.bytes⟩ b :=
  ⟨l.getElem?_numberOf b.point, rfl, rfl⟩

theorem mem_writes_stored {point : Savepoint} {field : String} {bytes : List UInt8}
    (hw : w ∈ (Archive.stored l point field bytes).writes) :
    w ∈ l.writes ∨ w = ⟨l.numberOf point, field, bytes⟩ := by
  change w ∈ (l.register point).writes ++ [_] at hw
  rw [register_writes, List.mem_append, List.mem_singleton] at hw
  exact hw

theorem MadeOf.stored (h : l.MadeOf blobs) (b : Archive.Blob) :
    (Archive.stored l b.point b.field b.bytes).MadeOf (blobs ++ [b]) := by
  intro w hw
  rcases mem_writes_stored hw with hOld | rfl
  · obtain ⟨b', hb', hOf⟩ := h w hOld
    exact ⟨b', List.mem_append_left _ hb', (l.below_stored b).isOf hOf⟩
  · exact ⟨b, by simp, l.isOf_stored b⟩

end Ledger

/-! ## The invariant -/

/-- From one machine to the next the disk keeps a ledger, or from a renaming on the
one that the tables record. -/
inductive Machine.Advances (l : Layout) (s : Settings) (dir : NodeId) (saved : Ledger)
    (tables : Tables) (m : Machine) : Ledger → Machine → Prop where
  | proceed {m' : Machine} (h : Machine.Proceeds (Disk.HoldsLedger l s dir saved) m m') :
      Advances l s dir saved tables m saved m'
  | replace {next : Ledger} {m' : Machine}
      (h : Machine.Replaces l dir (Disk.HoldsLedger l s dir saved) (Disk.HoldsLedger l s dir next)
        m m')
      (hTables : tables.Records s next) : Advances l s dir saved tables m next m'

variable {l : Layout} {s : Settings} {dir : NodeId} {live saved saved' : Ledger} {a a' : Archive}
  {m m' m'' : Machine} {tables : Tables}

theorem Machine.Proceeds.advances (h : Machine.Proceeds (Disk.HoldsLedger l s dir saved) m m')
    (h' : Machine.Advances l s dir saved tables m' saved' m'') :
    Machine.Advances l s dir saved tables m saved' m'' := by
  cases h' with
  | proceed hTo => exact .proceed (h.trans hTo)
  | replace hTo hTables =>
      obtain ⟨m₁, hBefore, hAfter⟩ := hTo
      exact .replace ⟨m₁, h.trans hBefore, hAfter⟩ hTables

theorem Machine.Advances.environment (h : Machine.Advances l s dir saved tables m saved' m') :
    m'.environment = m.environment := by
  cases h with
  | proceed hTo => exact hTo.1
  | replace hTo hTables => exact hTo.environment

namespace Archive

variable {blobs : List Blob} {command : Command}

/-- An archive in a run that has stored some blobs: its disk keeps a ledger, and it is
closed or follows a ledger that continues that one. -/
structure LedgerRunState (l : Layout) (s : Settings) (dir : NodeId) (blobs : List Blob)
    (saved : Ledger) (a : Archive) (m : Machine) : Prop where
  usable : l.IsUsable
  layout : a.layout = l
  holds : m.disk.HoldsLedger l s dir saved
  made : saved.MadeOf blobs
  memory : a.arena = none ∨
    ∃ live, FollowsLedger l s dir True False live saved a m ∧ saved.Below live ∧ live.MadeOf blobs

theorem LedgerRunState.of_followsLedger (h : FollowsLedger l s dir True False live saved a m)
    (hBelow : saved.Below live) (hMade : live.MadeOf blobs) :
    LedgerRunState l s dir blobs saved a m := by
  obtain ⟨file, data, hKeeps⟩ := h.holds
  exact ⟨h.usable, h.layout, ⟨file, data, hKeeps⟩, hMade.of_above hBelow hKeeps.isValid,
    Or.inr ⟨live, h, hBelow, hMade⟩⟩

/-- What a command does in a run: the ledger on the disk is kept or continued, and a
blob whose storing was to be durable and did not fail is there. -/
def LedgerRunStep (l : Layout) (s : Settings) (dir : NodeId) (blobs : List Blob) (saved : Ledger)
    (command : Command) (m : Machine) (o : Outcome) : Prop :=
  ∃ saved', saved.Below saved' ∧
    LedgerRunState l s dir (blobs ++ o.stored.toList) saved' o.archive o.machine ∧
    Machine.Advances l s dir saved o.archive.tables m saved' o.machine ∧
    ∀ b, command = .store .always b → o.error = none → ∃ w ∈ saved'.writes, saved'.IsOf w b

/-- A command without effect. -/
theorem LedgerRunState.runStep (h : LedgerRunState l s dir blobs saved a m) {e : Option Error}
    (hDone : ∀ b, command = .store .always b → e ≠ none) :
    LedgerRunStep l s dir blobs saved command m ⟨none, e, a, m⟩ := by
  refine ⟨saved, .refl saved, ?_, .proceed (.refl h.holds), ?_⟩
  · rw [Option.toList_none, List.append_nil]
    exact h
  · intro b hCommand hNone
    exact absurd hNone (hDone b hCommand)

/-- A command that changes the tables, or fails. -/
theorem LedgerRunState.ofTables (h : LedgerRunState l s dir blobs saved a m)
    {result : Except Error Archive} (hCommand : ∀ b, command ≠ .store .always b)
    (hClosed : a.arena = none → ∃ e, result = .error e)
    (hOpen : ∀ live a', FollowsLedger l s dir True False live saved a m → result = .ok a' →
      ∃ live', FollowsLedger l s dir True False live' saved a' m ∧ live.Below live' ∧
        live'.writes = live.writes) :
    LedgerRunStep l s dir blobs saved command m (.ofTables a m result) := by
  have hOther : ∀ {e : Option Error} (b), command = .store .always b → e ≠ none := by
    intro e b hStore
    exact absurd hStore (hCommand b)
  cases hResult : result with
  | error e => exact h.runStep hOther
  | ok a' =>
      rcases h.memory with hNone | ⟨live, hFollows, hBelow, hMade⟩
      · obtain ⟨e, hError⟩ := hClosed hNone
        rw [hError] at hResult
        cases hResult
      · obtain ⟨live', hNext, hGrows, hWrites⟩ := hOpen live a' hFollows hResult
        have hRunState : LedgerRunState l s dir blobs saved a' m :=
          .of_followsLedger hNext (hBelow.trans hGrows) (hMade.of_below hGrows hWrites)
        exact hRunState.runStep hOther

/-! ## Changing the tables -/

theorem requireMode_of_closed (hClosed : a.arena = none) (mode : Mode) (operation : Operation) :
    a.requireMode mode operation = .error (.invalidState operation .closed) := by
  simp only [requireMode, hClosed]

theorem LedgerRunState.registerField (h : LedgerRunState l s dir blobs saved a m) {info : FieldInfo}
    (hBuilt : info.IsBuilt) :
    LedgerRunStep l s dir blobs saved (.registerField info) m
      ((Command.registerField info).perform a m) := by
  refine h.ofTables (fun b hSame => by cases hSame) ?_ ?_
  · intro hClosed
    refine ⟨.invalidState .registerField .closed, ?_⟩
    simp only [Archive.registerField, requireMode_of_closed hClosed, bind, Except.bind, Except.map]
  · intro live a' hFollows hOk
    cases hRegister : a.registerField info with
    | error e =>
        rw [hRegister] at hOk
        cases hOk
    | ok result =>
        obtain ⟨r, a₁⟩ := result
        rw [hRegister] at hOk
        cases hOk
        obtain ⟨hCases, -⟩ := hFollows.registerField_ok (FieldInfo.isBuilt_iff.1 hBuilt) hRegister
        rcases hCases with ⟨hNext, -⟩ | rfl
        · exact ⟨_, hNext, ⟨List.prefix_refl _, List.prefix_refl _⟩, rfl⟩
        · exact ⟨live, hFollows, .refl live, rfl⟩

theorem LedgerRunState.registerSavepoint (h : LedgerRunState l s dir blobs saved a m)
    (point : Savepoint) :
    LedgerRunStep l s dir blobs saved (.registerSavepoint point) m
      ((Command.registerSavepoint point).perform a m) := by
  refine h.ofTables (fun b hSame => by cases hSame) ?_ ?_
  · intro hClosed
    refine ⟨.invalidState .registerSavepoint .closed, ?_⟩
    simp only [Archive.registerSavepoint, requireMode_of_closed hClosed, bind, Except.bind]
  · intro live a' hFollows hOk
    rcases hFollows.registerSavepoint_ok hOk with ⟨hNext, -⟩ | ⟨rfl, -⟩
    · exact ⟨_, hNext, live.below_register point, live.register_writes point⟩
    · exact ⟨live, hFollows, .refl live, rfl⟩

theorem LedgerRunState.addMetainfo (h : LedgerRunState l s dir blobs saved a m) (key : String)
    (value : MetaValue) :
    LedgerRunStep l s dir blobs saved (.addMetainfo key value) m
      ((Command.addMetainfo key value).perform a m) := by
  refine h.ofTables (fun b hSame => by cases hSame) ?_ ?_
  · intro hClosed
    refine ⟨.invalidState .addGlobalMetainfo .closed, ?_⟩
    simp only [Archive.addMetainfo, requireMode_of_closed hClosed, bind, Except.bind]
  · intro live a' hFollows hOk
    obtain ⟨hNext, -⟩ := hFollows.addMetainfo_ok hOk
    exact ⟨_, hNext, ⟨List.prefix_refl _, List.prefix_refl _⟩, rfl⟩

theorem LedgerRunState.addFieldMetainfo (h : LedgerRunState l s dir blobs saved a m)
    (field key : String) (value : MetaValue) :
    LedgerRunStep l s dir blobs saved (.addFieldMetainfo field key value) m
      ((Command.addFieldMetainfo field key value).perform a m) := by
  refine h.ofTables (fun b hSame => by cases hSame) ?_ ?_
  · intro hClosed
    refine ⟨.invalidState .addFieldMetainfo .closed, ?_⟩
    simp only [Archive.addFieldMetainfo, requireMode_of_closed hClosed, bind, Except.bind]
  · intro live a' hFollows hOk
    obtain ⟨i, hNext, -⟩ := hFollows.addFieldMetainfo_ok hOk
    exact ⟨_, hNext, ⟨List.prefix_refl _, List.prefix_refl _⟩, rfl⟩

/-! ## Flushing and closing -/

/-- A flush keeps the ledger on the disk or makes it the one in memory. -/
theorem FollowsLedger.flush_advances (h : FollowsLedger l s dir True False live saved a m)
    (hBelow : saved.Below live) (stored : Option Blob) {o : Outcome}
    (hOutcome : Outcome.ofResult stored (Archive.flush (a, m)) = o) :
    o.stored = stored ∧ o.archive.tables = a.tables ∧
      ∃ saved', saved.Below saved' ∧ saved'.Below live ∧
        FollowsLedger l s dir True False live saved' o.archive o.machine ∧
        Machine.Advances l s dir saved o.archive.tables m saved' o.machine ∧
        (a.dirty = true → o.error = none → saved' = live) := by
  subst hOutcome
  cases hDirty : a.dirty with
  | false =>
      rw [h.flush_of_clean hDirty]
      exact ⟨rfl, rfl, saved, .refl saved, hBelow, h, .proceed (.refl h.holds),
        fun hChanged => by cases hChanged⟩
  | true =>
      rcases (h.flush_ends hDirty).cases with ⟨e, m', hFlush, hTo, hNext⟩ |
        ⟨e, m', hFlush, hTo, hNext⟩ | ⟨a', m', hFlush, hTo, hNext, -, hTables⟩
      · rw [hFlush]
        exact ⟨rfl, rfl, saved, .refl saved, hBelow, hNext, .proceed hTo,
          fun _ hNone => by cases hNone⟩
      · rw [hFlush]
        exact ⟨rfl, rfl, live, hBelow, .refl live, hNext, .replace hTo hNext.tables,
          fun _ hNone => by cases hNone⟩
      · rw [hFlush]
        exact ⟨rfl, hTables, live, hBelow, .refl live, hNext, .replace hTo hNext.tables,
          fun _ _ => rfl⟩

/-- Flushing a closed archive does nothing. -/
theorem perform_flush_of_closed (hClosed : a.arena = none) :
    ∃ e, Command.flush.perform a m = ⟨none, e, a, m⟩ := by
  simp only [Command.perform, Archive.flush, requireOpen, isClosed, hClosed,
    Option.isNone_none, if_true]
  cases a.mode with
  | read => exact ⟨none, rfl⟩
  | write => exact ⟨_, rfl⟩

/-- Closing an open archive flushes it and lets go of its data file. -/
theorem perform_close_of_open {arena : Arena} (hArena : a.arena = some arena) :
    Command.close.perform a m =
      { Outcome.ofResult none (Archive.flush (a, m)) with
        archive := { (Outcome.ofResult none (Archive.flush (a, m))).archive with
          arena := none } } := by
  have hOpen : a.isClosed = false := by simp [isClosed, hArena]
  simp only [Command.perform, Archive.close, hOpen, Bool.false_eq_true, if_false]
  cases Archive.flush (a, m) <;> rfl

theorem LedgerRunState.flush (h : LedgerRunState l s dir blobs saved a m) :
    LedgerRunStep l s dir blobs saved .flush m (Command.flush.perform a m) := by
  rcases h.memory with hClosed | ⟨live, hFollows, hBelow, hMade⟩
  · obtain ⟨e, hPerform⟩ := perform_flush_of_closed (m := m) hClosed
    rw [hPerform]
    exact h.runStep fun b hSame => by cases hSame
  · obtain ⟨hStored, -, saved', hGrows, hBelow', hNext, hTo, -⟩ :=
      hFollows.flush_advances hBelow none rfl
    refine ⟨saved', hGrows, ?_, hTo, fun b hSame => by cases hSame⟩
    refine .of_followsLedger hNext hBelow' (hMade.mono ?_)
    exact List.subset_append_left _ _

theorem LedgerRunState.close (h : LedgerRunState l s dir blobs saved a m) :
    LedgerRunStep l s dir blobs saved .close m (Command.close.perform a m) := by
  rcases h.memory with hClosed | ⟨live, hFollows, hBelow, hMade⟩
  · have hPerform : Command.close.perform a m = ⟨none, none, a, m⟩ := by
      simp [Command.perform, Archive.close, isClosed, hClosed, Outcome.ofResult]
    rw [hPerform]
    exact h.runStep fun b hSame => by cases hSame
  · obtain ⟨arena, -, hArena, -⟩ := hFollows.arena
    obtain ⟨hStored, -, saved', hGrows, hBelow', hNext, hTo, -⟩ :=
      hFollows.flush_advances hBelow none rfl
    rw [perform_close_of_open hArena]
    refine ⟨saved', hGrows, ⟨h.usable, hNext.layout, hNext.holds, ?_, Or.inl rfl⟩, hTo,
      fun b hSame => by cases hSame⟩
    obtain ⟨file, data, hKeeps⟩ := hNext.holds
    exact (hMade.of_above hBelow' hKeeps.isValid).mono (List.subset_append_left _ _)

/-! ## Storing -/

/-- The bytes of some blobs. -/
def bytesOf (blobs : List Blob) : Set (List UInt8) := {p | ∃ b ∈ blobs, p = b.bytes}

/-- A ledger made of some blobs stores no other bytes, with those of a next one. -/
theorem payloads_subset_bytesOf (h : live.MadeOf blobs) (blob : Blob) :
    {p | p ∈ live.payloads ++ [blob.bytes]} ⊆ bytesOf (blobs ++ [blob]) := by
  intro p hp
  rcases List.mem_append.1 hp with hOld | hNew
  · obtain ⟨w, hw, rfl⟩ := List.mem_map.1 hOld
    obtain ⟨b, hb, hOf⟩ := h w hw
    exact ⟨b, List.mem_append_left _ hb, hOf.payload⟩
  · exact ⟨blob, by simp, List.mem_singleton.1 hNew⟩

theorem perform_store_of_closed (hClosed : a.arena = none) (durability : Durability) (blob : Blob)
    (m : Machine) : (Command.store durability blob).perform a m =
      ⟨none, some (.invalidState .writeField .closed), a, m⟩ := by
  simp only [Command.perform, append, checkAppend, requireMode_of_closed hClosed, bind, Except.bind]

theorem perform_store_of_error {blob : Blob} {e : Error}
    (hError : append blob.point blob.field blob.bytes (a, m) = .error e (a', m'))
    (durability : Durability) :
    (Command.store durability blob).perform a m = ⟨none, some e, a', m'⟩ := by
  simp only [Command.perform, hError]

/-- Bytes that were appended are flushed if they are to be durable. -/
theorem perform_store_of_ok {blob : Blob} {r : Appended}
    (hOk : append blob.point blob.field blob.bytes (a, m) = .ok r (a', m'))
    (durability : Durability) :
    (Command.store durability blob).perform a m =
      if durability = .always then Outcome.ofResult (some blob) (Archive.flush (a', m'))
      else ⟨some blob, none, a', m'⟩ := by
  simp only [Command.perform, hOk]

/-- Bytes that were appended are stored, whether or not the flush after them fails. -/
theorem stored_of_append {blob : Blob} {r : Appended}
    (hOk : append blob.point blob.field blob.bytes (a, m) = .ok r (a', m'))
    (durability : Durability) :
    ((Command.store durability blob).perform a m).stored = some blob := by
  rw [perform_store_of_ok hOk]
  split
  · cases Archive.flush (a', m') <;> rfl
  · rfl

theorem LedgerRunState.store (h : LedgerRunState l s dir blobs saved a m) (durability : Durability)
    (blob : Blob) (hDigest : Set.InjOn (Checksum.compute s.checksum)
      (bytesOf (blobs ++ ((Command.store durability blob).perform a m).stored.toList))) :
    LedgerRunStep l s dir blobs saved (.store durability blob) m
      ((Command.store durability blob).perform a m) := by
  rcases h.memory with hClosed | ⟨live, hFollows, hBelow, hMade⟩
  · rw [perform_store_of_closed hClosed]
    exact h.runStep fun b _ hNone => by cases hNone
  · have hInjective : ∀ r state, append blob.point blob.field blob.bytes (a, m) = .ok r state →
        Set.InjOn (Checksum.compute s.checksum) {p | p ∈ live.payloads ++ [blob.bytes]} := by
      rintro r ⟨a', m'⟩ hOk
      rw [stored_of_append hOk durability] at hDigest
      exact hDigest.mono (payloads_subset_bytesOf hMade blob)
    rcases hFollows.append_cases hInjective with ⟨e, hError, -⟩ |
      ⟨e, a', m', hError, hTo, hNext⟩ | ⟨r, a', m', hOk, hTo, hNext, hDirty, -⟩
    · rw [perform_store_of_error hError]
      exact h.runStep fun b _ hNone => by cases hNone
    · -- the savepoint is known in memory, and the data file may have part of the bytes
      rw [perform_store_of_error hError]
      have hGrown := live.below_register blob.point
      refine ⟨saved, .refl saved, ?_, .proceed hTo, fun b _ hNone => by cases hNone⟩
      rw [Option.toList_none, List.append_nil]
      exact .of_followsLedger hNext (hBelow.trans hGrown)
        (hMade.of_below hGrown (live.register_writes blob.point))
    · have hMade' := hMade.stored blob
      have hBelow' := hBelow.trans (live.below_stored blob)
      rw [perform_store_of_ok hOk]
      -- only a durable command flushes, and says that its bytes are on the disk
      by_cases hAlways : durability = .always
      · rw [if_pos hAlways]
        obtain ⟨hStored, -, saved', hGrows, hKept, hLast, hAfter, hDone⟩ :=
          hNext.flush_advances hBelow' (some blob) rfl
        refine ⟨saved', hGrows, ?_, hTo.advances hAfter, ?_⟩
        · rw [hStored]
          exact .of_followsLedger hLast hKept hMade'
        · intro b hSame hNone
          cases hSame
          rw [hDone hDirty hNone]
          exact ⟨_, List.mem_append_right _ (by simp), live.isOf_stored blob⟩
      · rw [if_neg hAlways]
        refine ⟨saved, .refl saved, .of_followsLedger hNext hBelow' hMade', .proceed hTo, ?_⟩
        intro b hSame
        cases hSame
        exact absurd rfl hAlways

/-! ## Opening again -/

theorem LedgerRunState.reopen (h : LedgerRunState l s dir blobs saved a m)
    (hReads : saved.readsBack = true) (settings : Settings) (sync : Bool) :
    LedgerRunStep l s dir blobs saved (.reopen settings sync) m
      ((Command.reopen settings sync).perform a m) := by
  obtain ⟨file, data, hKeeps⟩ := h.holds
  have hLayout := h.layout
  rcases openForWrite_cases h.usable hKeeps hReads settings sync with ⟨e, m', hError, hTo, -⟩ |
    ⟨a', m', -, hOk, hTo, hFollows, -⟩
  · have hPerform : (Command.reopen settings sync).perform a m =
        ⟨none, some e, { a with arena := none }, m'⟩ := by
      simp only [Command.perform, hLayout, hError]
    rw [hPerform]
    refine ⟨saved, .refl saved, ?_, .proceed hTo, fun b hSame => by cases hSame⟩
    rw [Option.toList_none, List.append_nil]
    exact ⟨h.usable, hLayout, hTo.last, h.made, Or.inl rfl⟩
  · have hPerform : (Command.reopen settings sync).perform a m = ⟨none, none, a', m'⟩ := by
      simp only [Command.perform, hLayout, hOk]
    rw [hPerform]
    refine ⟨saved, .refl saved, ?_, .proceed hTo, fun b hSame => by cases hSame⟩
    rw [Option.toList_none, List.append_nil]
    exact .of_followsLedger (hFollows.weaken False.elim) (.refl saved) h.made

/-- Every command keeps the invariant. -/
theorem LedgerRunState.perform (h : LedgerRunState l s dir blobs saved a m)
    (hReads : saved.readsBack = true) (hBuilt : command.IsBuilt)
    (hDigest : Set.InjOn (Checksum.compute s.checksum)
      (bytesOf (blobs ++ (command.perform a m).stored.toList))) :
    LedgerRunStep l s dir blobs saved command m (command.perform a m) := by
  cases command with
  | registerField info => exact h.registerField hBuilt
  | registerSavepoint point => exact h.registerSavepoint point
  | addMetainfo key value => exact h.addMetainfo key value
  | addFieldMetainfo field key value => exact h.addFieldMetainfo field key value
  | store durability blob => exact h.store durability blob hDigest
  | flush => exact h.flush
  | close => exact h.close
  | reopen settings sync => exact h.reopen hReads settings sync

end Archive
end FieldArchive

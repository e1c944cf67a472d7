import FieldArchive.Proofs.Archive.Commands
import FieldArchive.Proofs.Archive.Serving
import FieldArchive.Proofs.Session.Progress

/-!
# Crash consistency

A program may stop between any two of its changes to the disk, or inside a write.
Whenever this happens in a run on an archive, what is left can be opened for reading
and for writing, with the tables that the last completed renaming has captured.
Their entries hold the bytes that were stored under their keys, and what a durable
write has stored is among them.
-/

namespace FieldArchive

/-! ## Stops between two machines -/

namespace Machine

/-- The changes to the disk from one machine to a later one. -/
def changesTo (m m' : Machine) : List Disk.Change := m'.trace.drop m.trace.length

variable {P Q : Disk → Prop} {m m' : Machine}

theorem changesTo_of_append {changes : List Disk.Change} (h : m'.trace = m.trace ++ changes) :
    m.changesTo m' = changes := by
  rw [changesTo, h, List.drop_left]

/-- Without a renaming the property holds at all stops. -/
theorem Proceeds.stops (h : Proceeds P m m') :
    m'.disk = m.disk.after (m.changesTo m') ∧
      (∀ count, ((m.changesTo m').take count).any Disk.Change.isRename = false) ∧
      ∀ count part, P (m.disk.stopped (m.changesTo m') count part) := by
  obtain ⟨-, changes, hTrace, hDisk, hNames, hStops⟩ := h
  rw [changesTo_of_append hTrace]
  refine ⟨hDisk, fun count => ?_, hStops⟩
  rw [List.any_eq_false]
  intro c hc
  rw [hNames c (List.mem_of_mem_take hc)]
  simp

/-- The property changes with the renaming. -/
theorem Replaces.stops {l : Layout} {dir : NodeId} (h : Replaces l dir P Q m m') :
    m'.disk = m.disk.after (m.changesTo m') ∧
      (m.changesTo m').any Disk.Change.isRename = true ∧
      ∀ count part,
        if ((m.changesTo m').take count).any Disk.Change.isRename then
          Q (m.disk.stopped (m.changesTo m') count part)
        else P (m.disk.stopped (m.changesTo m') count part) := by
  obtain ⟨m₁, ⟨-, front, hTrace, hDisk, hNames, hStops⟩, -, back, hTrace', hDisk', hNames',
    hStops'⟩ := h
  set change := Disk.Change.rename (l.temporarySlot dir) (l.metadataSlot dir) with hChange
  have hAll : m'.trace = m.trace ++ ((front ++ [change]) ++ back) := by
    rw [hTrace']
    change (m₁.trace ++ [change]) ++ back = _
    rw [hTrace, List.append_assoc, List.append_assoc, List.append_assoc]
  rw [changesTo_of_append hAll]
  have hFront : ∀ count, (front.take count).any Disk.Change.isRename = false := by
    intro count
    rw [List.any_eq_false]
    intro c hc
    rw [hNames c (List.mem_of_mem_take hc)]
    simp
  have hMiddle : m.disk.after (front ++ [change]) = (m₁.tick.record change).disk := by
    rw [Disk.after_append, ← hDisk]
    rfl
  refine ⟨?_, ?_, fun count part => ?_⟩
  · rw [hDisk', Disk.after_append, hMiddle]
  · simp [hChange, Disk.Change.isRename]
  by_cases hBefore : count ≤ front.length
  · -- the renaming is not among the first changes, and it cannot be made in part
    have hTake : ((front ++ [change]) ++ back).take count = front.take count := by
      rw [List.append_assoc, List.take_append_of_le_length hBefore]
    have hStop : m.disk.stopped ((front ++ [change]) ++ back) count part =
        m.disk.stopped front count part := by
      rw [List.append_assoc]
      by_cases hLt : count < front.length
      · exact Disk.stopped_append_left _ _ _ hLt part
      · obtain rfl : count = front.length := by omega
        rw [Disk.stopped_append_right _ _ _ (Nat.le_refl _)]
        cases part <;> simp [Disk.stopped, Disk.after, hChange, Disk.Change.cut]
    rw [hTake, hFront, hStop]
    exact hStops count part
  · -- the renaming is made, and the stop is among the changes after it
    have hRenamed : (((front ++ [change]) ++ back).take count).any Disk.Change.isRename = true := by
      rw [List.any_eq_true]
      refine ⟨change, ?_, rfl⟩
      rw [List.take_append, List.take_of_length_le (by simp; omega)]
      simp
    rw [hRenamed, if_pos rfl, Disk.stopped_append_right _ _ _ (by simp; omega), hMiddle]
    exact hStops' _ part

end Machine

/-! ## Runs -/

namespace Archive

/-- A command of a run with what it did. -/
structure Moment where
  command : Command
  stored : Option Blob
  error : Option Error
  /-- The changes to the disk. -/
  changes : List Disk.Change
  /-- The tables in memory afterwards. -/
  tables : Tables

/-- Follow commands one after the other. -/
def run : List Command → Archive → Machine → List Moment
  | [], _, _ => []
  | command :: rest, a, m =>
      let o := command.perform a m
      ⟨command, o.stored, o.error, m.changesTo o.machine, o.archive.tables⟩ ::
        run rest o.archive o.machine

/-- All changes to the disk, in order. -/
def changesOf (moments : List Moment) : List Disk.Change := moments.flatMap Moment.changes

/-- All blobs that were stored, in order. -/
def storedBy (moments : List Moment) : List Blob := moments.flatMap fun x => x.stored.toList

/-- The tables that are captured after some changes of a command: those in memory if
one of the changes is a renaming, and else those `before`. -/
def Moment.latest (before : Tables) (x : Moment) (count : Nat) : Tables :=
  if (x.changes.take count).any Disk.Change.isRename then x.tables else before

/-- The tables that the last renaming among the first changes of a run has captured;
`before` if there is none. -/
def captured (before : Tables) : List Moment → Nat → Tables
  | [], _ => before
  | x :: rest, count => captured (x.latest before count) rest (count - x.changes.length)

variable {l : Layout} {s : Settings} {dir : NodeId} {saved saved' ledger : Ledger} {a : Archive}
  {m m' : Machine} {d : Disk} {blobs : List Blob} {before : Tables} {x : Moment}
  {others : List Moment} {count : Nat} {part : Option Nat}

/-- Before the first change nothing is captured. -/
theorem captured_zero (before : Tables) (moments : List Moment) :
    captured before moments 0 = before := by
  induction moments with
  | nil => rfl
  | cons x rest ih =>
      have hLatest : x.latest before 0 = before := by simp [Moment.latest]
      rw [captured, hLatest, Nat.zero_sub, ih]

theorem Moment.latest_of_le (hLe : x.changes.length ≤ count) :
    x.latest before count = x.latest before x.changes.length := by
  rw [latest, latest, List.take_of_length_le hLe, List.take_length]

theorem Moment.readsBack_latest (hBefore : before.readsBack = true)
    (hAfter : x.tables.readsBack = true) (count : Nat) :
    (x.latest before count).readsBack = true := by
  unfold latest
  split
  · exact hAfter
  · exact hBefore

theorem changesOf_cons (x : Moment) (others : List Moment) :
    changesOf (x :: others) = x.changes ++ changesOf others := List.flatMap_cons

/-- The ledgers that a disk keeps at the stops inside a command. -/
theorem Advances.stops (h : Machine.Advances l s dir saved x.tables m saved' m')
    (hChanges : x.changes = m.changesTo m') (hBefore : before.Records s saved) :
    m'.disk = m.disk.after x.changes ∧ (x.latest before x.changes.length).Records s saved' ∧
    ∀ count part, ∃ ledger, (ledger = saved ∨ ledger = saved') ∧
      (x.latest before count).Records s ledger ∧
      (m.disk.stopped x.changes count part).HoldsLedger l s dir ledger := by
  unfold Moment.latest
  rw [hChanges, List.take_length]
  cases h with
  | proceed hTo =>
      obtain ⟨hDisk, hNames, hStops⟩ := hTo.stops
      refine ⟨hDisk, ?_, fun count part => ⟨saved, Or.inl rfl, ?_, hStops count part⟩⟩
      · have hNone := hNames (m.changesTo m').length
        rw [List.take_length] at hNone
        rw [hNone]
        exact hBefore
      · rw [hNames count]
        exact hBefore
  | replace hTo hTables =>
      obtain ⟨hDisk, hRenamed, hStops⟩ := hTo.stops
      refine ⟨hDisk, ?_, fun count part => ?_⟩
      · rw [hRenamed]
        exact hTables
      · -- the stops after the renaming have the new ledger, the others the old one
        have hStop := hStops count part
        by_cases hAny : ((m.changesTo m').take count).any Disk.Change.isRename = true
        · rw [if_pos hAny] at hStop ⊢
          exact ⟨saved', Or.inr rfl, hTables, hStop⟩
        · rw [if_neg hAny] at hStop ⊢
          exact ⟨saved, Or.inl rfl, hBefore, hStop⟩

/-- What the disk keeps of a run that stops after some changes: the ledger of the
captured tables, with all that durable commands have stored which had returned. -/
structure Stopped (l : Layout) (s : Settings) (dir : NodeId) (blobs : List Blob)
    (saved : Ledger) (before : Tables) (moments : List Moment) (count : Nat) (ledger : Ledger)
    (d : Disk) : Prop where
  below : saved.Below ledger
  records : (captured before moments count).Records s ledger
  readsBack : (captured before moments count).readsBack = true
  holds : d.HoldsLedger l s dir ledger
  made : ledger.MadeOf blobs
  durable : ∀ front x back b, moments = front ++ x :: back → x.command = .store .always b →
    x.error = none → (changesOf (front ++ [x])).length ≤ count →
    ∃ w ∈ ledger.writes, ledger.IsOf w b

/-- A run that stops inside its first command. -/
theorem Stopped.of_inside (hInside : count < x.changes.length) (hBelow : saved.Below ledger)
    (hRecords : (x.latest before count).Records s ledger)
    (hReads : (x.latest before count).readsBack = true)
    (hHolds : (d.stopped x.changes count part).HoldsLedger l s dir ledger)
    (hMade : ledger.MadeOf blobs) :
    Stopped l s dir blobs saved before (x :: others) count ledger
      (d.stopped (changesOf (x :: others)) count part) := by
  have hCaptured : captured before (x :: others) count = x.latest before count := by
    have hZero : count - x.changes.length = 0 := by omega
    rw [captured, hZero, captured_zero]
  refine ⟨hBelow, ?_, ?_, ?_, hMade, ?_⟩
  · rw [hCaptured]
    exact hRecords
  · rw [hCaptured]
    exact hReads
  · rw [changesOf_cons, Disk.stopped_append_left _ _ _ hInside]
    exact hHolds
  · -- no command has returned yet
    intro front y back b hSplit _ _ hLe
    have hFirst : ∃ more, front ++ [y] = x :: more := by
      cases front with
      | nil => exact ⟨[], by rw [(List.cons.inj hSplit).1]; rfl⟩
      | cons z front => exact ⟨front ++ [y], by rw [(List.cons.inj hSplit).1]; rfl⟩
    obtain ⟨more, hMore⟩ := hFirst
    rw [hMore, changesOf_cons, List.length_append] at hLe
    omega

/-- A run that stops after its first command. -/
theorem Stopped.cons (hAfter : x.changes.length ≤ count) (hGrows : saved.Below saved')
    (hDurable : ∀ b, x.command = .store .always b → x.error = none →
      ∃ w ∈ saved'.writes, saved'.IsOf w b)
    (h : Stopped l s dir blobs saved' (x.latest before x.changes.length) others
      (count - x.changes.length) ledger
      ((d.after x.changes).stopped (changesOf others) (count - x.changes.length) part)) :
    Stopped l s dir blobs saved before (x :: others) count ledger
      (d.stopped (changesOf (x :: others)) count part) := by
  have hCaptured : captured before (x :: others) count =
      captured (x.latest before x.changes.length) others (count - x.changes.length) := by
    rw [captured, Moment.latest_of_le hAfter]
  refine ⟨hGrows.trans h.below, ?_, ?_, ?_, h.made, ?_⟩
  · rw [hCaptured]
    exact h.records
  · rw [hCaptured]
    exact h.readsBack
  · rw [changesOf_cons, Disk.stopped_append_right _ _ _ hAfter]
    exact h.holds
  · intro front y back b hSplit hCommand hNone hLe
    -- the command that had returned is the first one, or one of the others
    cases front with
    | nil =>
        obtain ⟨rfl, -⟩ := List.cons.inj hSplit
        obtain ⟨w, hw, hOf⟩ := hDurable b hCommand hNone
        exact ⟨w, h.below.writes.subset hw, h.below.isOf hOf⟩
    | cons z front =>
        obtain ⟨rfl, hOthers⟩ := List.cons.inj hSplit
        refine h.durable front y back b hOthers hCommand hNone ?_
        rw [List.cons_append, changesOf_cons, List.length_append] at hLe
        omega

/-- Wherever a run stops, the disk keeps the ledger of the captured tables. -/
theorem LedgerRunState.run (h : LedgerRunState l s dir blobs saved a m)
    (hBefore : before.Records s saved) (hReads : before.readsBack = true) {commands : List Command}
    (hBuilt : ∀ c ∈ commands, c.IsBuilt)
    (hKept : ∀ x ∈ run commands a m, x.tables.readsBack = true)
    (hDigest : Set.InjOn (Checksum.compute s.checksum)
      (bytesOf (blobs ++ storedBy (run commands a m)))) (count : Nat) (part : Option Nat) :
    ∃ ledger, Stopped l s dir (blobs ++ storedBy (run commands a m)) saved before
      (run commands a m) count ledger
      (m.disk.stopped (changesOf (run commands a m)) count part) := by
  induction commands generalizing a m blobs saved before count with
  | nil =>
      refine ⟨saved, .refl saved, hBefore, hReads, ?_, h.made.mono (List.subset_append_left _ _),
        ?_⟩
      · change (m.disk.stopped [] count part).HoldsLedger l s dir saved
        rw [Disk.stopped_nil]
        exact h.holds
      · intro front x back b hSplit
        simp [Archive.run] at hSplit
  | cons command rest ih =>
      set o := command.perform a m with hOutcome
      set x : Moment := ⟨command, o.stored, o.error, m.changesTo o.machine, o.archive.tables⟩
        with hMoment
      set others := Archive.run rest o.archive o.machine with hOthers
      have hRun : Archive.run (command :: rest) a m = x :: others := rfl
      have hBlobs : blobs ++ storedBy (x :: others) =
          (blobs ++ o.stored.toList) ++ storedBy others := by
        rw [List.append_assoc]
        rfl
      rw [hRun] at hKept hDigest ⊢
      rw [hBlobs] at hDigest ⊢
      have hSaved : saved.readsBack = true := by
        rw [← hBefore.readsBack_eq]
        exact hReads
      have hFirst : bytesOf (blobs ++ o.stored.toList) ⊆
          bytesOf ((blobs ++ o.stored.toList) ++ storedBy others) := by
        rintro p ⟨b, hb, rfl⟩
        exact ⟨b, List.mem_append_left _ hb, rfl⟩
      obtain ⟨saved', hGrows, hNext, hTo, hDurable⟩ :=
        h.perform hSaved (hBuilt command List.mem_cons_self) (hDigest.mono hFirst)
      obtain ⟨hDisk, hAfter, hStops⟩ := Advances.stops (x := x) hTo rfl hBefore
      have hTables := hKept x List.mem_cons_self
      -- the run stops in the first command, or in what follows it
      by_cases hInside : count < x.changes.length
      · obtain ⟨ledger, hWhich, hRecords, hHolds⟩ := hStops count part
        have hReadsInside := Moment.readsBack_latest hReads hTables count
        rcases hWhich with rfl | rfl
        · exact ⟨ledger, .of_inside hInside (.refl ledger) hRecords hReadsInside hHolds
            (h.made.mono fun b hb => List.mem_append_left _ (List.mem_append_left _ hb))⟩
        · exact ⟨ledger, .of_inside hInside hGrows hRecords hReadsInside hHolds
            (hNext.made.mono (List.subset_append_left _ _))⟩
      · obtain ⟨ledger, hStopped⟩ := ih hNext hAfter (Moment.readsBack_latest hReads hTables _)
          (fun c hc => hBuilt c (List.mem_cons_of_mem _ hc))
          (fun y hy => hKept y (List.mem_cons_of_mem _ hy)) hDigest (count - x.changes.length)
        rw [hDisk] at hStopped
        exact ⟨ledger, hStopped.cons (by omega) hGrows hDurable⟩

/-! ## Opening after a stop -/

/-- The tables of an archive that was opened are those that were captured. -/
structure RestoresTables (t captured : Tables) : Prop where
  metainfo : t.metainfo = captured.metainfo
  fields : t.catalog.fields = captured.catalog.fields
  savepoints : t.offsets.savepoints = captured.offsets.savepoints
  entries : t.offsets.entries = captured.offsets.entries

theorem RestoresTables.of_records {t t' : Tables} (h : t.Records s ledger)
    (h' : t'.Records s ledger) :
    RestoresTables t t' :=
  ⟨h.metainfo.trans h'.metainfo.symm, h.fields.trans h'.fields.symm,
    h.savepoints.trans h'.savepoints.symm, h.entries.trans h'.entries.symm⟩

/-- An entry of tables is that of a blob, and its range in the data holds the bytes. -/
structure IsEntryOf (s : Settings) (t : Tables) (data : List UInt8) (e : OffsetEntry)
    (b : Blob) : Prop where
  point : ∃ known, t.offsets.savepoints[e.savepoint]? = some known ∧ (known == b.point) = true
  field : e.field = b.field
  checksum : e.record.checksum = Checksum.compute s.checksum b.bytes
  length : e.record.extent.length = b.bytes.length
  range : (data.drop e.record.extent.offset).take e.record.extent.length = b.bytes

theorem isEntryOf_entryOf {t : Tables} (h : t.Records s ledger) {w : Write}
    (hw : w ∈ ledger.writes) {b : Blob} (hOf : ledger.IsOf w b) :
    ledger.entryOf s.checksum w ∈ t.offsets.entries ∧
      IsEntryOf s t ledger.content (ledger.entryOf s.checksum w) b := by
  have hSavepoints : t.offsets.savepoints = ledger.savepoints := h.savepoints
  have hEntries : t.offsets.entries = ledger.entries s.checksum := h.entries
  have hRecord : (ledger.entryOf s.checksum w).record = ledger.recordOf s.checksum b.bytes := by
    rw [Ledger.entryOf, hOf.payload]
  have hBytes : b.bytes ∈ ledger.payloads := hOf.payload ▸ Ledger.mem_payloads_of_mem hw
  refine ⟨?_, ?_, hOf.field, ?_, ?_, ?_⟩
  · rw [hEntries]
    exact Ledger.mem_entries.2 ⟨w, hw, rfl⟩
  · rw [hSavepoints]
    exact hOf.isAt
  · rw [hRecord]
    rfl
  · rw [hRecord]
    rfl
  · rw [hRecord]
    exact Packing.drop_take_content hBytes

/-- An archive that a disk holds is opened for reading and for writing with the tables
that record its ledger. -/
theorem opens_of_holdsLedger (hUsable : l.IsUsable) (h : d.HoldsLedger l s dir ledger) {t : Tables}
    (hRecords : t.Records s ledger) (hReads : t.readsBack = true) :
    ∃ doc data, Document.load d l.metadata = .ok doc ∧ d.readBytes l.data = .ok data ∧
      doc.dataLength ≤ data.length ∧ data.take doc.dataLength = ledger.content ∧
      (∀ later : Machine, later.disk = d →
        ∃ a', openForRead l later = .ok a' later ∧ RestoresTables a'.tables t) ∧
      ∀ (later : Machine) (sync : Bool), later.disk = d → later.IsCalm →
        ∃ a' m', openForWrite l s sync later = .ok a' m' ∧ RestoresTables a'.tables t ∧
          m'.disk.readBytes l.data = .ok ledger.content := by
  rw [hRecords.readsBack_eq] at hReads
  obtain ⟨file, data, hKeeps⟩ := h
  obtain ⟨id, createdAt, updatedAt, hLoad⟩ := Document.load_of_readsBack hUsable hKeeps hReads
  have hData : d.readBytes l.data = .ok data :=
    l.readBytes_of_hasFile hKeeps.leadsTo hUsable.data hKeeps.dataFile
  refine ⟨_, data, hLoad, hData, hKeeps.content.length_le, ?_, ?_, ?_⟩
  · change data.take ledger.content.length = ledger.content
    obtain ⟨junk, rfl⟩ := hKeeps.content
    rw [List.take_left]
  · rintro later rfl
    obtain ⟨a', hOpen, hReader⟩ := openForRead_of_readsBack hUsable hKeeps hReads
    exact ⟨a', hOpen, .of_records hReader.tables hRecords⟩
  · rintro later sync rfl hCalm
    rcases openForWrite_cases hUsable hKeeps hReads s sync with
      ⟨e, m', -, -, hOther | ⟨n, fault, hFault⟩⟩ | ⟨a', m', -, hOk, -, hWriter, -⟩
    · exact absurd rfl hOther
    · rw [hCalm n] at hFault
      cases hFault
    · obtain ⟨arena, data', -, -, -, hKeeps', -, hExact⟩ := hWriter.arena
      refine ⟨a', m', hOk, .of_records hWriter.tables hRecords, ?_⟩
      rw [← hExact trivial]
      exact l.readBytes_of_hasFile hKeeps'.leadsTo hUsable.data hKeeps'.dataFile

/-- Wherever a run on a new archive stops, a later session can open what is left, for
reading and, with the same settings, for writing.  It finds the tables that the last
completed renaming has captured; the range of every entry holds the bytes that were
stored under its key; what a durable command has stored that had returned is there;
and opening for writing cuts the data file to the recorded length. -/
theorem crash_consistent {directory stem : String} {sync : Bool} {start : Machine}
    (hLayout : Layout.make directory stem = .ok l) (hWell : start.disk.WellFormed)
    (hVacant : l.IsVacant start) (hCreated : openForWrite l s sync start = .ok a m)
    {commands : List Command} (hBuilt : ∀ c ∈ commands, c.IsBuilt)
    (hKept : ∀ x ∈ run commands a m, x.tables.readsBack = true)
    (hDigest : Set.InjOn (Checksum.compute s.checksum)
      (bytesOf (storedBy (run commands a m)))) (count : Nat) (part : Option Nat) :
    let moments := run commands a m
    let left := m.disk.stopped (changesOf moments) count part
    let t := captured a.tables moments count
    ∃ doc data, Document.load left l.metadata = .ok doc ∧ left.readBytes l.data = .ok data ∧
      doc.dataLength ≤ data.length ∧
      (∀ later : Machine, later.disk = left →
        ∃ a', openForRead l later = .ok a' later ∧ RestoresTables a'.tables t) ∧
      (∀ (later : Machine) (sync : Bool), later.disk = left → later.IsCalm →
        ∃ a' m', openForWrite l s sync later = .ok a' m' ∧ RestoresTables a'.tables t ∧
          m'.disk.readBytes l.data = .ok (data.take doc.dataLength)) ∧
      (∀ e ∈ t.offsets.entries, ∃ b ∈ storedBy moments,
        IsEntryOf s t (data.take doc.dataLength) e b) ∧
      ∀ front x back b, moments = front ++ x :: back → x.command = .store .always b →
        x.error = none → (changesOf (front ++ [x])).length ≤ count →
        ∃ e ∈ t.offsets.entries, IsEntryOf s t (data.take doc.dataLength) e b := by
  intro moments left t
  obtain ⟨dir, hFollows, -, -⟩ :=
    openForWrite_of_isVacant (Layout.hasPlainNames_of_make hLayout) hWell hVacant hCreated
  have hRunState : LedgerRunState l s dir [] .empty a m :=
    .of_followsLedger (hFollows.weaken False.elim) (.refl _) fun w hw => by cases hw
  have hReads : a.tables.readsBack = true := by
    rw [hFollows.tables.readsBack_eq]
    rfl
  -- one ledger is both on the disk and in the captured tables
  obtain ⟨ledger, hStopped⟩ :=
    hRunState.run hFollows.tables hReads hBuilt hKept hDigest count part
  obtain ⟨doc, data, hLoad, hData, hLe, hContent, hRead, hWrite⟩ :=
    opens_of_holdsLedger hFollows.usable hStopped.holds hStopped.records hStopped.readsBack
  refine ⟨doc, data, hLoad, hData, hLe, hRead, ?_, ?_, ?_⟩
  · rw [hContent]
    exact hWrite
  · rw [hContent]
    intro e he
    have hEntries : t.offsets.entries = ledger.entries s.checksum := hStopped.records.entries
    rw [hEntries] at he
    obtain ⟨w, hw, rfl⟩ := Ledger.mem_entries.1 he
    obtain ⟨b, hb, hOf⟩ := hStopped.made w hw
    exact ⟨b, hb, (isEntryOf_entryOf hStopped.records hw hOf).2⟩
  · rw [hContent]
    intro front x back b hSplit hCommand hNone hReturned
    obtain ⟨w, hw, hOf⟩ := hStopped.durable front x back b hSplit hCommand hNone hReturned
    exact ⟨_, isEntryOf_entryOf hStopped.records hw hOf⟩

/-! ## A durable write -/

variable {id : ArchiveId} {createdAt : String} {live next : Ledger}

theorem ServesLedger.registerField (h : ServesLedger l s dir id createdAt live a m)
    {info : FieldInfo} (hBuilt : info.IsBuilt) {registration : Registration}
    (hRespond : (Request.registerField info).respond s live =
      .ok (.registered registration, next)) :
    ∃ a', (Command.registerField info).perform a m = ⟨none, none, a', m⟩ ∧
      ServesLedger l s dir id createdAt next a' m := by
  obtain ⟨hReply, hServes, -⟩ := h.ofTables fun _ hFollows => hFollows.registerField_matches hBuilt
  rw [Request.next, hRespond] at hServes
  rw [hRespond] at hReply
  cases hRegister : a.registerField info with
  | error e =>
      rw [hRegister] at hReply
      cases hReply
  | ok done =>
      rw [hRegister] at hServes
      refine ⟨done.2, ?_, hServes⟩
      simp only [Command.perform, hRegister, Except.map, Outcome.ofTables]

/-- Without failures of the file system, a durable command succeeds whose bytes are
accepted. -/
theorem ServesLedger.store (hPlain : l.HasPlainNames)
    (h : ServesLedger l s dir id createdAt live a m) (hCalm : m.IsCalm) {blob : Blob}
    {appended : Appended}
    (hRespond : (Request.append blob).respond s live = .ok (.appended appended, next))
    (hInjective : Set.InjOn (Checksum.compute s.checksum) {p | p ∈ live.payloads ++ [blob.bytes]})
    (hRoom : live.content.length + blob.bytes.length ≤ Disk.maxFileLength)
    (hText : Writable s id createdAt m.environment next) :
    ∃ a' m', (Command.store .always blob).perform a m = ⟨some blob, none, a', m'⟩ ∧
      ServesLedger l s dir id createdAt next a' m' := by
  have hBuilt : (Request.append blob).IsBuilt := trivial
  obtain ⟨hReply, hServes, hWorld⟩ := h.answer_of_isCalm hPlain hCalm hBuilt
    (fun p hp => by cases hp; exact hInjective) hRoom nofun
  rw [Request.next, hRespond] at hServes
  rw [hRespond] at hReply
  cases hAppend : append blob.point blob.field blob.bytes (a, m) with
  | error e state =>
      simp only [Request.perform, Answer.ofResult, hAppend] at hReply
      cases hReply
  | ok r state =>
      obtain ⟨a₁, m₁⟩ := state
      simp only [Request.perform, Answer.ofResult, hAppend] at hServes hWorld
      obtain ⟨a', m', hFlush, hFlushed, -⟩ := hServes.exists_flush hPlain
        (fun n => by rw [hWorld]; exact hCalm n) (by rw [hWorld]; exact hText)
      refine ⟨a', m', ?_, hFlushed⟩
      simp only [Command.perform, hAppend, if_true, hFlush, Outcome.ofResult]

namespace Sample

def blob : Blob := ⟨Session.Sample.step 0, "T", [1, 0, 0, 0, 2, 0, 0, 0]⟩

def register : Command := .registerField Session.Sample.temperature

def store : Command := .store .always blob

/-- A new archive. -/
def create : EStateM.Result Error Machine Archive :=
  openForWrite Session.Sample.layout Session.Sample.settings true Session.Sample.start

theorem exists_create : ∃ a m, create = .ok a m ∧ a.id = default ∧ a.createdAt = "" :=
  Session.Sample.exists_openForWrite

/-- The ledger after the field was registered. -/
def registered : Ledger := Ledger.empty.addField Session.Sample.temperature

/-- The ledger after the bytes were stored. -/
def stored : Ledger := (Request.append blob).next Session.Sample.settings registered

theorem respond_register :
    (Request.registerField Session.Sample.temperature).respond Session.Sample.settings .empty =
      .ok (.registered .inserted, registered) := by
  rfl

theorem exists_respond_append : ∃ appended,
    (Request.append blob).respond Session.Sample.settings registered =
      .ok (.appended appended, stored) :=
  ⟨_, by rfl⟩

theorem injOn_registered : Set.InjOn (Checksum.compute Session.Sample.settings.checksum)
    {p | p ∈ registered.payloads ++ [blob.bytes]} := by
  have hOnly : registered.payloads ++ [blob.bytes] = [blob.bytes] := by rfl
  simp [hOnly]

/-- The documents of the run are short. -/
theorem writable_of_mem {live : Ledger} (h : live ∈ [registered, stored]) :
    Writable Session.Sample.settings default "" Session.Sample.start.environment live := by
  have hShort : ∀ live ∈ [registered, stored], (Json.render .pretty 0
      (live.document default "" "" Session.Sample.settings).toJson).length ≤ 4096 := by
    decide +kernel
  exact fun _ => Document.length_textBytes_le_max (hShort live h)

/-- The field is registered in a new archive. -/
theorem exists_registered : ∃ a m b dir, create = .ok a m ∧
    m.environment = Session.Sample.start.environment ∧
    register.perform a m = ⟨none, none, b, m⟩ ∧
    ServesLedger Session.Sample.layout Session.Sample.settings dir default "" registered b m := by
  obtain ⟨a, m, hCreate, hId, hCreatedAt⟩ := exists_create
  have hPlain := Layout.hasPlainNames_of_make Session.Sample.layout_eq
  obtain ⟨dir, hServes⟩ :=
    servesLedger_of_isVacant hPlain Disk.wellFormed_empty Session.Sample.isVacant hCreate
  obtain ⟨-, -, -, hWorld⟩ := openForWrite_of_isVacant hPlain Disk.wellFormed_empty
    Session.Sample.isVacant hCreate
  obtain ⟨b, hRegister, hRegistered⟩ :=
    hServes.registerField Session.Sample.isBuilt_temperature respond_register
  rw [hId, hCreatedAt] at hRegistered
  exact ⟨a, m, b, dir, hCreate, hWorld, hRegister, hRegistered⟩

/-- The blob is stored then. -/
theorem exists_stored : ∃ a m b c m', create = .ok a m ∧
    register.perform a m = ⟨none, none, b, m⟩ ∧ store.perform b m = ⟨some blob, none, c, m'⟩ ∧
    b.isClosed = false ∧ b.tables.readsBack = true ∧ c.tables.readsBack = true := by
  obtain ⟨a, m, b, dir, hCreate, hWorld, hRegister, hRegistered⟩ := exists_registered
  have hPlain := Layout.hasPlainNames_of_make Session.Sample.layout_eq
  obtain ⟨appended, hRespond⟩ := exists_respond_append
  obtain ⟨c, m', hStore, hStored⟩ := hRegistered.store hPlain
    (fun n => by rw [hWorld]; rfl) hRespond injOn_registered (by decide)
    (by rw [hWorld]; exact writable_of_mem (by simp))
  obtain ⟨saved, hFollows, -⟩ := hRegistered.ledger
  obtain ⟨arena, data, hArena, -⟩ := hFollows.arena
  have hOpen : b.isClosed = false := by
    rw [isClosed, hArena]
    rfl
  exact ⟨a, m, b, c, m', hCreate, hRegister, hStore, hOpen, hRegistered.readsBack_eq.trans rfl,
    hStored.readsBack_eq.trans rfl⟩

/-- The commands store the blob. -/
theorem exists_run : ∃ a m x y, create = .ok a m ∧ run [register, store] a m = [x, y] ∧
    storedBy [x, y] = [blob] ∧ x.tables.readsBack = true ∧ y.tables.readsBack = true ∧
    y.command = store ∧ y.error = none := by
  obtain ⟨a, m, b, c, m', hCreate, hRegister, hStore, -, hReads, hReads'⟩ := exists_stored
  refine ⟨a, m, ⟨register, none, none, m.changesTo m, b.tables⟩,
    ⟨store, some blob, none, m.changesTo m', c.tables⟩, hCreate, ?_, rfl, hReads, hReads', rfl, rfl⟩
  rw [run, hRegister, run, hStore, run]

/-- Wherever the commands stop, the archive can be opened, and after them it has the
blob. -/
theorem crash_consistent_sample : ∃ a m, create = .ok a m ∧
    ∀ count part, ∃ a' later,
      openForRead Session.Sample.layout (.start m.environment
        (m.disk.stopped (changesOf (run [register, store] a m)) count part)) = .ok a' later ∧
      ((changesOf (run [register, store] a m)).length ≤ count →
        ∃ e ∈ a'.tables.offsets.entries, e.field = "T") := by
  obtain ⟨a, m, x, y, hCreate, hRun, hStored, hReads, hReads', hCommand, hNone⟩ := exists_run
  refine ⟨a, m, hCreate, fun count part => ?_⟩
  have hBuilt : ∀ c ∈ [register, store], c.IsBuilt := by
    rintro c hc
    simp only [List.mem_cons, List.not_mem_nil, or_false] at hc
    rcases hc with rfl | rfl
    · exact Session.Sample.isBuilt_temperature
    · trivial
  have hKept : ∀ x ∈ run [register, store] a m, x.tables.readsBack = true := by
    rw [hRun]
    simp [hReads, hReads']
  have hDigest : Set.InjOn (Checksum.compute Session.Sample.settings.checksum)
      (bytesOf (storedBy (run [register, store] a m))) := by
    rw [hRun, hStored]
    simp [bytesOf]
  obtain ⟨doc, data, -, -, -, hOpen, -, -, hDurable⟩ := crash_consistent
    Session.Sample.layout_eq Disk.wellFormed_empty Session.Sample.isVacant hCreate hBuilt hKept
    hDigest count part
  obtain ⟨a', hReader, hRestores⟩ := hOpen (.start m.environment _) rfl
  refine ⟨a', _, hReader, fun hCount => ?_⟩
  rw [hRun] at hCount
  obtain ⟨e, he, hEntry⟩ := hDurable [x] y [] blob hRun hCommand hNone hCount
  rw [hRestores.entries]
  exact ⟨e, he, hEntry.field⟩

end Sample
end Archive
end FieldArchive

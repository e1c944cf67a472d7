import FieldArchive.Proofs.Session.Answering

/-!
# Sessions that complete

A session that was opened on a new archive can be closed after any requests if the
file system does not fail from then on (`Session.Visit.exists_run`).  The module ends with
two sessions on one archive that complete: a field is stored at three steps, twice with
the same values, and each session has a snapshot of a step that is taken.
-/

namespace FieldArchive.Session

section Closing

variable {l : Layout} {s : Settings} {dir : NodeId} {live saved : Ledger} {session : Session}
  {m m₁ : Machine} {log : List Event} {directory stem : String} {visit : Visit}

theorem FollowsLog.close_of_staysCalm (h : FollowsLog l s dir exact log live saved session m)
    (hCalm : m.StaysCalm) {slot : Slot} (hSlot : m.disk.locateFile l.temporary = .ok slot)
    (hLength : ∀ n, (Disk.textBytes
      (session.primary.document (m.environment.clock n)).text).length ≤ Disk.maxFileLength) :
    ∃ session' m', close (session, m) = .ok () (session', m') ∧
      session'.primary.tables = session.primary.tables := by
  obtain ⟨a', m', hClose⟩ := h.archive.close_of_staysCalm hCalm hSlot hLength
  obtain ⟨-, -, -, hTables, -⟩ := h.archive.close_ok hClose
  obtain ⟨session', hRest⟩ :=
    closeReference_ok { session with status := .closed, primary := a' } h.reference m'
  refine ⟨session', m', ?_, by rw [hRest.2, hTables]⟩
  simp only [close, h.status, reduceCtorEq, if_false, onPrimary, hClose]
  exact hRest.1

/-- The first session of an archive, if the file system fails no more when it is closed. -/
theorem Visit.exists_run (hSettings : visit.config.settings = .ok s)
    (hLayout : Layout.make directory stem = .ok l) (hWell : m.disk.WellFormed)
    (hVacant : l.IsVacant m) (hBuilt : ∀ r ∈ visit.requests, r.IsBuilt)
    (hOpen : openWith directory stem .write visit.reference visit.config m = .ok session m₁)
    {events : List Event} {session' : Session} {m₂ : Machine}
    (hServe : serve visit.requests (session, m₁) = (events, session', m₂))
    (hCalm : ∀ n, m₂.calls ≤ n → m.environment.fault n = none)
    (hDigest : Set.InjOn (Checksum.compute s.checksum) (written s.endianness events))
    {slot : Slot} (hSlot : m₂.disk.locateFile l.temporary = .ok slot)
    (hLength : ∀ n, (Disk.textBytes
      (session'.primary.document (m.environment.clock n)).text).length ≤ Disk.maxFileLength) :
    ∃ v, visit.run directory stem m = some v ∧ v.events = events ∧
      v.session.primary.tables = session'.primary.tables := by
  obtain ⟨settings, a, other, durability, hSame, hReference, hArchive, rfl⟩ :=
    openWith_ok hLayout hOpen
  obtain ⟨-, hOther⟩ := openReference_ok hReference
  obtain rfl : s = settings := Except.ok.inj (hSettings.symm.trans hSame)
  obtain ⟨dir, hFollows, -, hWorld⟩ :=
    Archive.openForWrite_of_isVacant (Layout.hasPlainNames_of_make hLayout) hWell hVacant hArchive
  have hSession := followsLog_ofArchives durability hFollows hOther (Ledger.accounts_empty s)
    fun _ => isExact_nil s
  obtain ⟨live', saved', hServed, hKept⟩ := hSession.serve hBuilt (by rw [hServe]; exact hDigest)
  rw [hServe] at hServed hKept
  have hEnvironment : m₂.environment = m.environment := hKept.trans hWorld
  obtain ⟨closed, m', hClose, hTables⟩ := hServed.close_of_staysCalm
    (fun n hLe => by rw [hEnvironment]; exact hCalm n hLe) hSlot
    (fun n => by rw [hEnvironment]; exact hLength n)
  refine ⟨⟨events, closed, m'⟩, ?_, rfl, hTables⟩
  simp only [Visit.run, hOpen, hServe, hClose]

end Closing

/-! ## A run that completes -/

namespace Sample

/-- A new machine without failures, and without time. -/
def start : Machine := .start ⟨fun _ => "", fun _ => default, fun _ => none⟩ .empty

def config : Config := Config.standard.withChecksum .xxh3

def settings : Settings := ⟨.little, .double, .xxh3⟩

def layout : Layout := ⟨"", "a"⟩

def temperature : FieldInfo := ⟨"T", .int32, 4, [2], [⟨0, 0⟩], .empty⟩

/-- A step of a member of an ensemble. -/
def step (n : Int32) : Savepoint :=
  ⟨"step", (Metainfo.empty.set "number" (.int32 n)).set "member" (.int32 7)⟩

/-- Two snapshots with the same values, and one that is refused. -/
def first : List Request :=
  [.writeField (step 0) "T" temperature (.int32 [1, 2]),
   .write (step 1) "T" (.int32 [1, 2]),
   .write (step 1) "T" (.int32 [3, 4]),
   .stats]

/-- A key that the first session has stored, and a new step of the same field. -/
def second : List Request :=
  [.write (step 1) "T" (.int32 [3, 4]),
   .writeField (step 2) "T" temperature (.int32 [3, 4])]

/-- Two sessions on one archive. -/
def visits : List Visit := [⟨config, none, first⟩, ⟨config, none, second⟩]

/-- The answers to the requests of both sessions. -/
def log : List Event := (answersOf settings .standard .empty [first, second]).flatten

theorem settings_eq : config.settings = .ok settings := by rfl

theorem validate_standard : Config.standard.validate = .ok () := by rfl

theorem layout_eq : Layout.make "" "a" = .ok layout := by rfl

theorem isVacant : layout.IsVacant start := by
  intro m' h
  cases h
  decide +kernel

theorem isCalm_start : start.IsCalm := fun _ => rfl

theorem isBuilt_temperature : temperature.IsBuilt := FieldInfo.isBuilt_iff.2 (by decide +kernel)

theorem isBuilt_first : ∀ r ∈ first, r.IsBuilt := by
  simp [first, Request.IsBuilt, isBuilt_temperature]

theorem isBuilt_second : ∀ r ∈ second, r.IsBuilt := by
  simp [second, Request.IsBuilt, isBuilt_temperature]

theorem isBuilt : ∀ visit ∈ visits, ∀ r ∈ visit.requests, r.IsBuilt :=
  List.forall_mem_cons.2 ⟨isBuilt_first, List.forall_mem_singleton.2 isBuilt_second⟩

/-- Requests to an archive of the machine are workable if documents stay short and the digest
tells the payloads apart. -/
theorem workable_of_short {view : View} {requests : List Request}
    (hBuilt : ∀ r ∈ requests, r.IsBuilt)
    (hDistinct : ∀ p ∈ view.ledger.payloads ++ requests.filterMap (Request.payload? settings),
      ∀ q ∈ view.ledger.payloads ++ requests.filterMap (Request.payload? settings),
        Checksum.compute .xxh3 p = Checksum.compute .xxh3 q → p = q)
    (hRoom : ∀ live ∈ view.ledgers settings requests, ∀ r ∈ requests, ∀ p ∈ r.payload? settings,
      live.content.length + p.length ≤ Disk.maxFileLength)
    (hShort : ∀ live ∈ view.flushed settings .standard requests,
      (Json.render .pretty 0 (live.document default "" "" settings).toJson).length ≤ 4096) :
    Workable settings .standard default "" start.environment view requests where
  built := hBuilt
  injective := by
    have hMem : ∀ p, (p ∈ view.ledger.payloads ∨ ∃ r ∈ requests, r.payload? settings = some p) →
        p ∈ view.ledger.payloads ++ requests.filterMap (Request.payload? settings) := by
      rintro p (hOld | ⟨r, hr, hBytes⟩)
      · exact List.mem_append_left _ hOld
      · exact List.mem_append_right _ (List.mem_filterMap.2 ⟨r, hr, hBytes⟩)
    intro p hp q hq hSame
    exact hDistinct p (hMem p hp) q (hMem q hq) hSame
  room := hRoom
  writable live hLive _ := Document.length_textBytes_le_max (hShort live hLive)

theorem allWorkable :
    AllWorkable settings .standard default "" start.environment .empty [first, second] := by
  refine ⟨workable_of_short isBuilt_first ?_ ?_ ?_, ?_,
    workable_of_short isBuilt_second ?_ ?_ ?_, ?_, trivial⟩
  all_goals decide +kernel

/-- The archive is created. -/
theorem exists_openForWrite : ∃ a m, Archive.openForWrite layout settings config.syncData start =
    .ok a m ∧ a.id = default ∧ a.createdAt = "" := by
  decide +kernel

theorem reported_log : reported log =
    [⟨step 0, "T", .int32 [1, 2]⟩, ⟨step 1, "T", .int32 [1, 2]⟩, ⟨step 2, "T", .int32 [3, 4]⟩] := by
  rfl

theorem isIntact_log : IsIntact log := by
  unfold log
  simp only [answersOf, List.flatten_cons, List.flatten_nil, List.append_nil]
  exact isIntact_append.2 ⟨View.isIntact_answers .standard, View.isIntact_answers .standard⟩

/-- The digest tells the payloads of the run apart. -/
theorem injOn_log :
    Set.InjOn (Checksum.compute settings.checksum) (written settings.endianness log) := by
  have hDistinct : ∀ x ∈ reported log, ∀ y ∈ reported log,
      Checksum.compute .xxh3 (x.payload .little) = Checksum.compute .xxh3 (y.payload .little) →
        x.payload .little = y.payload .little := by
    rw [reported_log]
    decide +kernel
  rintro p ⟨x, hx, rfl⟩ q ⟨y, hy, rfl⟩ hSame
  rw [attempted_eq_reported isIntact_log] at hx hy
  exact hDistinct x hx y hy hSame

/-- The run completes. -/
theorem exists_run : ∃ v w, runAll "" "a" visits start = some [v, w] ∧ logOf [v, w] = log ∧
    v.session.primary.tables.readsBack = true ∧ w.session.primary.tables.readsBack = true := by
  obtain ⟨a, m, hOpen, hId, hCreatedAt⟩ := exists_openForWrite
  obtain ⟨visited, hRun, hEvents, hReads⟩ := exists_runAll layout_eq settings_eq
    (by rfl : config.durabilitySetting = .ok .standard) Disk.wellFormed_empty isVacant hOpen
    isCalm_start (by rw [hId, hCreatedAt]; exact allWorkable)
  have hLength : visited.length = 2 := by
    rw [← List.length_map Visited.events, hEvents]
    rfl
  obtain ⟨v, w, rfl⟩ := List.length_eq_two.1 hLength
  refine ⟨v, w, hRun, ?_, hReads v (by simp), hReads w (by simp)⟩
  rw [logOf, List.flatMap_def, hEvents, log]

end Sample
end FieldArchive.Session

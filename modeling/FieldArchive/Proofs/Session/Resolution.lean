import FieldArchive.Proofs.Archive.Loaded
import FieldArchive.Proofs.Session.Lifecycle
import FieldArchive.Proofs.Session.RefusedOpening
import FieldArchive.Proofs.Siblings

/-!
# Where reads find their answers

A session that is open for reading looks for a key in its archive and then in its
reference (`Session.read_resolution`).  What an archive has for a key does not depend on how
its tables are searched: `Archive.Provides` says it with the list of its entries and the
contents of its data file.  The archives may come from anywhere; it is enough that they
open, and that their data files are files that stay as they were.  Calls other than closing
leave the session and the machine as they are, apart from being enabled
(`InStep.perform_of_read`).
-/

namespace FieldArchive

theorem OffsetTable.isMiss_missOf (t : OffsetTable) (point : Savepoint) (name : String) :
    (t.missOf point name).isMiss = true := by
  unfold OffsetTable.missOf
  split <;> rfl

namespace Archive

variable {l : Layout} {m m' : Machine} {a : Archive} {d : Disk} {data : List UInt8}
  {point : Savepoint} {name : String} {info : FieldInfo} {bytes : List UInt8}

/-- The data file of an archive is the same file on two disks, with the same contents. -/
def KeepsData (a : Archive) (d d' : Disk) : Prop :=
  ∃ arena data, a.arena = some arena ∧ d.nodes[arena.file]? = some (.file data) ∧
    d'.nodes[arena.file]? = some (.file data)

/-- An archive has an entry for a key. -/
def HasEntry (a : Archive) (point : Savepoint) (name : String) : Prop :=
  ∃ e, a.tables.offsets.IsEntryAt e point name

/-- What an archive has for a key: the description of the field, and the range of the data
file that the entry of the key tells. -/
structure Provides (a : Archive) (d : Disk) (point : Savepoint) (name : String)
    (info : FieldInfo) (bytes : List UInt8) : Prop where
  described : a.tables.catalog.find? name = some info
  stored : ∃ e arena, a.tables.offsets.IsEntryAt e point name ∧ a.arena = some arena ∧
    bytes = ((d.contents arena.file).drop e.record.extent.offset).take e.record.extent.length
  length : bytes.length = info.byteSize

/-- An archive that opens can be relied on while its data file stays as it was. -/
theorem exists_isServed (hOpen : openForRead l m = .ok a m') (hData : a.KeepsData m.disk d) :
    ∃ data, a.IsServed d data := by
  obtain ⟨arena, data, hArena, hBefore, hAfter⟩ := hData
  obtain ⟨-, -, doc, tables, file, -, -, hFind, -, hSame⟩ := openForRead_eq_ok_iff.1 hOpen
  have hFile : arena.file = file := by
    rw [hSame] at hArena
    cases hArena
    rfl
  rw [hFile] at hBefore hAfter
  exact ⟨data, isServed_of_openForRead hOpen hFind hBefore hAfter⟩

/-- An archive with an entry has something for its key. -/
theorem IsServed.exists_provides (h : a.IsServed d data) (hEntry : a.HasEntry point name) :
    ∃ info bytes, a.Provides d point name info bytes := by
  obtain ⟨e, he⟩ := hEntry
  obtain ⟨info, hInfo, hSize, -⟩ := h.described e he.mem
  obtain ⟨arena, hArena, -, hNode, -⟩ := h.arena
  have hContents : d.contents arena.file = data := by simp [Disk.contents, hNode]
  refine ⟨info, _, he.field_eq ▸ hInfo, ⟨e, arena, he, hArena, rfl⟩, ?_⟩
  rw [hContents, h.length_of_entry he.mem, hSize]

theorem IsServed.readBytes_of_provides (h : a.IsServed d data)
    (hProvides : a.Provides d point name info bytes) : a.readBytes d point name = .ok bytes := by
  obtain ⟨e, opened, he, hOpened, rfl⟩ := hProvides.stored
  obtain ⟨arena, hArena, -, hNode, -⟩ := h.arena
  obtain rfl : opened = arena := Option.some.inj (hOpened.symm.trans hArena)
  have hContents : d.contents opened.file = data := by simp [Disk.contents, hNode]
  rw [h.readBytes_of_entry he, hContents]

theorem IsServed.contains_iff (h : a.IsServed d data) :
    a.tables.offsets.contains point name = true ↔ a.HasEntry point name := by
  constructor
  · intro hContains
    by_contra hNone
    rw [OffsetTable.contains, h.offsets.lookup_of_no_entry hNone] at hContains
    cases hContains
  · rintro ⟨e, he⟩
    obtain ⟨hMem, rfl, known, hKnown, hSame⟩ := he
    rw [OffsetTable.contains, h.offsets.lookup_of_mem hMem hKnown hSame]
    rfl

/-! ## Archives over documents -/

section Documents

variable {mode : Mode} {doc : Document} {tables : Tables} {arena : Arena} {sync : Bool}

theorem hasEntry_ofDocument_iff (hTables : doc.tables = .ok tables) :
    (ofDocument l mode doc tables arena sync).HasEntry point name ↔
      ∃ e ∈ doc.offsets, e.field = name ∧
        ∃ known, doc.savepoints[e.savepoint]? = some known ∧ (known == point) = true := by
  have hRepresents := Document.tables_ok hTables
  rw [← hRepresents.entries, ← hRepresents.savepoints]
  constructor
  · rintro ⟨e, he, hField, hKnown⟩
    exact ⟨e, he, hField, hKnown⟩
  · rintro ⟨e, he, hField, hKnown⟩
    exact ⟨e, he, hField, hKnown⟩

theorem provides_ofDocument (hTables : doc.tables = .ok tables) {e : OffsetEntry}
    (he : e ∈ doc.offsets) (hKnown : doc.savepoints[e.savepoint]? = some point)
    (hInfo : doc.fields.find? (·.name == e.field) = some info)
    (hNode : d.nodes[arena.file]? = some (.file data))
    (hBytes : bytes = (data.drop e.record.extent.offset).take e.record.extent.length)
    (hLength : bytes.length = info.byteSize) :
    (ofDocument l mode doc tables arena sync).Provides d point e.field info bytes := by
  have hRepresents := Document.tables_ok hTables
  have hContents : d.contents arena.file = data := by simp [Disk.contents, hNode]
  refine ⟨?_, ⟨e, arena, ⟨?_, rfl, point, ?_, BEq.rfl⟩, rfl, by rw [hContents, hBytes]⟩, hLength⟩
  · show tables.catalog.find? e.field = some info
    rw [hRepresents.catalog.find?_eq, hRepresents.fields, hInfo]
  · show e ∈ tables.offsets.entries
    rwa [hRepresents.entries]
  · show tables.offsets.savepoints[e.savepoint]? = some point
    rwa [hRepresents.savepoints]

end Documents

end Archive

namespace Session

variable {session : Session} {m : Machine} {d : Disk} {point : Savepoint} {name : String}
  {info : FieldInfo} {bytes data : List UInt8} {a : Archive} {rest : List Archive}

/-! ## Calls while a session is open for reading -/

/-- What is asked of a session that is open for reading changes nothing, unless it is to be
enabled or disabled. -/
theorem InStep.request_of_read (h : session.InStep) (hStatus : session.status = .openForRead)
    (request : Request) (m : Machine) : ∃ enabled,
      (request.perform (session, m)).2 = ({ session with enabled := enabled }, m) := by
  have hWrites : ∀ operation, request.operation? = some operation →
      operation.isTakenIn .openForRead = false →
      ∃ enabled, (request.perform (session, m)).2 = ({ session with enabled := enabled }, m) := by
    intro operation hOperation hRefused
    rw [← hStatus] at hRefused
    exact ⟨session.enabled, by rw [request.perform_of_refused hOperation hRefused]⟩
  cases request with
  | enable => exact ⟨true, rfl⟩
  | disable => exact ⟨false, rfl⟩
  | flush =>
      have hMode : session.primary.mode = .read :=
        ((Archive.status_eq_iff .read).1 (h.status.symm.trans hStatus)).1
      refine ⟨session.enabled, ?_⟩
      simp only [Request.perform, Reply.ofAction, Session.flush]
      rw [get_bind, Effect.ofExcept_bind]
      simp [requireOpen, hStatus, onPrimary, Archive.flush, hMode]
  | stats =>
      refine ⟨session.enabled, ?_⟩
      simp only [Request.perform]
      split <;> rfl
  | _ => exact hWrites _ rfl rfl

/-- The same is true of every call but the one to close. -/
theorem InStep.perform_of_read (h : session.InStep) (hStatus : session.status = .openForRead)
    {call : Call} (hCall : call.isClose = false) (m : Machine) : ∃ enabled,
      (call.perform session m).session = { session with enabled := enabled } ∧
        (call.perform session m).machine = m := by
  rcases call.cases_perform session m with ⟨request, rfl⟩ | rfl | ⟨-, hSession, hMachine⟩
  · obtain ⟨enabled, hRequest⟩ := h.request_of_read hStatus request m
    exact ⟨enabled, congrArg Prod.fst hRequest, congrArg Prod.snd hRequest⟩
  · cases hCall
  · exact ⟨session.enabled, hSession, hMachine⟩

theorem InStep.afterTurns_of_read (h : session.InStep) (hStatus : session.status = .openForRead)
    {turns : List Turn} (hTurns : ∀ x ∈ turns, x.call.isClose = false) :
    ∃ enabled, Session.afterTurns turns session = { session with enabled := enabled } := by
  induction turns generalizing session with
  | nil => exact ⟨session.enabled, rfl⟩
  | cons x rest ih =>
      obtain ⟨enabled, hSession, -⟩ :=
        h.perform_of_read hStatus (hTurns x List.mem_cons_self) x.machine
      have hNext : InStep { session with enabled := enabled } := ⟨h.orderly, h.status, h.reference⟩
      obtain ⟨last, hLast⟩ := ih hNext hStatus fun y hy => hTurns y (List.mem_cons_of_mem _ hy)
      exact ⟨last, by rw [Session.afterTurns, Turn.outcome, hSession, hLast]⟩

/-! ## Looking through archives -/

theorem findIn_of_provides (h : a.IsServed d data) (hProvides : a.Provides d point name info bytes)
    (rest : List Archive) : findIn d point name (a :: rest) = .ok (some ⟨a, info, bytes⟩) := by
  rw [findIn, h.readBytes_of_provides hProvides]
  simp only [hProvides.described]

theorem findIn_of_no_entry (h : a.IsServed d data) (hNone : ¬ a.HasEntry point name)
    (rest : List Archive) : findIn d point name (a :: rest) = findIn d point name rest := by
  rw [findIn, h.readBytes_of_no_entry hNone]
  simp only [OffsetTable.isMiss_missOf, if_true]

theorem findIn_of_all {archives : List Archive}
    (hServed : ∀ a ∈ archives, ∃ data, a.IsServed d data)
    (hNone : ∀ a ∈ archives, ¬ a.HasEntry point name) :
    findIn d point name archives = .ok none := by
  induction archives with
  | nil => rfl
  | cons a rest ih =>
      obtain ⟨data, h⟩ := hServed a List.mem_cons_self
      rw [findIn_of_no_entry h (hNone a List.mem_cons_self)]
      exact ih (fun b hb => hServed b (List.mem_cons_of_mem _ hb))
        fun b hb => hNone b (List.mem_cons_of_mem _ hb)

/-- How a session misses a key: it tells whether one of its archives lists the savepoint. -/
def missOf (session : Session) (point : Savepoint) (name : String) : Error :=
  if session.archives.any fun a => a.tables.offsets.savepoints.any (· == point) then
    .fieldNotFound point name
  else .savepointNotFound point

theorem read_of_found (hStatus : session.status = .openForRead) {found : Found}
    (hFound : findIn d point name session.archives = .ok (some found)) :
    session.readRaw d point name = .ok (found.info, found.bytes) ∧
      session.readField d point name =
        (Codec.ofSettings found.archive.settings).decode found.info found.bytes := by
  have hLocate : session.locate d point name = .ok found := by
    simp [locate, require, hStatus, hFound, bind, Except.bind, pure, Except.pure]
  simp only [readRaw, readField, hLocate, bind, Except.bind, pure, Except.pure, and_self]

theorem read_of_none (hStatus : session.status = .openForRead)
    (hOffsets : ∀ a ∈ session.archives, a.tables.offsets.IsCoherent)
    (hNone : findIn d point name session.archives = .ok none) :
    session.readRaw d point name = .error (session.missOf point name) ∧
      session.readField d point name = .error (session.missOf point name) := by
  have hKnows : session.knowsSavepoint point =
      session.archives.any fun a => a.tables.offsets.savepoints.any (· == point) := by
    rw [knowsSavepoint, Bool.eq_iff_iff, List.any_eq_true, List.any_eq_true]
    exact exists_congr fun a => and_congr_right fun ha => by
      rw [(hOffsets a ha).isSome_savepointId? point]
  have hLocate : session.locate d point name = .error (session.missOf point name) := by
    simp only [locate, require, hStatus, ne_eq, not_true_eq_false, if_false, hNone, hKnows, missOf,
      bind, Except.bind]
    split <;> rfl
  simp only [readRaw, readField, hLocate, bind, Except.bind, and_self]

section Served

variable (hStatus : session.status = .openForRead)
  (hServed : ∀ a ∈ session.archives, ∃ data, a.IsServed d data)

include hStatus hServed

theorem read_of_primary (hProvides : session.primary.Provides d point name info bytes) :
    session.readRaw d point name = .ok (info, bytes) ∧
      session.readField d point name =
        (Codec.ofSettings session.primary.settings).decode info bytes := by
  obtain ⟨data, h⟩ := hServed session.primary List.mem_cons_self
  have hFound : findIn d point name session.archives =
      .ok (some ⟨session.primary, info, bytes⟩) := findIn_of_provides h hProvides _
  exact read_of_found hStatus hFound

theorem read_of_reference (hNone : ¬ session.primary.HasEntry point name) {other : Archive}
    (hOther : session.reference = some other)
    (hProvides : other.Provides d point name info bytes) :
    session.readRaw d point name = .ok (info, bytes) ∧
      session.readField d point name = (Codec.ofSettings other.settings).decode info bytes := by
  have hList : session.archives = [session.primary, other] := by
    rw [archives, hOther]
    rfl
  rw [hList] at hServed
  obtain ⟨data, h⟩ := hServed session.primary List.mem_cons_self
  obtain ⟨data', h'⟩ := hServed other (List.mem_cons_of_mem _ List.mem_cons_self)
  have hFound : findIn d point name session.archives = .ok (some ⟨other, info, bytes⟩) := by
    rw [hList, findIn_of_no_entry h hNone]
    exact findIn_of_provides h' hProvides []
  exact read_of_found hStatus hFound

theorem read_of_no_entry (hNone : ∀ a ∈ session.archives, ¬ a.HasEntry point name) :
    session.readRaw d point name = .error (session.missOf point name) ∧
      session.readField d point name = .error (session.missOf point name) := by
  refine read_of_none hStatus (fun a ha => ?_) (findIn_of_all hServed hNone)
  obtain ⟨_, h⟩ := hServed a ha
  exact h.offsets

theorem exists_readRaw (hEntry : ∃ a ∈ session.archives, a.HasEntry point name) :
    ∃ answer, session.readRaw d point name = .ok answer := by
  by_cases hFirst : session.primary.HasEntry point name
  · obtain ⟨_, h⟩ := hServed session.primary List.mem_cons_self
    obtain ⟨info, bytes, hProvides⟩ := h.exists_provides hFirst
    exact ⟨_, (read_of_primary hStatus hServed hProvides).1⟩
  · obtain ⟨a, ha, hHas⟩ := hEntry
    obtain ⟨_, h⟩ := hServed a ha
    obtain ⟨info, bytes, hProvides⟩ := h.exists_provides hHas
    rcases List.mem_cons.1 ha with rfl | hReference
    · exact absurd hHas hFirst
    · exact ⟨_, (read_of_reference hStatus hServed hFirst (Option.mem_toList.1 hReference)
        hProvides).1⟩

/-- A session has a field if and only if its bytes can be read. -/
theorem hasField_of_served :
    session.hasField point name = .ok (session.readRaw d point name).isOk := by
  have hField : session.hasField point name =
      .ok (session.archives.any fun a => a.tables.offsets.contains point name) := by
    simp [hasField, requireOpen, hStatus, bind, Except.bind, pure, Except.pure]
  rw [hField]
  congr 1
  by_cases hEntry : ∃ a ∈ session.archives, a.HasEntry point name
  · obtain ⟨answer, hAnswer⟩ := exists_readRaw hStatus hServed hEntry
    obtain ⟨a, ha, hHas⟩ := hEntry
    obtain ⟨_, h⟩ := hServed a ha
    rw [hAnswer]
    exact List.any_eq_true.2 ⟨a, ha, h.contains_iff.2 hHas⟩
  · push Not at hEntry
    rw [(read_of_no_entry hStatus hServed hEntry).1]
    refine List.any_eq_false.2 fun a ha hContains => ?_
    obtain ⟨_, h⟩ := hServed a ha
    exact hEntry a ha (h.contains_iff.1 hContains)

end Served

/-- A reference is opened as its archive is. -/
theorem openReference_of_openForRead {l sibling : Layout} {stem : String} {m' : Machine}
    (hNe : stem ≠ l.stem) (hMade : l.sibling stem = .ok sibling)
    (hRead : Archive.openForRead sibling m = .ok a m') :
    openReference l (some stem) m = .ok (some a) m' := by
  rw [openReference, if_neg hNe, hMade]
  show (Effect.ofExcept (.ok sibling) >>= _ : Effect (Option Archive)) m = _
  rw [Effect.ofExcept_bind]
  dsimp only
  rw [bind_of_ok hRead]
  rfl

/-- The archives of a session for reading were all opened for reading, under the stems that
were given. -/
theorem openForRead_of_mem {directory stem : String} {reference : Option String}
    {config : Config} {start : Machine}
    (hOpen : openWith directory stem .read reference config start = .ok session m) :
    ∀ a ∈ session.archives, ∃ given l, (given = stem ∨ reference = some given) ∧
      Layout.make directory given = .ok l ∧ Archive.openForRead l start = .ok a start := by
  obtain ⟨l, hLayout⟩ := exists_layout_of_openWith hOpen
  obtain ⟨_, a, other, _, -, hOther, hPrimary, rfl⟩ := openWith_ok hLayout hOpen
  obtain ⟨rfl, -⟩ := Archive.openForRead_unchanged hPrimary
  intro r hr
  rcases List.mem_cons.1 hr with rfl | hReference
  · exact ⟨stem, l, Or.inl rfl, hLayout, hPrimary⟩
  · cases reference with
    | none =>
        cases hOther
        cases hReference
    | some given =>
        simp only [openReference] at hOther
        split at hOther
        · cases hOther
        · obtain ⟨sibling, m₁, hMade, hOpened⟩ := bind_eq_ok hOther
          obtain ⟨hSibling, rfl⟩ := Effect.ofExcept_ok hMade
          obtain ⟨found, m₂, hRead, hDone⟩ := bind_eq_ok hOpened
          obtain ⟨rfl, -⟩ := Archive.openForRead_unchanged hRead
          cases hDone
          rw [List.mem_singleton.1 hReference]
          rw [Layout.make_eq_ok hLayout] at hSibling
          exact ⟨given, sibling, Or.inr rfl, mapError_eq_ok_iff.1 hSibling, hRead⟩

/-- Where a session that was opened for reading, and not closed since, finds a key.  If its
archive has an entry, the answer is what that archive has; if it has none and the reference
has one, the answer is what the reference has.  It is decoded as the archive declares that
has it.  If neither has an entry the key is missed, and the error tells whether one of
them lists the savepoint.  An archive with an entry always has an answer, so the
session has a field if and only if its bytes can be read.

The archives may come from anywhere, and anything may be done to the disk since they were
opened, as long as their data files stay as they were. -/
theorem read_resolution {directory stem : String} {reference : Option String} {config : Config}
    {start : Machine} {opened : Session}
    (hOpen : openWith directory stem .read reference config start = .ok opened m)
    {turns : List Turn} (hTurns : ∀ x ∈ turns, x.call.isClose = false)
    (hData : ∀ a ∈ opened.archives, a.KeepsData start.disk d) (point : Savepoint)
    (name : String) :
    let session := afterTurns turns opened
    (∀ info bytes, opened.primary.Provides d point name info bytes →
      session.readRaw d point name = .ok (info, bytes) ∧
      session.readField d point name =
        (Codec.ofSettings opened.primary.settings).decode info bytes) ∧
    (¬ opened.primary.HasEntry point name → ∀ other, opened.reference = some other →
      ∀ info bytes, other.Provides d point name info bytes →
        session.readRaw d point name = .ok (info, bytes) ∧
        session.readField d point name = (Codec.ofSettings other.settings).decode info bytes) ∧
    ((∀ a ∈ opened.archives, ¬ a.HasEntry point name) →
      session.readRaw d point name = .error (opened.missOf point name) ∧
      session.readField d point name = .error (opened.missOf point name)) ∧
    (∀ a ∈ opened.archives, a.HasEntry point name →
      ∃ info bytes, a.Provides d point name info bytes) ∧
    session.hasField point name = .ok (session.readRaw d point name).isOk := by
  obtain ⟨hStep, hStatus⟩ := inStep_of_openWith hOpen
  obtain ⟨enabled, hSession⟩ := hStep.afterTurns_of_read hStatus hTurns
  have hServed : ∀ a ∈ opened.archives, ∃ data, a.IsServed d data := by
    intro a ha
    obtain ⟨_, l, -, -, hRead⟩ := openForRead_of_mem hOpen a ha
    exact Archive.exists_isServed hRead (hData a ha)
  -- the session differs from the one that was opened in nothing that a read looks at
  intro session
  have hNow : session.status = .openForRead := by rw [show session = _ from hSession]; exact hStatus
  have hArchives : session.archives = opened.archives := by rw [show session = _ from hSession]; rfl
  have hPrimary : session.primary = opened.primary := by rw [show session = _ from hSession]
  have hReference : session.reference = opened.reference := by
    rw [show session = _ from hSession]
  have hMiss : session.missOf point name = opened.missOf point name := by
    rw [missOf, missOf, hArchives]
  rw [← hArchives] at hServed
  rw [← hPrimary, ← hReference, ← hArchives, ← hMiss]
  refine ⟨fun info bytes => read_of_primary hNow hServed,
    fun hNone other hOther info bytes => read_of_reference hNow hServed hNone hOther,
    read_of_no_entry hNow hServed, fun a ha hEntry => ?_, hasField_of_served hNow hServed⟩
  obtain ⟨_, h⟩ := hServed a ha
  exact h.exists_provides hEntry

/-! ## Two archives -/

namespace Sample

/-- An archive that describes one field otherwise than `Archive.Foreign.document` does, has
one of its own, and lists one savepoint more. -/
def earlier : Document :=
  { formatVersion := 1
    id := default
    createdAt := ""
    updatedAt := ""
    settings := ⟨.big, .double, .xxh3⟩
    metainfo := .empty
    fields := [⟨"T", .int64, 8, [1], [⟨0, 0⟩], .empty⟩, ⟨"Q", .int32, 4, [1], [⟨0, 0⟩], .empty⟩]
    savepoints := [⟨"step", .empty⟩, ⟨"stop", .empty⟩]
    offsets :=
      [⟨0, "T", ⟨⟨"0000000000000002"⟩, ⟨0, 8⟩⟩⟩, ⟨0, "Q", ⟨⟨"0000000000000003"⟩, ⟨8, 4⟩⟩⟩]
    dataLength := 12 }

/-- Metadata files and data files of two archives. -/
def pair (first second : List UInt8) : Disk :=
  ⟨⟨[(⟨0, "a.json"⟩, 1), (⟨0, "a.dat"⟩, 2), (⟨0, "b.json"⟩, 3), (⟨0, "b.dat"⟩, 4)]⟩,
    [.directory, .file first, .file Archive.Foreign.content, .file second,
      .file [0, 0, 0, 0, 0, 0, 0, 5, 0, 0, 0, 6]]⟩

def machine : Machine :=
  { start with
    disk := pair (Disk.textBytes Archive.Foreign.document.text) (Disk.textBytes earlier.text) }

-- The texts of the documents are variables here, so that no proof unfolds them.
theorem opens_pair {d : Disk} {first second : List UInt8} (h : d = pair first second) :
    d.readBytes Archive.Foreign.layout.metadata = .ok first ∧
    d.readBytes (⟨"", "b"⟩ : Layout).metadata = .ok second ∧
    Archive.Foreign.layout.checkReadable d = .ok () ∧
    (⟨"", "b"⟩ : Layout).checkReadable d = .ok () ∧
    d.find Archive.Foreign.layout.data = .ok 2 ∧ d.find (⟨"", "b"⟩ : Layout).data = .ok 4 ∧
    d.size 2 = 17 ∧ d.size 4 = 12 := by
  subst h
  exact ⟨rfl, rfl, rfl, rfl, rfl, rfl, rfl, rfl⟩

theorem isBounded_earlier : earlier.IsBounded where
  dataLength_lt := by decide
  offsets := by
    intro e he
    simp only [earlier, List.mem_cons, List.not_mem_nil, or_false] at he
    rcases he with rfl | rfl <;> exact ⟨by decide, by decide, by decide⟩

theorem exists_tables_earlier : ∃ tables, earlier.tables = .ok tables := by decide +kernel

/-- Both archives open. -/
theorem exists_openWith_pair : ∃ tables tables' opened,
    Archive.Foreign.document.tables = .ok tables ∧ earlier.tables = .ok tables' ∧
    openWith "" "a" .read (some "b") config machine = .ok opened machine ∧
    opened.primary = .ofDocument ⟨"", "a"⟩ .read Archive.Foreign.document tables
      ⟨(⟨"", "a"⟩ : Layout).data, 2, 16, false⟩ false ∧
    opened.reference = some (.ofDocument ⟨"", "b"⟩ .read earlier tables'
      ⟨(⟨"", "b"⟩ : Layout).data, 4, 12, false⟩ false) := by
  obtain ⟨tables, hTables⟩ := Archive.Foreign.exists_tables
  obtain ⟨tables', hTables'⟩ := exists_tables_earlier
  obtain ⟨hBytes, hBytes', hReadable, hReadable', hFind, hFind', hSize, hSize'⟩ :=
    opens_pair (show machine.disk = _ from rfl)
  have hLoad : Document.load machine.disk Archive.Foreign.layout.metadata =
      .ok Archive.Foreign.document := by
    rw [Document.load_of_text Archive.Foreign.isBounded rfl hBytes,
      Document.reread?_of_readsBack (by decide +kernel)]
  have hLoad' : Document.load machine.disk (⟨"", "b"⟩ : Layout).metadata = .ok earlier := by
    rw [Document.load_of_text isBounded_earlier rfl hBytes',
      Document.reread?_of_readsBack (by decide +kernel)]
  have hPrimary := Archive.openForRead_eq_ok_iff.2 ⟨rfl, hReadable, _, tables, 2, hLoad, hTables,
    hFind, by rw [hSize]; decide, rfl⟩
  have hOther := Archive.openForRead_eq_ok_iff.2 ⟨rfl, hReadable', _, tables', 4, hLoad', hTables',
    hFind', by rw [hSize']; decide, rfl⟩
  refine ⟨tables, tables', .ofArchives _ (some _) .standard, hTables, hTables', ?_, rfl, rfl⟩
  rw [openWith_of_layout (l := Archive.Foreign.layout) rfl settings_eq]
  have hReference := openReference_of_openForRead
    (show "b" ≠ Archive.Foreign.layout.stem by decide) rfl hOther
  rw [show config.durabilitySetting = .ok .standard from rfl]
  dsimp only
  rw [bind_of_ok hReference, bind_of_ok hPrimary]
  rfl

/-- A field of both archives is read from the first, a field of the other from that, in its
byte order; other keys are missed, with an error that tells whether one of the archives
lists the savepoint. -/
theorem read_resolution_pair : ∃ opened,
    openWith "" "a" .read (some "b") config machine = .ok opened machine ∧
    let session := afterTurns [⟨.request .disable, machine⟩] opened
    session.readRaw machine.disk ⟨"step", .empty⟩ "T" =
      .ok (⟨"T", .int32, 4, [2], [⟨0, 0⟩], .empty⟩, [1, 2, 3, 4, 5, 6, 7, 8]) ∧
    session.readField machine.disk ⟨"step", .empty⟩ "Q" = .ok (.int32 [6]) ∧
    session.readRaw machine.disk ⟨"stop", .empty⟩ "T" =
      .error (.fieldNotFound ⟨"stop", .empty⟩ "T") ∧
    session.readRaw machine.disk ⟨"later", .empty⟩ "T" =
      .error (.savepointNotFound ⟨"later", .empty⟩) ∧
    session.hasField ⟨"stop", .empty⟩ "T" = .ok false := by
  obtain ⟨tables, tables', opened, hTables, hTables', hOpen, hPrimary, hReference⟩ :=
    exists_openWith_pair
  have hArchives : opened.archives = [opened.primary, .ofDocument ⟨"", "b"⟩ .read earlier tables'
      ⟨(⟨"", "b"⟩ : Layout).data, 4, 12, false⟩ false] := by
    rw [archives, hReference]
    rfl
  have hData : ∀ a ∈ opened.archives, a.KeepsData machine.disk machine.disk := by
    intro a ha
    rw [hArchives, hPrimary] at ha
    simp only [List.mem_cons, List.not_mem_nil, or_false] at ha
    rcases ha with rfl | rfl
    · exact ⟨_, _, rfl, rfl, rfl⟩
    · exact ⟨_, _, rfl, rfl, rfl⟩
  -- the field that both archives describe has one entry, in the first
  have hNone : ∀ point, ((⟨"step", .empty⟩ : Savepoint) == point) = false →
      ∀ a ∈ opened.archives, ¬ a.HasEntry point "T" := by
    intro point hOther a ha hEntry
    rw [hArchives, hPrimary] at ha
    simp only [List.mem_cons, List.not_mem_nil, or_false] at ha
    rcases ha with rfl | rfl
    · obtain ⟨e, he, hField, known, hKnown, hSame⟩ :=
        (Archive.hasEntry_ofDocument_iff hTables).1 hEntry
      simp only [Archive.Foreign.document, List.mem_cons, List.not_mem_nil, or_false] at he
      rcases he with rfl | rfl <;> cases hKnown <;> rw [hOther] at hSame <;> cases hSame
    · obtain ⟨e, he, hField, known, hKnown, hSame⟩ :=
        (Archive.hasEntry_ofDocument_iff hTables').1 hEntry
      simp only [earlier, List.mem_cons, List.not_mem_nil, or_false] at he
      rcases he with rfl | rfl <;> cases hKnown <;> rw [hOther] at hSame <;> cases hSame
  have hMiss : ∀ point, opened.missOf point "T" =
      if (Archive.Foreign.document.savepoints ++ earlier.savepoints).any (· == point) then
        .fieldNotFound point "T" else .savepointNotFound point := by
    intro point
    rw [missOf, hArchives, hPrimary, ← (Document.tables_ok hTables).savepoints,
      ← (Document.tables_ok hTables').savepoints]
    simp only [List.any_cons, List.any_nil, Bool.or_false, List.any_append]
    rfl
  have hTurns : ∀ x ∈ [(⟨.request .disable, machine⟩ : Turn)], x.call.isClose = false := by
    intro x hx
    rw [List.mem_singleton.1 hx]
    rfl
  obtain ⟨hT, -⟩ := read_resolution hOpen hTurns hData ⟨"step", .empty⟩ "T"
  obtain ⟨-, hQ, -⟩ := read_resolution hOpen hTurns hData ⟨"step", .empty⟩ "Q"
  obtain ⟨-, -, hStop, -, hHas⟩ := read_resolution hOpen hTurns hData ⟨"stop", .empty⟩ "T"
  obtain ⟨-, -, hLater, -⟩ := read_resolution hOpen hTurns hData ⟨"later", .empty⟩ "T"
  have hStopped := (hStop (hNone _ (by decide))).1
  refine ⟨opened, hOpen, ?_, ?_, ?_, ?_, ?_⟩
  · refine (hT _ _ ?_).1
    rw [hPrimary]
    exact Archive.provides_ofDocument hTables (e := ⟨0, "T", ⟨⟨"0000000000000000"⟩, ⟨0, 8⟩⟩⟩)
      List.mem_cons_self rfl rfl
      (show machine.disk.nodes[2]? = some (.file Archive.Foreign.content) from rfl) rfl rfl
  · refine (hQ ?_ _ hReference ⟨"Q", .int32, 4, [1], [⟨0, 0⟩], .empty⟩ [0, 0, 0, 6] ?_).2
    · rw [hPrimary, Archive.hasEntry_ofDocument_iff hTables]
      rintro ⟨e, he, hField, -⟩
      simp only [Archive.Foreign.document, List.mem_cons, List.not_mem_nil, or_false] at he
      rcases he with rfl | rfl <;> exact absurd hField (by decide)
    · exact Archive.provides_ofDocument hTables' (e := ⟨0, "Q", ⟨⟨"0000000000000003"⟩, ⟨8, 4⟩⟩⟩)
        (List.mem_cons_of_mem _ List.mem_cons_self) rfl rfl
        (show machine.disk.nodes[4]? = some (.file [0, 0, 0, 0, 0, 0, 0, 5, 0, 0, 0, 6]) from rfl)
        rfl rfl
  · rw [hStopped, hMiss]
    rfl
  · rw [(hLater (hNone _ (by decide))).1, hMiss]
    rfl
  · rw [hHas, hStopped]
    rfl

end Sample
end Session
end FieldArchive

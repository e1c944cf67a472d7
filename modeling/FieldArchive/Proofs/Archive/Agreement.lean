import FieldArchive.Proofs.Archive.Lengths

/-!
# Tables that agree

An archive notes what it stores twice: the catalog has the fields at each savepoint, by
the savepoint itself, and the offset table has the entries, by the number of the
savepoint.  Listings use the one and reads the other.  Both say the same in every state
that an archive gets into after it was opened, new or with whatever files it accepts
(`Archive.tables_agree`): the same keys are there, in the same order, entries belong to
described fields, a description stays as it was registered first, and ranges end within
the data file and are as long as their fields.

The length of a range that is shared is that of other bytes, so the last point needs the
digest to be injective, and of a loaded archive that its checksums are not made up.  An
archive whose closing has failed gives the length that was loaded or flushed last, and not
that of the data file it has let go of (`Archive.Sample.beyond_after_failed_close`).
-/

namespace FieldArchive

/-! ## Entries and presence -/

namespace OffsetTable

variable {t : OffsetTable} {probe : Savepoint} {f : String}

theorem mem_namesAt : f ∈ t.namesAt probe ↔ ∃ e, t.IsEntryAt e probe f := by
  simp only [namesAt, List.mem_map, List.mem_filter, Option.any_eq_true]
  constructor
  · rintro ⟨e, ⟨he, hKnown⟩, hField⟩
    exact ⟨e, he, hField, hKnown⟩
  · rintro ⟨e, he, hField, hKnown⟩
    exact ⟨e, ⟨he, hKnown⟩, hField⟩

/-- No field comes twice at a savepoint. -/
theorem IsCoherent.nodup_namesAt (h : t.IsCoherent) (probe : Savepoint) :
    (t.namesAt probe).Nodup := by
  refine List.Nodup.map_on ?_ ((List.Nodup.of_map _ h.keys).filter _)
  intro e he e' he' hField
  simp only [List.mem_filter, Option.any_eq_true] at he he'
  exact h.isEntryAt_unique ⟨he.1, hField, he.2⟩ ⟨he'.1, rfl, he'.2⟩

end OffsetTable

/-- A field is listed at a savepoint if and only if it has an entry there. -/
theorem Tables.NotesPresence.isPresent_eq {c : Catalog} {t : OffsetTable}
    (h : Tables.NotesPresence c t) (hTable : t.IsCoherent) (probe : Savepoint) (f : String) :
    c.isPresent probe f = t.contains probe f := by
  rw [Bool.eq_iff_iff, hTable.contains_iff, ← OffsetTable.mem_namesAt, Catalog.isPresent, h probe,
    List.contains_iff_mem]

/-- Names find the same descriptions without metainfo. -/
theorem Catalog.IsCoherent.map_bare_find? {c : Catalog} (h : c.IsCoherent) (name : String) :
    (c.find? name).map FieldInfo.bare =
      (c.fields.map FieldInfo.bare).find? fun f => f.name == name := by
  rw [h.find?_eq, List.find?_map]
  rfl

theorem Arena.length_of_readRange {arena : Arena} {d : Disk} {extent : Extent} {p : List UInt8}
    (h : arena.readRange d extent = .ok p) : p.length = extent.length := by
  unfold readRange Disk.readRange at h
  split at h
  · cases h
  · split at h
    · cases h
    · split at h
      · next hRange =>
          cases h
          split at hRange
          · next hZero =>
              cases hRange
              exact hZero.symm
          · split at hRange
            · dsimp only at hRange
              split at hRange
              · next hLength =>
                  cases hRange
                  exact hLength
              · cases hRange
            · cases hRange
      · cases h

namespace Archive

variable {a a' : Archive} {m m' start opened : Machine} {l : Layout} {blobs : List Blob}
  {turns : List Turn} {payloads : Set (List UInt8)}

/-! ## What every step keeps -/

/-- The tables of an archive agree with each other, and with the data file while it is
open. -/
structure IsConsistent (a : Archive) : Prop where
  orderly : a.IsOrderly
  presence : a.NotesPresence
  length_lt : ∀ arena, a.arena = some arena → arena.length < wordBound
  fits : ∀ arena, a.arena = some arena → ∀ e ∈ a.tables.offsets.entries,
    OffsetTable.fits arena.length e.record.extent = true
  recorded : a.KnowsLength

theorem entries_withEntry {point : Savepoint} {field : String} {record : OffsetRecord}
    {arena : Arena} {catalog : Catalog} :
    (a.withEntry point field record arena catalog).tables.offsets.entries =
      a.tables.offsets.entries ++
        [⟨(a.tables.offsets.registerSavepoint point).1, field, record⟩] := by
  simp only [withEntry, OffsetTable.add_entries, OffsetTable.registerSavepoint_entries]

theorem Takes.notesPresence {point : Savepoint} {field : String} {bytes : List UInt8}
    {arena arena' : Arena} {catalog : Catalog} (h : a.Takes point field bytes arena catalog)
    (hOffsets : a.tables.offsets.IsCoherent) (hPresence : a.NotesPresence)
    (record : OffsetRecord) : (a.withEntry point field record arena' catalog).NotesPresence := by
  obtain ⟨known, hKnown, hSame⟩ := hOffsets.registerSavepoint_fst point
  exact (Tables.NotesPresence.registerSavepoint hPresence hOffsets point).add
    (hOffsets.registerSavepoint point) hKnown hSame h.free h.presence record

/-- An entry whose range ends within the data file. -/
theorem IsConsistent.withEntry (h : a.IsConsistent) {point : Savepoint} {field : String}
    {bytes : List UInt8} {arena arena' : Arena} {catalog : Catalog}
    (hTakes : a.Takes point field bytes arena catalog) {record : OffsetRecord}
    (hWritable : arena'.writable = arena.writable) (hGrows : arena.length ≤ arena'.length)
    (hLt : arena'.length < wordBound)
    (hFits : OffsetTable.fits arena'.length record.extent = true) :
    (a.withEntry point field record arena' catalog).IsConsistent := by
  refine ⟨hTakes.isOrderly h.orderly record hWritable,
    hTakes.notesPresence h.orderly.tables.offsets h.presence record, ?_, ?_, .of_write hTakes.mode⟩
  · rintro _ ⟨⟩
    exact hLt
  · rintro _ ⟨⟩ e he
    rw [entries_withEntry] at he
    rcases List.mem_append.1 he with hOld | hNew
    · obtain ⟨hWord, hEnd⟩ := OffsetTable.fits_iff.1 (h.fits arena hTakes.arena e hOld)
      exact OffsetTable.fits_iff.2 ⟨hWord, hEnd.trans hGrows⟩
    · rw [List.mem_singleton.1 hNew]
      exact hFits

theorem IsConsistent.step (h : a.IsConsistent) (hStep : StepsTo a blobs a') : a'.IsConsistent := by
  have hOrderly := h.orderly.step hStep
  have hRecorded := h.recorded.step hStep
  have hOffsets := h.orderly.tables.offsets
  cases hStep with
  | altered alters algorithm presence =>
      have hSame := alters.same
      have hArena : a'.arena = a.arena := by rw [hSame]
      refine ⟨hOrderly, presence hOffsets h.presence, ?_, ?_, hRecorded⟩
      · rw [hArena]
        exact h.length_lt
      · rw [hArena, alters.entries]
        exact h.fits
  | stranded point =>
      refine ⟨hOrderly, Tables.NotesPresence.registerSavepoint h.presence hOffsets point,
        h.length_lt, fun arena hArena e he => ?_, hRecorded⟩
      refine h.fits arena hArena e ?_
      rwa [Archive.withSavepoint, OffsetTable.registerSavepoint_entries] at he
  | shared takes known =>
      refine h.withEntry takes rfl (Nat.le_refl _) (h.length_lt _ takes.arena) ?_
      -- the range is that of another entry
      rw [hOffsets.byChecksum] at known
      obtain ⟨e, hFind, rfl⟩ := Option.map_eq_some_iff.1 known
      exact h.fits _ takes.arena e (List.mem_of_find?_eq_some hFind)
  | @written blob arena catalog takes bounded =>
      have hLt : arena.length + blob.bytes.length < wordBound := by
        have hBound : Disk.maxFileLength < wordBound := by decide
        have hOld := h.length_lt arena takes.arena
        rcases bounded with hEmpty | hLe
        · rw [hEmpty]
          exact hOld
        · omega
      exact h.withEntry takes rfl (Nat.le_add_right _ _) hLt
        (OffsetTable.fits_iff.2 ⟨hLt, Nat.le_refl _⟩)
  | saved => exact ⟨hOrderly, h.presence, h.length_lt, h.fits, hRecorded⟩
  | released =>
      exact ⟨hOrderly, h.presence, fun _ hArena => (by cases hArena),
        fun _ hArena => (by cases hArena), hRecorded⟩

theorem isConsistent_afterTurns (h : a.IsConsistent)
    (hOperations : ∀ x ∈ turns, x.command.IsOperation) : (afterTurns turns a).IsConsistent :=
  (h.orderly.steps_afterTurns hOperations).invariant (fun _ _ _ hStep _ hNow => hNow.step hStep)
    (fun b _ => Set.mem_univ b) h

/-! ## Lengths of ranges -/

/-- Every entry has the digest of some bytes among the given ones, which are as long as
its range and as its field. -/
def IsSized (payloads : Set (List UInt8)) (a : Archive) : Prop :=
  ∀ e ∈ a.tables.offsets.entries, ∃ p ∈ payloads,
    Checksum.compute a.tables.offsets.algorithm p = e.record.checksum ∧
    p.length = e.record.extent.length ∧
    ∃ f ∈ a.tables.catalog.fields.map FieldInfo.bare, f.name = e.field ∧ f.byteSize = p.length

theorem IsSized.of_fields (h : a.IsSized payloads)
    (hEntries : a'.tables.offsets.entries = a.tables.offsets.entries)
    (hAlgorithm : a'.tables.offsets.algorithm = a.tables.offsets.algorithm)
    (hFields : a.tables.catalog.fields.map FieldInfo.bare ⊆
      a'.tables.catalog.fields.map FieldInfo.bare) : a'.IsSized payloads := by
  intro e he
  rw [hEntries] at he
  obtain ⟨p, hp, hDigest, hLength, f, hf, hField⟩ := h e he
  exact ⟨p, hp, by rw [hAlgorithm]; exact hDigest, hLength, f, hFields hf, hField⟩

theorem IsSized.withEntry (h : a.IsSized payloads) (hOrderly : a.IsOrderly) {blob : Blob}
    {arena arena' : Arena} {catalog : Catalog} {extent : Extent}
    (hTakes : a.Takes blob.point blob.field blob.bytes arena catalog)
    (hBlob : blob.bytes ∈ payloads) (hExtent : blob.bytes.length = extent.length) :
    (a.withEntry blob.point blob.field
      ⟨Checksum.compute a.tables.offsets.algorithm blob.bytes, extent⟩ arena' catalog).IsSized
        payloads := by
  have hAlgorithm : (a.withEntry blob.point blob.field
      ⟨Checksum.compute a.tables.offsets.algorithm blob.bytes, extent⟩ arena'
        catalog).tables.offsets.algorithm = a.tables.offsets.algorithm := by
    simp only [Archive.withEntry, OffsetTable.add_algorithm,
      OffsetTable.registerSavepoint_algorithm]
  intro e he
  rw [hAlgorithm]
  show ∃ p ∈ payloads, _ ∧ _ ∧ ∃ f ∈ catalog.fields.map FieldInfo.bare, _
  rw [hTakes.fields]
  rw [entries_withEntry] at he
  rcases List.mem_append.1 he with hOld | hNew
  · exact h e hOld
  · rw [List.mem_singleton.1 hNew]
    obtain ⟨info, hFind, hSize⟩ := hTakes.described
    obtain ⟨hInfo, hName⟩ := hOrderly.tables.catalog.find?_eq_some_iff.1 hFind
    exact ⟨blob.bytes, hBlob, rfl, hExtent, info.bare, List.mem_map_of_mem hInfo, hName,
      hSize.symm⟩

theorem IsSized.step (h : a.IsSized payloads) (hOrderly : a.IsOrderly) (hStep : StepsTo a blobs a')
    (hDigest : Set.InjOn (Checksum.compute a.tables.offsets.algorithm) payloads)
    (hBlobs : ∀ b ∈ blobs, b.bytes ∈ payloads) : a'.IsSized payloads := by
  cases hStep with
  | altered alters algorithm presence =>
      exact h.of_fields alters.entries algorithm alters.fields.subset
  | stranded point =>
      exact h.of_fields (OffsetTable.registerSavepoint_entries _ _)
        (OffsetTable.registerSavepoint_algorithm _ _) (List.Subset.refl _)
  | @shared blob arena catalog extent takes known =>
      have hBlob := hBlobs blob (by simp)
      refine h.withEntry hOrderly takes hBlob ?_
      -- the range is that of an entry with the same digest, so it is as long as these bytes
      rw [hOrderly.tables.offsets.byChecksum] at known
      obtain ⟨e, hFind, rfl⟩ := Option.map_eq_some_iff.1 known
      obtain ⟨p, hp, hSame, hLength, -⟩ := h e (List.mem_of_find?_eq_some hFind)
      have hChecksum : e.record.checksum =
          Checksum.compute a.tables.offsets.algorithm blob.bytes := by
        simpa using List.find?_some hFind
      rw [← hDigest hp hBlob (hSame.trans hChecksum)]
      exact hLength
  | @written blob arena catalog takes bounded =>
      exact h.withEntry hOrderly takes (hBlobs blob (by simp)) rfl
  | saved => exact h
  | released => exact h

theorem StepsTo.algorithm_eq (hStep : StepsTo a blobs a') :
    a'.tables.offsets.algorithm = a.tables.offsets.algorithm := by
  cases hStep with
  | altered alters algorithm presence => exact algorithm
  | stranded point => exact OffsetTable.registerSavepoint_algorithm _ _
  | shared takes known =>
      simp only [withEntry, OffsetTable.add_algorithm, OffsetTable.registerSavepoint_algorithm]
  | written takes bounded =>
      simp only [withEntry, OffsetTable.add_algorithm, OffsetTable.registerSavepoint_algorithm]
  | saved => rfl
  | released => rfl

theorem isSized_afterTurns (h : a.IsSized payloads) (hOrderly : a.IsOrderly)
    (hOperations : ∀ x ∈ turns, x.command.IsOperation)
    (hDigest : Set.InjOn (Checksum.compute a.tables.offsets.algorithm) payloads)
    (hBlobs : bytesOf (storedIn turns a) ⊆ payloads) : (afterTurns turns a).IsSized payloads := by
  have hKept : ∀ a₁ blobs a₂, StepsTo a₁ blobs a₂ → (∀ b ∈ blobs, b.bytes ∈ payloads) →
      (a₁.IsOrderly ∧ a₁.tables.offsets.algorithm = a.tables.offsets.algorithm ∧
        a₁.IsSized payloads) →
      a₂.IsOrderly ∧ a₂.tables.offsets.algorithm = a.tables.offsets.algorithm ∧
        a₂.IsSized payloads := by
    rintro a₁ blobs a₂ hStep hIn ⟨hFirst, hAlgorithm, hSized⟩
    refine ⟨hFirst.step hStep, hStep.algorithm_eq.trans hAlgorithm,
      hSized.step hFirst hStep ?_ hIn⟩
    rw [hAlgorithm]
    exact hDigest
  have hIn : ∀ b ∈ storedIn turns a, b ∈ {b : Blob | b.bytes ∈ payloads} :=
    fun b hb => hBlobs ⟨b, hb, rfl⟩
  exact ((hOrderly.steps_afterTurns hOperations).invariant hKept hIn ⟨hOrderly, rfl, h⟩).2.2

/-! ## Descriptions -/

/-- The description that is registered under a name in a turn. -/
def Turn.registers (x : Turn) (name : String) (a : Archive) : Option FieldInfo :=
  match x.command, (x.outcome a).error with
  | .registerField info, none => if info.name = name then some info else none
  | _, _ => none

/-- The first description that is registered under a name in some turns. -/
def firstRegistered (name : String) : List Turn → Archive → Option FieldInfo
  | [], _ => none
  | x :: rest, a => (x.registers name a).or (firstRegistered name rest (x.outcome a).archive)

/-- A description is not replaced. -/
theorem IsOrderly.find?_registerField (h : a.IsOrderly) {info : FieldInfo} (name : String) :
    (((Command.registerField info).perform a m).archive.tables.catalog.find? name).map
        FieldInfo.bare =
      ((a.tables.catalog.find? name).or
        (Turn.registers ⟨.registerField info, m⟩ name a)).map FieldInfo.bare := by
  simp only [Turn.registers, Turn.outcome, Command.perform]
  cases hRegister : a.registerField info with
  | error e => simp [Except.map, Outcome.ofTables]
  | ok result =>
      obtain ⟨r, a'⟩ := result
      simp only [Except.map, Outcome.ofTables]
      -- a known field keeps its description, and a new one gets the given one
      cases hFind : a.tables.catalog.find? info.name with
      | some registered =>
          obtain rfl := registerField_of_known hFind hRegister
          split
          · next hName =>
              subst hName
              rw [hFind, Option.some_or]
          · rw [Option.or_none]
      | none =>
          have hCoherent := (alters_of_registerField hRegister).coherent h.tables
          obtain ⟨catalog, -, hFields, rfl⟩ := registerField_of_new hFind hRegister
          rw [hCoherent.catalog.map_bare_find?, Option.map_or, h.tables.catalog.map_bare_find?]
          show (catalog.fields.map FieldInfo.bare).find? _ = _
          rw [hFields, List.map_append, List.find?_append]
          congr 1
          by_cases hName : info.name = name
          · simp [hName, FieldInfo.bare]
          · simp [hName, FieldInfo.bare]

/-- Commands other than registrations change no description but for its metainfo. -/
theorem IsOrderly.find?_perform (h : a.IsOrderly) {x : Turn} (hOperation : x.command.IsOperation)
    (name : String) :
    ((x.outcome a).archive.tables.catalog.find? name).map FieldInfo.bare =
      ((a.tables.catalog.find? name).or (x.registers name a)).map FieldInfo.bare := by
  obtain ⟨command, m⟩ := x
  -- it is enough that the list of descriptions stays
  have hOther : (∀ info, command ≠ .registerField info) →
      (command.perform a m).archive.tables.catalog.fields.map FieldInfo.bare =
        a.tables.catalog.fields.map FieldInfo.bare →
      ((command.perform a m).archive.tables.catalog.find? name).map FieldInfo.bare =
        ((a.tables.catalog.find? name).or
          (Turn.registers ⟨command, m⟩ name a)).map FieldInfo.bare := by
    intro hNot hFields
    have hNone : Turn.registers ⟨command, m⟩ name a = none := by
      cases command <;> first | rfl | exact absurd rfl (hNot _)
    rw [hNone, Option.or_none, (h.perform command m).tables.catalog.map_bare_find?,
      h.tables.catalog.map_bare_find?, hFields]
  have hStays : (∀ info, command ≠ .registerField info) → command.Stays →
      (command.perform a m).archive.tables.catalog.fields.map FieldInfo.bare =
        a.tables.catalog.fields.map FieldInfo.bare := by
    intro hNot hStays
    obtain ⟨added, hAdded, hGiven⟩ := (h.adds_perform hStays m).fields
    have hNone : added = [] := by
      refine List.eq_nil_iff_forall_not_mem.2 fun f hf => ?_
      obtain ⟨info, hCommand, -⟩ := hGiven f hf
      exact hNot info hCommand
    rw [hAdded, hNone, List.append_nil]
  cases command with
  | registerField info => exact h.find?_registerField name
  | close =>
      refine hOther (fun _ hCommand => by cases hCommand) ?_
      cases hArena : a.arena with
      | none => rw [perform_of_closed hArena hOperation]
      | some arena =>
          have hOpen : a.isClosed = false := by simp [isClosed, hArena]
          rw [h.tables_close hOpen m]
  | reopen settings sync => exact hOperation.elim
  | _ =>
      exact hOther (fun _ hCommand => by cases hCommand)
        (hStays (fun _ hCommand => by cases hCommand) trivial)

/-- A field has the description that it was registered with first. -/
theorem IsOrderly.find?_afterTurns (h : a.IsOrderly)
    (hOperations : ∀ x ∈ turns, x.command.IsOperation) (name : String) :
    ((afterTurns turns a).tables.catalog.find? name).map FieldInfo.bare =
      ((a.tables.catalog.find? name).or (firstRegistered name turns a)).map FieldInfo.bare := by
  induction turns generalizing a with
  | nil => rw [firstRegistered, Option.or_none, afterTurns]
  | cons x rest ih =>
      have hFirst := h.find?_perform (hOperations x List.mem_cons_self) name
      have hRest := ih (h.perform x.command x.machine)
        fun y hy => hOperations y (List.mem_cons_of_mem _ hy)
      calc ((afterTurns (x :: rest) a).tables.catalog.find? name).map FieldInfo.bare
          = (((x.outcome a).archive.tables.catalog.find? name).or
              (firstRegistered name rest (x.outcome a).archive)).map FieldInfo.bare := hRest
        _ = ((a.tables.catalog.find? name).or (firstRegistered name (x :: rest) a)).map
              FieldInfo.bare := by
            rw [Option.map_or, hFirst, ← Option.map_or, Option.or_assoc, firstRegistered]

/-! ## Archives that were just opened -/

/-- An archive is opened, for writing or for reading. -/
def Opens (l : Layout) (start : Machine) (a : Archive) (opened : Machine) : Prop :=
  (∃ settings sync, openForWrite l settings sync start = .ok a opened) ∨
    openForRead l start = .ok a opened

/-- A length is that in the metadata file at the time of opening an archive, which is after
its directory was made if it is opened for writing, or zero if there is no metadata file. -/
def LoadsLength (l : Layout) (start : Machine) (length : Nat) : Prop :=
  (∃ m doc, (m = start ∨ l.createDirectory start = .ok () m) ∧
    Document.load m.disk l.metadata = .ok doc ∧ length = doc.dataLength) ∨
  ∃ m, l.createDirectory start = .ok () m ∧ m.disk.exists? l.metadata = false ∧ length = 0

/-- The checksums that an archive lists are the digests of the bytes in their ranges. -/
def IsDigested (a : Archive) (d : Disk) : Prop :=
  ∀ e ∈ a.tables.offsets.entries, ∃ arena p, a.arena = some arena ∧
    arena.readRange d e.record.extent = .ok p ∧
    Checksum.compute a.tables.offsets.algorithm p = e.record.checksum

/-- The bytes in the ranges of an archive. -/
def contents (a : Archive) (d : Disk) : Set (List UInt8) :=
  {p | ∃ e ∈ a.tables.offsets.entries, ∃ arena, a.arena = some arena ∧
    arena.readRange d e.record.extent = .ok p}

theorem length_of_openData {valid : Nat} {arena : Arena}
    (hOk : openData l valid m = .ok arena m') : arena.length = valid := by
  unfold openData at hOk
  split at hOk
  · obtain ⟨file, data, -, -, -, rfl, -⟩ := Arena.openAppend_ok hOk
    rfl
  · split at hOk
    · next hZero =>
        obtain ⟨file, -, rfl⟩ := Arena.create_ok hOk
        exact hZero.symm
    · cases hOk

/-- An archive that was just opened has the tables of a document and a data file of its
length, or it is new. -/
theorem opens_cases (h : Opens l start a opened) :
    (∃ (mode : Mode) (m : Machine) (doc : Document) (tables : Tables) (arena : Arena) (sync : Bool),
      Document.load m.disk l.metadata = .ok doc ∧ doc.tables = .ok tables ∧
      arena.length = doc.dataLength ∧ a = ofDocument l mode doc tables arena sync) ∨
    ∃ (settings : Settings) (sync : Bool) (arena : Arena) (id : ArchiveId) (createdAt : String),
      arena.length = 0 ∧
      a = { fresh l settings sync arena id createdAt with
        recordedLength := arena.length
        dirty := false } := by
  rcases h with ⟨settings, sync, hOk⟩ | hOk
  · rcases openForWrite_ok hOk with ⟨m₁, doc, tables, arena, -, hLoad, hTables, hArena, rfl⟩ |
      ⟨m₁, arena, m₂, id, createdAt, -, -, hArena, rfl⟩
    · exact Or.inl ⟨_, m₁, _, _, _, _, hLoad, hTables, length_of_openData hArena, rfl⟩
    · obtain ⟨file, -, rfl⟩ := Arena.create_ok hArena
      exact Or.inr ⟨_, _, _, _, _, rfl, rfl⟩
  · obtain ⟨-, -, doc, tables, file, hLoad, hTables, -, -, rfl⟩ := openForRead_eq_ok_iff.1 hOk
    exact Or.inl ⟨_, start, _, _, _, _, hLoad, hTables, rfl, rfl⟩

/-- What an archive that was just opened knows to be in the metadata file. -/
theorem loadsLength_of_opens (h : Opens l start a opened) :
    LoadsLength l start a.recordedLength := by
  rcases h with ⟨settings, sync, hOk⟩ | hOk
  · rcases openForWrite_ok hOk with ⟨m₁, doc, tables, arena, hCreate, hLoad, -, -, rfl⟩ |
      ⟨m₁, arena, m₂, id, createdAt, hCreate, hAbsent, hArena, rfl⟩
    · exact Or.inl ⟨m₁, doc, Or.inr hCreate, hLoad, rfl⟩
    · obtain ⟨file, -, rfl⟩ := Arena.create_ok hArena
      exact Or.inr ⟨m₁, hCreate, hAbsent, rfl⟩
  · obtain ⟨-, -, doc, tables, file, hLoad, -, -, -, rfl⟩ := openForRead_eq_ok_iff.1 hOk
    exact Or.inl ⟨start, doc, Or.inl rfl, hLoad, rfl⟩

theorem isOpen_of_opens (h : Opens l start a opened) : a.isClosed = false := by
  rcases opens_cases h with ⟨mode, m, doc, tables, arena, sync, -, -, -, rfl⟩ |
    ⟨settings, sync, arena, id, createdAt, -, rfl⟩ <;> rfl

theorem isOrderly_of_opens (h : Opens l start a opened) : a.IsOrderly := by
  rcases h with ⟨settings, sync, hOk⟩ | hOk
  · exact isOrderly_of_openForWrite hOk
  · obtain ⟨-, -, doc, tables, file, -, hTables, -, -, rfl⟩ := openForRead_eq_ok_iff.1 hOk
    exact ⟨Tables.isCoherent_of_document hTables, nofun⟩

/-- The tables of a document that was loaded, over a data file of its length. -/
theorem isConsistent_ofDocument {doc : Document} {mode : Mode} {tables : Tables} {arena : Arena}
    {sync : Bool} (hLoad : Document.load m.disk l.metadata = .ok doc)
    (hTables : doc.tables = .ok tables) (hLength : arena.length = doc.dataLength)
    (hOrderly : (ofDocument l mode doc tables arena sync).IsOrderly) :
    (ofDocument l mode doc tables arena sync).IsConsistent := by
  obtain ⟨bytes, -, hDoc⟩ := Document.load_eq_ok_iff.1 hLoad
  refine ⟨hOrderly, Document.notesPresence_of_tables hTables, ?_, ?_, ?_⟩
  · rintro _ ⟨⟩
    rw [hLength]
    exact hDoc.dataLength_lt
  · rintro _ ⟨⟩ e he
    rw [hLength]
    exact (Document.isSound_of_tables hTables).fits e ((Document.tables_ok hTables).entries ▸ he)
  · rintro _ ⟨⟩ -
    exact hLength.symm

theorem isConsistent_of_opens (h : Opens l start a opened) : a.IsConsistent := by
  have hOrderly := isOrderly_of_opens h
  rcases opens_cases h with ⟨mode, m, doc, tables, arena, sync, hLoad, hTables, hLength, rfl⟩ |
    ⟨settings, sync, arena, id, createdAt, hLength, rfl⟩
  · exact isConsistent_ofDocument hLoad hTables hLength hOrderly
  · refine ⟨hOrderly, fun _ => rfl, ?_, fun _ _ e he => (by cases he), nofun⟩
    rintro _ ⟨⟩
    rw [hLength]
    decide

/-- Entries that are loaded belong to fields that are as long as their ranges. -/
theorem byteSize_of_opens (h : Opens l start a opened) : ∀ e ∈ a.tables.offsets.entries,
    ∃ f ∈ a.tables.catalog.fields.map FieldInfo.bare, f.name = e.field ∧
      f.byteSize = e.record.extent.length := by
  intro e he
  rcases opens_cases h with ⟨mode, m, doc, tables, arena, sync, -, hTables, -, rfl⟩ |
    ⟨settings, sync, arena, id, createdAt, -, rfl⟩
  · have hRepresents := Document.tables_ok hTables
    obtain ⟨f, hf, hName, hSize⟩ :=
      (Document.isSound_of_tables hTables).described e (hRepresents.entries ▸ he)
    rw [← hRepresents.fields] at hf
    exact ⟨f.bare, List.mem_map_of_mem hf, hName, hSize⟩
  · cases he

/-- What is listed truthfully is as long as it should be. -/
theorem isSized_of_opens (h : Opens l start a opened) (hDigested : a.IsDigested opened.disk) :
    a.IsSized (a.contents opened.disk) := by
  intro e he
  obtain ⟨arena, p, hArena, hRange, hDigest⟩ := hDigested e he
  obtain ⟨f, hf, hName, hSize⟩ := byteSize_of_opens h e he
  have hLength := Arena.length_of_readRange hRange
  exact ⟨p, ⟨e, he, arena, hArena, hRange⟩, hDigest, hLength, f, hf, hName,
    hSize.trans hLength.symm⟩

/-! ## Ends of ranges -/

/-- All ranges of a table end within a length. -/
def EndsWithin (t : OffsetTable) (length : Nat) : Prop :=
  ∀ e ∈ t.entries, OffsetTable.fits length e.record.extent = true

/-- An archive that is open has its data file. -/
theorem exists_arena (hOpen : a.isClosed = false) : ∃ arena, a.arena = some arena := by
  cases hArena : a.arena with
  | none =>
      rw [isClosed_iff.2 hArena] at hOpen
      cases hOpen
  | some arena => exact ⟨arena, rfl⟩

theorem IsConsistent.endsWithin (h : a.IsConsistent) (hOpen : a.isClosed = false) :
    EndsWithin a.tables.offsets a.dataLength := by
  obtain ⟨arena, hArena⟩ := exists_arena hOpen
  have hLength : a.dataLength = arena.length := by simp [dataLength, hArena]
  rw [hLength]
  exact h.fits arena hArena

/-- Only the command to close closes an archive. -/
theorem IsOrderly.eq_close (h : a.IsOrderly) {x : Turn} (hOperation : x.command.IsOperation)
    (hOpen : a.isClosed = false) (hClosed : (x.outcome a).archive.isClosed = true) :
    x.command = .close := by
  obtain ⟨command, m⟩ := x
  have hStays : ¬ command.Stays := by
    intro hStays
    have hStill : (command.perform a m).archive.isClosed = false :=
      (h.adds_perform hStays m).isOpen hOpen
    rw [Turn.outcome, hStill] at hClosed
    cases hClosed
  cases command with
  | close => rfl
  | reopen settings sync => exact hOperation.elim
  | _ => exact absurd trivial hStays

/-- Ranges end within the data file of an archive that is open, and within the one that it
had when it was closed.  It goes on to give the length of that, or if the closing fails the
one that was recorded last. -/
theorem IsConsistent.endsWithin_afterTurns (h : a.IsConsistent) (hOpen : a.isClosed = false)
    (hOperations : ∀ x ∈ turns, x.command.IsOperation) :
    let last := afterTurns turns a
    (last.isClosed = false ∧ EndsWithin last.tables.offsets last.dataLength) ∨
    ∃ before x after, turns = before ++ x :: after ∧ x.command = .close ∧
      let closing := afterTurns before a
      closing.isClosed = false ∧ EndsWithin last.tables.offsets closing.dataLength ∧
      ((x.outcome closing).error = none → last.dataLength = closing.dataLength) ∧
      ((x.outcome closing).error ≠ none → last.dataLength = closing.recordedLength ∧
        closing.recordedLength = lastRecorded a.recordedLength before a) := by
  induction turns generalizing a with
  | nil => exact Or.inl ⟨hOpen, h.endsWithin hOpen⟩
  | cons x rest ih =>
      have hOperation := hOperations x List.mem_cons_self
      have hRest : ∀ y ∈ rest, y.command.IsOperation :=
        fun y hy => hOperations y (List.mem_cons_of_mem _ hy)
      cases hClosed : (x.outcome a).archive.isClosed with
      | false =>
          have hFirst : ∀ y ∈ [x], y.command.IsOperation := List.forall_mem_singleton.2 hOperation
          have hNext : (x.outcome a).archive.IsConsistent := isConsistent_afterTurns h hFirst
          rcases ih hNext hClosed hRest with hLast |
            ⟨before, y, after, rfl, hClose, hStill, hEnds, hDone, hFailed⟩
          · exact Or.inl hLast
          · refine Or.inr ⟨x :: before, y, after, rfl, hClose, hStill, hEnds,
              hDone, fun hError => ?_⟩
            obtain ⟨hLength, -⟩ := hFailed hError
            refine ⟨hLength, h.orderly.recordedLength_afterTurns h.recorded fun z hz => ?_⟩
            exact hOperations z (List.mem_append_left _ hz : z ∈ (x :: before) ++ y :: after)
      | true =>
          have hClose := h.orderly.eq_close hOperation hOpen hClosed
          obtain ⟨arena, hArena⟩ := exists_arena hOpen
          obtain ⟨-, hTables, hLength, hRecorded⟩ :=
            h.orderly.close_of_open hArena (h.recorded arena hArena) x.machine
          rw [← hClose] at hTables hLength hRecorded
          -- nothing happens to the archive afterwards
          have hLast : afterTurns (x :: rest) a = (x.outcome a).archive :=
            afterTurns_of_closed (isClosed_iff.1 hClosed) hRest
          refine Or.inr ⟨[], x, rest, rfl, hClose, hOpen, ?_, fun hNone => ?_, fun hError => ?_⟩
          · rw [hLast, show (x.outcome a).archive.tables = a.tables from hTables]
            exact h.endsWithin hOpen
          · rw [hLast, show (x.outcome a).archive.dataLength = arena.length from hLength hNone]
            simp [afterTurns, dataLength, hArena]
          · rw [hLast]
            exact ⟨hRecorded hError, rfl⟩

/-! ## Agreement -/

/-- In every state of an archive that was opened for writing or for reading, whatever
commands were given to it and whichever of them failed:

* a field is listed at a savepoint if and only if it has an entry there;
* the fields listed at a savepoint are those of the entries there, in order, none twice;
* every entry belongs to a described field;
* a description is the one that was loaded, or else the first that was registered;
* every range ends within the data file, or the one that was closed, and the length of
  that is the one the archive gives unless the closing failed, after which it gives the one
  that was recorded at the last flush, or else loaded;
* if loaded checksums are those of the bytes in their ranges, and the digest is injective
  on these and on the bytes that were stored, every range is as long as its field. -/
theorem tables_agree (hOpen : Opens l start a opened)
    (hOperations : ∀ x ∈ turns, x.command.IsOperation) :
    let last := afterTurns turns a
    let catalog := last.tables.catalog
    let offsets := last.tables.offsets
    (∀ probe field, catalog.isPresent probe field = offsets.contains probe field) ∧
    (∀ probe, catalog.fieldsAt probe = offsets.namesAt probe ∧ (offsets.namesAt probe).Nodup) ∧
    (∀ e ∈ offsets.entries, e.field ∈ catalog.names) ∧
    (∀ name, (catalog.find? name).map FieldInfo.bare =
      ((a.tables.catalog.find? name).or (firstRegistered name turns a)).map FieldInfo.bare) ∧
    ((last.isClosed = false ∧ EndsWithin offsets last.dataLength) ∨
      ∃ before x after, turns = before ++ x :: after ∧ x.command = .close ∧
        let closing := afterTurns before a
        closing.isClosed = false ∧ EndsWithin offsets closing.dataLength ∧
        ((x.outcome closing).error = none → last.dataLength = closing.dataLength) ∧
        ((x.outcome closing).error ≠ none → last.dataLength = closing.recordedLength ∧
          closing.recordedLength = lastRecorded a.recordedLength before a)) ∧
    LoadsLength l start a.recordedLength ∧
    (a.IsDigested opened.disk →
      Set.InjOn (Checksum.compute a.tables.offsets.algorithm)
        (a.contents opened.disk ∪ bytesOf (storedIn turns a)) →
      ∀ e ∈ offsets.entries, ∃ info, catalog.find? e.field = some info ∧
        e.record.extent.length = info.byteSize) := by
  intro last catalog offsets
  have hStart := isConsistent_of_opens hOpen
  have hLast : last.IsConsistent := isConsistent_afterTurns hStart hOperations
  have hTables := hLast.orderly.tables
  refine ⟨fun probe field => hLast.presence.isPresent_eq hTables.offsets probe field,
    fun probe => ⟨hLast.presence probe, hTables.offsets.nodup_namesAt probe⟩, hTables.described,
    hStart.orderly.find?_afterTurns hOperations,
    hStart.endsWithin_afterTurns (isOpen_of_opens hOpen) hOperations, loadsLength_of_opens hOpen,
    ?_⟩
  intro hDigested hDigest e he
  have hSized : last.IsSized (a.contents opened.disk ∪ bytesOf (storedIn turns a)) := by
    refine isSized_afterTurns ?_ hStart.orderly hOperations hDigest Set.subset_union_right
    intro e he
    obtain ⟨p, hp, hEntry⟩ := isSized_of_opens hOpen hDigested e he
    exact ⟨p, Or.inl hp, hEntry⟩
  obtain ⟨p, -, -, hLength, f, hf, hName, hSize⟩ := hSized e he
  obtain ⟨info, hInfo, rfl⟩ := List.mem_map.1 hf
  exact ⟨info, hTables.catalog.find?_eq_some_iff.2 ⟨hInfo, hName⟩,
    hLength.symm.trans hSize.symm⟩

namespace Sample

/-- A machine with a directory in the place of the temporary file. -/
def blocked (m : Machine) : Machine :=
  { m with disk := m.disk.addNode ⟨0, "a.json.tmp"⟩ .directory }

/-- The same bytes are stored at two steps, and then the archive is closed. -/
def storeTwice (a : Archive) (m : Machine) : List Turn :=
  let first := register.perform a m
  let second := (Command.store .standard blob).perform first.archive first.machine
  let other : Command := .store .standard { blob with point := Session.Sample.step 1 }
  let third := other.perform second.archive second.machine
  [⟨register, m⟩, ⟨.store .standard blob, first.machine⟩, ⟨other, second.machine⟩,
    ⟨.close, blocked third.machine⟩]

theorem isOperation_storeTwice (a : Archive) (m : Machine) :
    ∀ x ∈ storeTwice a m, x.command.IsOperation := by
  intro x hx
  simp only [storeTwice, List.mem_cons, List.not_mem_nil, or_false] at hx
  rcases hx with rfl | rfl | rfl | rfl <;> trivial

theorem exists_storeTwice : ∃ a m, create = .ok a m ∧ a.tables.offsets.entries = [] ∧
    (storedIn (storeTwice a m) a).map Blob.bytes = [blob.bytes, blob.bytes] ∧
    (afterTurns (storeTwice a m) a).tables.offsets.entries.map OffsetEntry.field = ["T", "T"] ∧
    ∃ e ∈ (afterTurns (storeTwice a m) a).tables.offsets.entries,
      OffsetTable.fits (afterTurns (storeTwice a m) a).dataLength e.record.extent = false := by
  decide +kernel

/-- An entry of an archive whose closing has failed ends beyond the length that the archive
gives. -/
theorem beyond_after_failed_close : ∃ a opened, Opens Session.Sample.layout Session.Sample.start
    a opened ∧ (∀ x ∈ storeTwice a opened, x.command.IsOperation) ∧
    ∃ e ∈ (afterTurns (storeTwice a opened) a).tables.offsets.entries,
      OffsetTable.fits (afterTurns (storeTwice a opened) a).dataLength e.record.extent = false := by
  obtain ⟨a, m, hCreate, -, -, -, hBeyond⟩ := exists_storeTwice
  exact ⟨a, m, Or.inl ⟨_, _, hCreate⟩, isOperation_storeTwice a m, hBeyond⟩

/-- Both entries are as long as the field, and listed. -/
theorem tables_agree_sample : ∃ a opened,
    Opens Session.Sample.layout Session.Sample.start a opened ∧
    let last := afterTurns (storeTwice a opened) a
    last.tables.offsets.entries.length = 2 ∧
    (∀ e ∈ last.tables.offsets.entries, ∃ info, last.tables.catalog.find? e.field = some info ∧
      e.record.extent.length = info.byteSize) ∧
    ∀ probe field, last.tables.catalog.isPresent probe field =
      last.tables.offsets.contains probe field := by
  obtain ⟨a, m, hCreate, hEmpty, hStored, hFields, -⟩ := exists_storeTwice
  have hOpen : Opens Session.Sample.layout Session.Sample.start a m := Or.inl ⟨_, _, hCreate⟩
  have hDigested : a.IsDigested m.disk := by
    intro e he
    rw [hEmpty] at he
    cases he
  -- nothing was there, and the bytes are the same
  have hDigest : Set.InjOn (Checksum.compute a.tables.offsets.algorithm)
      (a.contents m.disk ∪ bytesOf (storedIn (storeTwice a m) a)) := by
    have hOne : a.contents m.disk ∪ bytesOf (storedIn (storeTwice a m) a) ⊆ {blob.bytes} := by
      rintro p (⟨e, he, -⟩ | ⟨b, hb, rfl⟩)
      · rw [hEmpty] at he
        cases he
      · have hBytes := List.mem_map_of_mem (f := Blob.bytes) hb
        rw [hStored] at hBytes
        simpa using hBytes
    exact (Set.injOn_singleton _ _).mono hOne
  obtain ⟨hPresent, -, -, -, -, -, hSizes⟩ := tables_agree hOpen (isOperation_storeTwice a m)
  refine ⟨a, m, hOpen, ?_, hSizes hDigested hDigest, hPresent⟩
  have hLength := congrArg List.length hFields
  rwa [List.length_map] at hLength

end Sample
end Archive
end FieldArchive

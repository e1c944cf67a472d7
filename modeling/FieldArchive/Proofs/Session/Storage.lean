import FieldArchive.Proofs.Session.RoundTrip

/-!
# Deduplicated storage

The data file of an archive holds the distinct payloads of all sessions on it, in
the order in which they were first stored, and nothing else.  Every record is the
place of its payload there, and the answers to requests and the counts agree with
the file.  This needs that the digest tells the payloads apart and that no snapshot
was lost to a failure of the file system.
-/

namespace FieldArchive.Session

variable {l : Layout} {s : Settings} {dir : NodeId} {saved : Ledger} {m : Machine}
  {log : List Event} {directory stem : String} {config : Config}

/-- The data file of an archive that rests. -/
theorem ArchiveAtRest.readBytes_data (h : ArchiveAtRest l s dir log saved m.disk)
    (hIntact : IsIntact log) :
    m.disk.readBytes l.data = .ok (Packing.content (payloads s.endianness log)) := by
  obtain ⟨file, data, hKeeps, hData⟩ := h.keeps
  have hBytes : m.disk.readBytes l.data = .ok data :=
    l.readBytes_of_hasFile hKeeps.leadsTo h.usable.data hKeeps.dataFile
  rw [hBytes, hData hIntact, Ledger.content, h.accounts.payloads_eq hIntact]

/-- The record of every snapshot that was reported as stored. -/
theorem ArchiveAtRest.lookup_eq (h : ArchiveAtRest l s dir log saved m.disk)
    (hIntact : IsIntact log) {a : Archive} (hArchive : Archive.ReadsLedger l s saved a m.disk)
    {x : Snapshot} (hx : x ∈ reported log) {probe : Savepoint}
    (hProbe : (probe == x.point) = true) :
    a.tables.offsets.lookup probe x.field =
      .ok (recordIn s (payloads s.endianness log) (x.payload s.endianness)) := by
  obtain ⟨stored, hStored, hBelow, -⟩ := h.accounts
  obtain ⟨w, hw, hStores⟩ := exists_left_of_forall₂ hStored (hBelow.subset hx)
  have hLookup := hArchive.lookup_eq hw (hStores.isAt.congr hProbe)
  rw [hStores.field, hStores.payload, Ledger.recordOf, h.accounts.payloads_eq hIntact] at hLookup
  exact hLookup

/-- The counts of an archive that is opened for reading. -/
theorem ArchiveAtRest.stats_eq (h : ArchiveAtRest l s dir log saved m.disk) (hIntact : IsIntact log)
    {a : Archive} (hArchive : Archive.ReadsLedger l s saved a m.disk) (durability : Durability) :
    ∃ counts, (ofArchives a none durability).stats = .ok counts ∧
      counts.entries = (reported log).length ∧
      counts.uniqueRanges = (Packing.blocks (payloads s.endianness log)).length ∧
      counts.dataBytes = (Packing.content (payloads s.endianness log)).length := by
  have hPayloads := h.accounts.payloads_eq hIntact
  have hStatus : (ofArchives a none durability).status ≠ .closed := by
    change a.mode.status ≠ .closed
    rw [hArchive.mode]
    simp [Mode.status]
  have hLength : (ofArchives a none durability).primary.dataLength = saved.content.length := by
    obtain ⟨arena, -, hArena, hLength, -⟩ := hArchive.arena
    change a.dataLength = _
    simp [Archive.dataLength, hArena, hLength]
  have hCount : saved.payloads.length = (reported log).length := by
    rw [hPayloads, payloads, List.length_map]
  rw [← hPayloads]
  exact ⟨_, stats_of_records hStatus hArchive.tables hArchive.isValid hLength, hCount, rfl, rfl⟩

/-- A payload keeps its record when more is stored. -/
theorem recordIn_append {xs ys : List (List UInt8)} {p : List UInt8} (hp : p ∈ xs) :
    recordIn s (xs ++ ys) p = recordIn s xs p := by
  rw [recordIn, recordIn, Packing.extentOf_append_of_mem hp]

/-- The record that an answer gives is the one that the payload keeps. -/
theorem IsExact.record_eq (h : IsExact s log) {before after : List Event} {e : Event}
    (hLog : log = before ++ e :: after) {x : Snapshot} (hx : e.reported? = some x) :
    e.reply.record? =
      some (recordIn s (payloads s.endianness log) (x.payload s.endianness)) := by
  have hPayloads : payloads s.endianness log =
      (payloads s.endianness before ++ [x.payload s.endianness]) ++
        payloads s.endianness after := by
    have hEvent : payloads s.endianness [e] = [x.payload s.endianness] := by
      simp [payloads, reported, hx]
    rw [hLog, List.append_cons, payloads_append, payloads_append, hEvent]
  have hThere : x.payload s.endianness ∈
      payloads s.endianness before ++ [x.payload s.endianness] := by simp
  rw [(h before e after hLog).record x hx, hPayloads, recordIn_append hThere]

/-- Deduplicated storage is exact.  After a run the data file is the concatenation
of the distinct payloads; every record is the place and the digest of its payload,
whether it is looked up later or was the answer when the payload was stored; ranges
are shared by equal payloads only; an answer says "deduplicated" exactly if the
payload was there; and the counts, during the run and after it, are those of the
snapshots stored until then. -/
theorem storage_of_runAll {first : Visit} {later : List Visit} {visited : List Visited}
    (hSettings : first.config.settings = .ok s) (hLayout : Layout.make directory stem = .ok l)
    (hWell : m.disk.WellFormed) (hVacant : l.IsVacant m)
    (hBuilt : ∀ visit ∈ first :: later, ∀ r ∈ visit.requests, r.IsBuilt)
    (hRun : runAll directory stem (first :: later) m = some visited)
    (hKept : ∀ v ∈ visited, v.session.primary.tables.readsBack = true)
    (hDigest : Set.InjOn (Checksum.compute s.checksum) (written s.endianness (logOf visited)))
    (hIntact : IsIntact (logOf visited)) {reader : Config} (hReader : reader.validate = .ok ()) :
    let log := logOf visited
    let stored := payloads s.endianness log
    let after := machineAfter m visited
    after.disk.readBytes l.data = .ok stored.eraseDups.flatten ∧
    (∃ session counts, openWith directory stem .read none reader after = .ok session after ∧
      (∀ x ∈ reported log, ∀ probe, (probe == x.point) = true →
        session.primary.tables.offsets.lookup probe x.field =
          .ok ⟨Checksum.compute s.checksum (x.payload s.endianness),
            Packing.extentOf stored (x.payload s.endianness)⟩) ∧
      session.stats = .ok counts ∧ counts.entries = (reported log).length ∧
      counts.uniqueRanges = stored.eraseDups.length ∧
      counts.dataBytes = (stored.eraseDups.map List.length).sum) ∧
    (∀ p ∈ stored, (stored.eraseDups.flatten.drop (Packing.extentOf stored p).offset).take
      (Packing.extentOf stored p).length = p) ∧
    (∀ p ∈ stored, ∀ q ∈ stored, Packing.extentOf stored p = Packing.extentOf stored q ↔ p = q) ∧
    ∀ before e rest, log = before ++ e :: rest →
      (∀ x, e.reported? = some x →
        e.reply.record? = some ⟨Checksum.compute s.checksum (x.payload s.endianness),
          Packing.extentOf stored (x.payload s.endianness)⟩ ∧
        (e.reply.isDeduplicated = true ↔
          x.payload s.endianness ∈ payloads s.endianness before)) ∧
      ∀ counts, e.reply = .counted counts →
        counts.entries = (reported before).length ∧
        counts.uniqueRanges = (payloads s.endianness before).eraseDups.length ∧
        counts.dataBytes = ((payloads s.endianness before).eraseDups.map List.length).sum := by
  intro log stored after
  obtain ⟨dir, kept, hRests, hReads⟩ :=
    archiveAtRest_of_runAll hSettings hLayout hWell hVacant hBuilt hRun hKept hDigest
  obtain ⟨a, hOpen, hArchive⟩ := hRests.openForRead_of_readsBack hReads
  obtain ⟨durability, hSession⟩ := openWith_read_eq hLayout hReader hOpen
  obtain ⟨counts, hStats, hEntries, hRanges, hBytes⟩ := hRests.stats_eq hIntact hArchive durability
  have hExact := hRests.answers hIntact
  refine ⟨hRests.readBytes_data hIntact,
    ⟨_, counts, hSession, ?_, hStats, hEntries, hRanges, ?_⟩, ?_, ?_, ?_⟩
  · intro x hx probe hProbe
    exact hRests.lookup_eq hIntact hArchive hx hProbe
  · rw [hBytes, Packing.length_content]
    rfl
  · intro p hp
    exact Packing.drop_take_content hp
  · intro p hp q hq
    exact Packing.extentOf_eq_iff hp hq
  · intro before e rest hLog
    have hAnswer := hExact before e rest hLog
    refine ⟨fun x hx => ⟨hExact.record_eq hLog hx, hAnswer.deduplicated x hx⟩, ?_⟩
    intro counts hCounted
    obtain ⟨hEntries, hRanges, hBytes⟩ := hAnswer.counted counts hCounted
    refine ⟨hEntries, hRanges, ?_⟩
    rw [hBytes, Packing.length_content]
    rfl

/-- The data file holds the two distinct snapshots of the sample sessions. -/
theorem storage_sample :
    ∃ visited, runAll "" "a" Sample.visits Sample.start = some visited ∧
      (machineAfter Sample.start visited).disk.readBytes Sample.layout.data =
        .ok [1, 0, 0, 0, 2, 0, 0, 0, 3, 0, 0, 0, 4, 0, 0, 0] := by
  obtain ⟨v, w, hRun, hLog, hReads, hReads'⟩ := Sample.exists_run
  have hDigest := Sample.injOn_log
  have hIntact := Sample.isIntact_log
  rw [← hLog] at hDigest hIntact
  obtain ⟨hData, -⟩ := storage_of_runAll Sample.settings_eq Sample.layout_eq
    Disk.wellFormed_empty Sample.isVacant Sample.isBuilt hRun
    (List.forall_mem_cons.2 ⟨hReads, List.forall_mem_singleton.2 hReads'⟩) hDigest hIntact
    Sample.validate_standard
  have hPayloads : payloads Sample.settings.endianness (logOf [v, w]) =
      [[1, 0, 0, 0, 2, 0, 0, 0], [1, 0, 0, 0, 2, 0, 0, 0], [3, 0, 0, 0, 4, 0, 0, 0]] := by
    rw [hLog, payloads, Sample.reported_log]
    decide
  rw [hPayloads] at hData
  exact ⟨[v, w], hRun, hData⟩

end FieldArchive.Session

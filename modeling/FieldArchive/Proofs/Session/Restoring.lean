import FieldArchive.Proofs.Session.Progress

/-!
# Restoring the tables of a session

The archive that a session leaves opens with the metainfo that the session was given
if and only if documents give all of it back: reals are written with their shortest
digits, and for some of seventeen digits the reader of the metadata file yields a
neighbour.  Then a value differs, or two savepoints become one and the archive does
not open at all.
-/

namespace FieldArchive.Session

variable {l : Layout} {s : Settings} {dir : NodeId} {m : Machine} {log : List Event}
  {directory stem : String} {visit : Visit} {v : Visited}

/-- If documents give back the metainfo of a session, its archive opens with the same
tables, except for savepoints that only a failed write has made known. -/
theorem LeavesLedger.openForRead (h : LeavesLedger l s dir True log v)
    (hReads : v.session.primary.tables.readsBack = true) :
    ∃ a, Archive.openForRead l v.machine = .ok a v.machine ∧
      a.tables.metainfo = v.session.primary.tables.metainfo ∧
      a.tables.catalog.fields = v.session.primary.tables.catalog.fields ∧
      a.tables.offsets.savepoints <+: v.session.primary.tables.offsets.savepoints ∧
      (IsIntact log →
        a.tables.offsets.savepoints = v.session.primary.tables.offsets.savepoints) := by
  obtain ⟨live, kept, hRests, hCovers, hSame, hTables⟩ := h
  rw [hTables.readsBack_eq] at hReads
  obtain ⟨file, data, hKeeps, -⟩ := hRests.keeps
  obtain ⟨a, hOpen, hArchive⟩ := Archive.openForRead_of_readsBack hRests.usable hKeeps
    (readsBack_of_covers hCovers trivial hReads)
  have hMetainfo : v.session.primary.tables.metainfo = live.metainfo := hTables.metainfo
  have hFields : v.session.primary.tables.catalog.fields = live.fields := hTables.fields
  have hPoints : v.session.primary.tables.offsets.savepoints = live.savepoints :=
    hTables.savepoints
  have hKept : a.tables.offsets.savepoints = kept.savepoints := hArchive.tables.savepoints
  refine ⟨a, hOpen, ?_, ?_, ?_, ?_⟩
  · rw [hMetainfo, ← hCovers.metainfo trivial]
    exact hArchive.tables.metainfo
  · rw [hFields, ← hCovers.fields trivial]
    exact hArchive.tables.fields
  · rw [hPoints, hKept]
    exact hCovers.savepoints
  · intro hIntact
    rw [hPoints, hKept, hSame trivial hIntact]

/-- If an archive opens with interchangeable tables, documents give back the metainfo
of the session that left it. -/
theorem LeavesLedger.readsBack (h : LeavesLedger l s dir True log v) {a : Archive} {m' : Machine}
    (hOpen : Archive.openForRead l v.machine = .ok a m')
    (hMetainfo : (a.tables.metainfo == v.session.primary.tables.metainfo) = true)
    (hFields : (a.tables.catalog.fields == v.session.primary.tables.catalog.fields) = true)
    (hSavepoints : (a.tables.offsets.savepoints ==
      v.session.primary.tables.offsets.savepoints) = true) :
    v.session.primary.tables.readsBack = true := by
  obtain ⟨live, kept, hRests, hCovers, -, hTables⟩ := h
  obtain ⟨file, data, hKeeps, -⟩ := hRests.keeps
  obtain ⟨metainfo, fields, savepoints, hReread, hRereadFields, hRereadPoints, rfl, rfl, rfl, -⟩ :=
    Archive.openForRead_ok hRests.usable hKeeps hOpen
  have hLive : v.session.primary.tables.metainfo = live.metainfo := hTables.metainfo
  have hLiveFields : v.session.primary.tables.catalog.fields = live.fields := hTables.fields
  have hLivePoints : v.session.primary.tables.offsets.savepoints = live.savepoints :=
    hTables.savepoints
  rw [hLive, ← hCovers.metainfo trivial] at hMetainfo
  rw [hLiveFields, ← hCovers.fields trivial] at hFields
  -- as many savepoints were given back as are known, so none of them was lost
  have hLength : kept.savepoints.length = live.savepoints.length := by
    have hGiven := (forall₂_of_mapM hRereadPoints).length_eq
    have hKnown := List.length_eq_of_beq hSavepoints
    rw [hLivePoints] at hKnown
    omega
  have hPoints : kept.savepoints = live.savepoints := hCovers.savepoints.eq_of_length hLength
  rw [hLivePoints, ← hPoints] at hSavepoints
  simp only [Tables.readsBack, Bool.and_eq_true, List.all_eq_true]
  rw [hLive, ← hCovers.metainfo trivial, hLiveFields, ← hCovers.fields trivial,
    hLivePoints, ← hPoints]
  refine ⟨⟨Metainfo.readsBack_of_reread? hReread hMetainfo, ?_⟩, ?_⟩
  · exact forall_of_mapM_beq hRereadFields hFields fun _ _ => FieldInfo.readsBack_of_reread?
  · exact forall_of_mapM_beq hRereadPoints hSavepoints fun _ _ => Savepoint.readsBack_of_reread?

/-- What a session that creates an archive is given is restored exactly if documents
give it back. -/
theorem restored_iff_readsBack (hSettings : visit.config.settings = .ok s)
    (hLayout : Layout.make directory stem = .ok l) (hWell : m.disk.WellFormed)
    (hVacant : l.IsVacant m) (hBuilt : ∀ r ∈ visit.requests, r.IsBuilt)
    (hRun : visit.run directory stem m = some v)
    (hDigest : Set.InjOn (Checksum.compute s.checksum) (written s.endianness v.events)) :
    (v.session.primary.tables.readsBack = true →
      ∃ a, Archive.openForRead l v.machine = .ok a v.machine ∧
        (a.tables.metainfo == v.session.primary.tables.metainfo) = true ∧
        (a.tables.catalog.fields == v.session.primary.tables.catalog.fields) = true ∧
        a.tables.offsets.savepoints <+: v.session.primary.tables.offsets.savepoints ∧
        (IsIntact v.events → (a.tables.offsets.savepoints ==
          v.session.primary.tables.offsets.savepoints) = true)) ∧
    ((∃ a m', Archive.openForRead l v.machine = .ok a m' ∧
        (a.tables.metainfo == v.session.primary.tables.metainfo) = true ∧
        (a.tables.catalog.fields == v.session.primary.tables.catalog.fields) = true ∧
        (a.tables.offsets.savepoints ==
          v.session.primary.tables.offsets.savepoints) = true) →
      v.session.primary.tables.readsBack = true) := by
  obtain ⟨dir, hLeaves⟩ : ∃ dir, LeavesLedger l s dir True v.events v :=
    Visit.leavesLedger_of_isVacant hSettings hLayout hWell hVacant hBuilt hRun hDigest
  constructor
  · intro hReads
    obtain ⟨a, hOpen, hMetainfo, hFields, hBelow, hSavepoints⟩ := hLeaves.openForRead hReads
    refine ⟨a, hOpen, ?_, ?_, hBelow, fun hIntact => ?_⟩
    · rw [hMetainfo]
      exact BEq.rfl
    · rw [hFields]
      exact BEq.rfl
    · rw [hSavepoints hIntact]
      exact BEq.rfl
  · rintro ⟨a, m', hOpen, hMetainfo, hFields, hSavepoints⟩
    exact hLeaves.readsBack hOpen hMetainfo hFields hSavepoints

/-- The savepoints of the first sample session are restored. -/
theorem restored_sample :
    ∃ v a, Visit.run "" "a" ⟨Sample.config, none, Sample.first⟩ Sample.start = some v ∧
      Archive.openForRead Sample.layout v.machine = .ok a v.machine ∧
      (a.tables.offsets.savepoints ==
        v.session.primary.tables.offsets.savepoints) = true := by
  obtain ⟨v, w, hBoth, hLog, hReads, -⟩ := Sample.exists_run
  obtain ⟨_, _, hVisits, hRun, -⟩ := runAll_eq_cons hBoth
  cases hVisits
  have hDigest := Sample.injOn_log
  have hIntact := Sample.isIntact_log
  rw [← hLog, logOf_cons] at hDigest hIntact
  obtain ⟨hRestores, -⟩ := restored_iff_readsBack Sample.settings_eq Sample.layout_eq
    Disk.wellFormed_empty Sample.isVacant Sample.isBuilt_first hRun
    (hDigest.mono (written_append_left _ _ _))
  obtain ⟨a, hOpen, -, -, -, hSavepoints⟩ := hRestores hReads
  exact ⟨v, a, hRun, hOpen, hSavepoints (isIntact_append.1 hIntact).1⟩

end FieldArchive.Session

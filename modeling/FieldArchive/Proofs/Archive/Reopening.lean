import FieldArchive.Proofs.Archive.Opening
import FieldArchive.Proofs.Arena
import FieldArchive.Proofs.Directories

/-!
# Opening archives for writing

On a disk that keeps a ledger whose savepoints documents give back, an archive is
opened for writing as what they give back for the ledger, and its data file is cut to
the contents of the ledger.  This fails only if the settings differ or a call fails, and then the
disk still keeps the ledger.  An archive that does not exist is created with the
empty ledger.
-/

namespace FieldArchive

variable {l : Layout} {s : Settings} {dir : NodeId} {saved : Ledger} {file : NodeId}
  {data : List UInt8} {d : Disk} {m m' : Machine}

/-! ## The directory -/

namespace Machine

/-- Where names lead somewhere there is no directory to make. -/
theorem makeDirectoriesFrom_of_walk {trail last : Trail} {names : List String}
    (h : m.disk.walk trail names = .ok last) (made : Bool) :
    makeDirectoriesFrom trail made names m = .ok () m := by
  induction names generalizing trail with
  | nil => rfl
  | cons name rest ih =>
      rw [Disk.walk] at h
      cases hEnter : m.disk.enter trail name with
      | error e =>
          rw [hEnter] at h
          cases h
      | ok next =>
          rw [hEnter] at h
          by_cases hDot : rest = ["."]
          · subst hDot
            rw [makeDirectoriesFrom, bind_of_ok (inspect_of_ok hEnter)]
            rfl
          · rw [makeDirectoriesFrom.eq_3 _ _ _ _ hDot,
              bind_of_ok (inspect_of_ok (a := Except.ok next) (by rw [hEnter]))]
            exact ih h

end Machine

namespace Layout

theorem namesOf_eq_ok {text : String} (hZero : '\x00' ∉ text.toList)
    (hNe : text ≠ "") (hShort : text.utf8ByteSize ≤ Disk.maxPathLength) :
    Disk.namesOf text = .ok (Path.names text) := by
  have hLong : ¬ Disk.maxPathLength < text.utf8ByteSize := by omega
  simp [Disk.namesOf, hZero, hNe, hLong]

/-- The text of a directory can be given to the file system if that of a file in
it can. -/
theorem namesOf_directory {name : String} (h : l.Admits name) (hNe : l.directory ≠ "") :
    Disk.namesOf l.directory = .ok (Path.names l.directory) := by
  have hPath := h.path
  unfold Disk.namesOf at hPath
  split at hPath
  · cases hPath
  · next hZero =>
      split at hPath
      · cases hPath
      · split at hPath
        · cases hPath
        · next hShort =>
            have hJoin : ∃ rest, Path.join l.directory name = l.directory ++ rest := by
              unfold Path.join
              split
              · exact ⟨name, rfl⟩
              · exact ⟨"/" ++ name, String.append_assoc⟩
            obtain ⟨rest, hText⟩ := hJoin
            rw [hText] at hZero hShort
            refine namesOf_eq_ok ?_ hNe ?_
            · rw [String.toList_append] at hZero
              simp only [List.contains_eq_mem, List.mem_append, decide_eq_true_eq, not_or] at hZero
              exact hZero.1
            · rw [String.utf8ByteSize_append] at hShort
              omega

/-- Making the directory of an archive that is there changes nothing. -/
theorem createDirectory_of_leadsTo {name : String} (hName : l.Admits name)
    (h : l.LeadsTo m.disk dir) : l.createDirectory m = .ok () m := by
  obtain ⟨trail, hNames⟩ := h.exists_walk
  refine Effect.ofWriteCall_ok.2 ?_
  unfold Machine.makeDirectories
  by_cases hNe : l.directory = ""
  · rw [if_pos (by simp [hNe])]
    rfl
  · rw [if_neg (by simpa using hNe),
      bind_of_ok (Machine.inspect_of_ok (namesOf_directory hName hNe))]
    exact Machine.makeDirectoriesFrom_of_walk hNames false

end Layout

/-! ## Archives that exist -/

theorem Settings.checkMatches_eq_ok_iff {session declared : Settings} :
    session.checkMatches declared = .ok () ↔ session = declared := by
  constructor
  · intro h
    unfold checkMatches at h
    split at h
    · cases h
    · split at h
      · cases h
      · split at h
        · cases h
        · obtain ⟨e, p, c⟩ := session
          obtain ⟨e', p', c'⟩ := declared
          simp_all
  · rintro rfl
    simp [checkMatches]

/-- Opening the data file of an archive finds it long enough, and cuts off what is after
the recorded contents. -/
theorem Arena.openAppend_eq (hUsable : l.IsUsable)
    (h : m.disk.KeepsLedger l s dir saved file data) :
    Arena.openAppend l.data saved.content.length m = (do
      if saved.content.length < data.length then
        Effect.ofCall (Machine.truncate file saved.content.length)
        Effect.ofCall Machine.sync
      return ⟨l.data, file, saved.content.length, true⟩ : Effect Arena) m := by
  have hFind : m.disk.find l.data = .ok file :=
    l.find_of_hasFile h.leadsTo hUsable.data h.dataFile
  have hWritable : Effect.ofWriteCall l.data (Machine.openWritable l.data) m = .ok file m :=
    Effect.ofWriteCall_ok.2 (Machine.openWritable_of_file hFind h.dataFile.node)
  have hSize : m.disk.size file = data.length := Disk.size_of_file h.dataFile.node
  have hCheck : checkPhysical l.data (m.disk.size file) saved.content.length = .ok () := by
    rw [checkPhysical_eq_ok_iff, hSize]
    exact h.content.length_le
  unfold Arena.openAppend
  rw [bind_of_ok hWritable, get_bind]
  dsimp only
  rw [hCheck, Effect.ofExcept_bind, hSize]

/-- A data file with the recorded contents alone is opened as it is. -/
theorem Arena.openAppend_of_exact (hUsable : l.IsUsable)
    (h : m.disk.KeepsLedger l s dir saved file saved.content) :
    Arena.openAppend l.data saved.content.length m =
      .ok ⟨l.data, file, saved.content.length, true⟩ m := by
  rw [openAppend_eq hUsable h, if_neg (Nat.lt_irrefl _)]
  rfl

/-- Cutting a file and making the cut durable takes two calls, each of which may fail. -/
theorem Machine.truncate_sync_cases (m : Machine) (file : NodeId) (length : Nat) (arena : Arena) :
    let cut : Effect Arena := do
      Effect.ofCall (Machine.truncate file length)
      Effect.ofCall Machine.sync
      return arena
    let resized := m.tick.record (.resize file length)
    (∃ fault, m.environment.fault m.calls = some fault ∧
      cut m = .error (.io fault.error) m.tick) ∨
    (∃ fault, m.environment.fault (m.calls + 1) = some fault ∧
      cut m = .error (.io fault.error) resized.tick) ∨
    cut m = .ok arena resized.tick := by
  intro cut resized
  -- the first call may fail, and the second one only if the first does not
  cases hFault : m.environment.fault m.calls with
  | some fault =>
      have hTruncate : Effect.ofCall (Machine.truncate file length) m =
          .error (.io fault.error) m.tick := by
        simp [Effect.ofCall, EStateM.adaptExcept, Machine.truncate, Machine.commit, hFault,
          Disk.Change.cut]
      exact Or.inl ⟨fault, rfl, bind_of_error hTruncate⟩
  | none =>
      have hTruncate : Effect.ofCall (Machine.truncate file length) m = .ok () resized := by
        simp [resized, Effect.ofCall, EStateM.adaptExcept, Machine.truncate, Machine.commit, hFault]
      have hCut : cut m = (Effect.ofCall Machine.sync >>= fun _ => return arena) resized :=
        bind_of_ok hTruncate
      right
      rw [hCut]
      cases hNext : m.environment.fault (m.calls + 1) with
      | some fault =>
          have hSync : Effect.ofCall Machine.sync resized = .error (.io fault.error)
              resized.tick := by
            simp [resized, Effect.ofCall, EStateM.adaptExcept, Machine.sync, Machine.record,
              Machine.tick, hNext]
          exact Or.inl ⟨fault, rfl, bind_of_error hSync⟩
      | none =>
          have hSync : Effect.ofCall Machine.sync resized = .ok () resized.tick := by
            simp [resized, Effect.ofCall, EStateM.adaptExcept, Machine.sync, Machine.record,
              Machine.tick, hNext]
          right
          rw [bind_of_ok hSync]
          rfl

/-- Opening the data file cuts it to the recorded contents, or fails in a call. -/
theorem Arena.openAppend_cases (hUsable : l.IsUsable)
    (h : m.disk.KeepsLedger l s dir saved file data) :
    (∃ e m' n fault, Arena.openAppend l.data saved.content.length m = .error e m' ∧
      m.environment.fault n = some fault ∧
      Machine.Proceeds (Disk.HoldsLedger l s dir saved) m m') ∨
    (∃ m', Arena.openAppend l.data saved.content.length m =
        .ok ⟨l.data, file, saved.content.length, true⟩ m' ∧
      Machine.Proceeds (Disk.HoldsLedger l s dir saved) m m' ∧
      m'.disk.KeepsLedger l s dir saved file saved.content) := by
  have hHolds : m.disk.HoldsLedger l s dir saved := ⟨file, data, h⟩
  obtain ⟨junk, hJunk⟩ := h.content
  -- the file is longer than what is recorded, or it is that
  by_cases hShort : saved.content.length < data.length
  · rw [openAppend_eq hUsable h, if_pos hShort]
    have hCut : (m.disk.apply (.resize file saved.content.length)).KeepsLedger l s dir saved file
        saved.content := by
      have hEdit := h.edit_data (fun contents => Disk.resize contents saved.content.length) (by
        rw [← hJunk, Disk.resize_append])
      rwa [← hJunk, Disk.resize_append] at hEdit
    have hRecord : Machine.Proceeds (Disk.HoldsLedger l s dir saved) m
        (m.tick.record (.resize file saved.content.length)) := by
      refine .record rfl hHolds ⟨file, _, hCut⟩ ?_
      intro count c' hPart
      cases hPart
    rcases Machine.truncate_sync_cases m file saved.content.length
        ⟨l.data, file, saved.content.length, true⟩ with ⟨fault, hFault, hFails⟩ |
      ⟨fault, hFault, hFails⟩ | hDone
    · exact Or.inl ⟨_, _, _, fault, hFails, hFault, .tick hHolds⟩
    · exact Or.inl ⟨_, _, _, fault, hFails, hFault, hRecord.trans (.tick hRecord.last)⟩
    · exact Or.inr ⟨_, hDone, hRecord.trans (.tick hRecord.last), hCut⟩
  · have hData : data = saved.content := by
      have hLength : junk.length = 0 := by
        have hSum := congrArg List.length hJunk
        rw [List.length_append] at hSum
        omega
      rw [← hJunk, List.eq_nil_of_length_eq_zero hLength, List.append_nil]
    subst hData
    exact Or.inr ⟨m, openAppend_of_exact hUsable h, .refl hHolds, h⟩

namespace Archive

/-- An archive that was just opened for writing. -/
theorem followsLedger_ofDocument (hUsable : l.IsUsable) (sync : Bool)
    (h : m.disk.KeepsLedger l s dir saved file saved.content) {again : Ledger}
    (hRereads : saved.Rereads again) (hPoints : ∀ p ∈ saved.savepoints, p.readsBack = true)
    {tables : Tables} (hTables : tables.Records s again) (id : ArchiveId)
    (createdAt updatedAt : String) :
    FollowsLedger l s dir (again = saved) True again saved
      (ofDocument l .write (again.document id createdAt updatedAt s) tables
        ⟨l.data, file, saved.content.length, true⟩ sync) m where
  usable := hUsable
  layout := rfl
  mode := rfl
  settings := rfl
  tables := hTables
  isValid := hRereads.isValid h.isValid (by
    rw [hRereads.savepoints_eq hPoints]
    exact h.isValid.savepoints)
  writes := by rw [hRereads.writes]
  arena := ⟨_, saved.content, rfl, rfl, by rw [hRereads.content_eq], h,
    by rw [hRereads.content_eq], fun _ => by rw [hRereads.content_eq]⟩
  clean _ := ⟨rfl, hRereads.covers hPoints fun hExact => hExact, fun hExact _ => hExact.symm⟩

/-- Opening the data file of an archive whose metadata is there. -/
def openData (l : Layout) (valid : Nat) (m : Machine) : EStateM.Result Error Machine Arena :=
  if m.disk.exists? l.data then Arena.openAppend l.data valid m
  else if valid = 0 then Arena.create l.data m
  else .error (.corruptMetadata (.missingData l.data valid)) m

/-- An archive whose metadata is there is opened only if its document is accepted and
declares the settings of the session. -/
theorem reopenForWrite_eq (l : Layout) (session : Settings) (sync : Bool) (m : Machine) :
    reopenForWrite l session sync m =
      match Document.load m.disk l.metadata with
      | .error e => .error e m
      | .ok doc =>
          match session.checkMatches doc.settings with
          | .error difference => .error (.invalidArgument (.settings difference)) m
          | .ok _ =>
              match doc.tables with
              | .error e => .error e m
              | .ok tables =>
                  match openData l doc.dataLength m with
                  | .error e m' => .error e m'
                  | .ok arena m' => .ok (ofDocument l .write doc tables arena sync) m' := by
  rw [reopenForWrite, get_bind, Effect.ofExcept_bind]
  cases Document.load m.disk l.metadata with
  | error e => rfl
  | ok doc =>
      dsimp only
      cases session.checkMatches doc.settings with
      | error difference => rfl
      | ok _ =>
          dsimp only
          rw [Effect.ofExcept_bind]
          cases doc.tables with
          | error e => rfl
          | ok tables =>
              dsimp only
              rw [get_bind, openData]
              split
              · cases hArena : Arena.openAppend l.data doc.dataLength m with
                | error e m' => exact bind_of_error hArena
                | ok arena m' => exact bind_of_ok hArena
              · split
                · cases hArena : Arena.create l.data m with
                  | error e m' => exact bind_of_error hArena
                  | ok arena m' => exact bind_of_ok hArena
                · rfl

/-- Opening an archive that exists loads its document, compares the settings, builds
the tables and opens the data file. -/
theorem openForWrite_of_keepsLedger (hUsable : l.IsUsable)
    (h : m.disk.KeepsLedger l s dir saved file data) (session : Settings) (sync : Bool) :
    openForWrite l session sync m =
      match Document.load m.disk l.metadata with
      | .error e => .error e m
      | .ok doc =>
          match session.checkMatches doc.settings with
          | .error difference => .error (.invalidArgument (.settings difference)) m
          | .ok _ =>
              match doc.tables with
              | .error e => .error e m
              | .ok tables => (do
                  let arena ← Arena.openAppend l.data doc.dataLength
                  return ofDocument l .write doc tables arena sync : Effect Archive) m := by
  obtain ⟨node, _, _, _, hMetadata⟩ := h.metadata
  have hExists : m.disk.exists? l.metadata = true :=
    l.exists?_of_hasFile h.leadsTo hUsable.metadata hMetadata
  have hData : m.disk.exists? l.data = true :=
    l.exists?_of_hasFile h.leadsTo hUsable.data h.dataFile
  -- the directory is there, and the metadata and the data file in it
  unfold openForWrite
  rw [bind_of_ok (l.createDirectory_of_leadsTo hUsable.metadata h.leadsTo), get_bind, hExists,
    if_pos rfl, reopenForWrite_eq]
  cases Document.load m.disk l.metadata with
  | error e => rfl
  | ok doc =>
      dsimp only
      cases session.checkMatches doc.settings with
      | error difference => rfl
      | ok _ =>
          dsimp only
          cases doc.tables with
          | error e => rfl
          | ok tables =>
              dsimp only
              rw [openData, if_pos hData]
              cases hArena : Arena.openAppend l.data doc.dataLength m with
              | error e m' => rw [bind_of_error hArena]
              | ok arena m' =>
                  rw [bind_of_ok hArena]
                  rfl

/-- A new archive, before its metadata is written. -/
def fresh (l : Layout) (s : Settings) (sync : Bool) (arena : Arena) (id : ArchiveId)
    (createdAt : String) : Archive :=
  { layout := l
    mode := .write
    settings := s
    id := id
    createdAt := createdAt
    tables := ⟨.empty, .empty, .empty s.checksum⟩
    arena := some arena
    recordedLength := 0
    dirty := true
    syncData := sync }

/-- The archive in a result, if there is one. -/
def settled : EStateM.Result Error (Archive × Machine) Unit → EStateM.Result Error Machine Archive
  | .ok _ (a, m) => .ok a m
  | .error e (_, m) => .error e m

/-- Creating an archive makes its data file and then its metadata file. -/
theorem createForWrite_eq (l : Layout) (s : Settings) (sync : Bool) (m : Machine) :
    createForWrite l s sync m =
      match Arena.create l.data m with
      | .error e m₁ => .error e m₁
      | .ok arena m₁ =>
          settled (persist (fresh l s sync arena (m₁.environment.identifier m₁.calls)
            (m₁.environment.clock m₁.tick.calls), m₁.tick.tick)) := by
  unfold createForWrite
  cases hArena : Arena.create l.data m with
  | error e m₁ => exact bind_of_error hArena
  | ok arena m₁ =>
      rw [bind_of_ok hArena]
      rfl

/-- Opening an archive that exists fails only for other settings or in a call, if
documents give back its savepoints as they were. -/
theorem openForWrite_of_rereads (hUsable : l.IsUsable)
    (h : m.disk.KeepsLedger l s dir saved file data) {again : Ledger}
    (hRereads : saved.Rereads again) (hPoints : ∀ p ∈ saved.savepoints, p.readsBack = true)
    (session : Settings) (sync : Bool) :
    (∃ e m', openForWrite l session sync m = .error e m' ∧
      Machine.Proceeds (Disk.HoldsLedger l s dir saved) m m' ∧
      (session ≠ s ∨ ∃ n fault, m.environment.fault n = some fault)) ∨
    (∃ a m', session = s ∧ openForWrite l session sync m = .ok a m' ∧
      Machine.Proceeds (Disk.HoldsLedger l s dir saved) m m' ∧
      FollowsLedger l s dir (again = saved) True again saved a m' ∧ a.dirty = false) := by
  obtain ⟨id, createdAt, updatedAt, hLoad⟩ := Document.load_of_keepsLedger hUsable h
  rw [hRereads.reread?_document] at hLoad
  have hSavepoints : again.savepoints.Pairwise fun a b => (a == b) = false := by
    rw [hRereads.savepoints_eq hPoints]
    exact h.isValid.savepoints
  -- what is given back is valid again, so tables are built from it
  obtain ⟨tables, hTables, hRepresents⟩ := Document.exists_tables
    ((hRereads.isValid h.isValid hSavepoints).isSound id createdAt updatedAt)
  have hDeclared : (again.document id createdAt updatedAt s).settings = s := rfl
  have hLength : (again.document id createdAt updatedAt s).dataLength = saved.content.length :=
    congrArg List.length hRereads.content_eq
  rw [openForWrite_of_keepsLedger hUsable h, hLoad]
  dsimp only
  rw [hDeclared]
  by_cases hSame : session = s
  · rw [Settings.checkMatches_eq_ok_iff.2 hSame]
    dsimp only
    rw [hTables]
    dsimp only
    rw [hLength]
    rcases Arena.openAppend_cases hUsable h with ⟨e, m', n, fault, hError, hFault, hTo⟩ |
      ⟨m', hOk, hTo, hKeeps⟩
    · exact Or.inl ⟨e, m', bind_of_error hError, hTo, Or.inr ⟨n, fault, hFault⟩⟩
    · refine Or.inr ⟨_, m', hSame, by rw [bind_of_ok hOk]; rfl, hTo, ?_, rfl⟩
      exact followsLedger_ofDocument hUsable sync hKeeps hRereads hPoints hRepresents.records id
        createdAt updatedAt
  · cases hMatches : session.checkMatches s with
    | ok _ => exact absurd (Settings.checkMatches_eq_ok_iff.1 hMatches) hSame
    | error difference =>
        exact Or.inl ⟨.invalidArgument (.settings difference), m, rfl, .refl ⟨file, data, h⟩,
          Or.inl hSame⟩

/-- If documents give back all metainfo as it was, so is the archive. -/
theorem openForWrite_cases (hUsable : l.IsUsable) (h : m.disk.KeepsLedger l s dir saved file data)
    (hReads : saved.readsBack = true) (session : Settings) (sync : Bool) :
    (∃ e m', openForWrite l session sync m = .error e m' ∧
      Machine.Proceeds (Disk.HoldsLedger l s dir saved) m m' ∧
      (session ≠ s ∨ ∃ n fault, m.environment.fault n = some fault)) ∨
    (∃ a m', session = s ∧ openForWrite l session sync m = .ok a m' ∧
      Machine.Proceeds (Disk.HoldsLedger l s dir saved) m m' ∧
      FollowsLedger l s dir True True saved saved a m' ∧ a.dirty = false) := by
  refine (openForWrite_of_rereads hUsable h (Ledger.rereads_self hReads)
    (Ledger.readsBack_iff.1 hReads).2.2 session sync).imp_right ?_
  rintro ⟨a, m', hSame, hOk, hTo, hFollows, hClean⟩
  exact ⟨a, m', hSame, hOk, hTo, hFollows.mono (fun _ => rfl) fun _ => trivial, hClean⟩

end Archive

/-! ## New archives -/

/-- No archive is met once the directory of a layout is made. -/
def Layout.IsVacant (l : Layout) (m : Machine) : Prop :=
  ∀ m', l.createDirectory m = .ok () m' → m'.disk.exists? l.metadata = false

/-- Directories that are made leave a disk well-formed, and the environment. -/
theorem Layout.wellFormed_of_createDirectory (h : m.disk.WellFormed)
    (hOk : l.createDirectory m = .ok () m') :
    m'.disk.WellFormed ∧ m'.environment = m.environment := by
  have hAllows : l.AllowsDirectories fun m m' => m.disk.WellFormed ∧ m'.disk.WellFormed ∧
      m'.environment = m.environment :=
    { trans := fun ⟨h, _, hSame⟩ ⟨_, h', hSame'⟩ => ⟨h, h', hSame'.trans hSame⟩
      last := fun ⟨_, h, _⟩ => ⟨h, h, rfl⟩
      tick := fun ⟨h, _, _⟩ => ⟨h, h, rfl⟩
      make := fun ⟨h, _, _⟩ _ _ => ⟨h, h.addNode _ _, rfl⟩ }
  exact (hAllows.of_createDirectory ⟨h, h, rfl⟩ hOk).2

/-- A file that was opened empty is in the directory of its layout. -/
theorem Layout.openEmpty_join_ok {name : String} (hPlain : Path.IsPlain name)
    (h : m.disk.WellFormed)
    (hOk : Machine.openEmpty (Path.join l.directory name) m = .ok file m') :
    l.Admits name ∧ ∃ dir, l.LeadsTo m.disk dir ∧ l.LeadsTo m'.disk dir ∧
      m'.disk.WellFormed ∧ m'.disk.HasFile ⟨dir, name⟩ file [] ∧
      m' = m.tick.record (.makeEmpty ⟨dir, name⟩) := by
  obtain ⟨slot, hSlot, hFile, hWell, hKeep⟩ := Machine.hasFile_of_openEmpty h hOk
  obtain ⟨slot', hSlot', rfl, -⟩ := Machine.openEmpty_ok hOk
  obtain rfl : slot = slot' := Except.ok.inj (hSlot.symm.trans hSlot')
  obtain ⟨hAdmits, dir, hLeads, rfl, -⟩ := l.locateFile_join_ok hPlain hSlot
  exact ⟨hAdmits, dir, hLeads, hLeads.mono hKeep, hWell, hFile, rfl⟩

/-- A metadata file that was put beside a data file holds its document, and the
temporary name is free again. -/
theorem Document.persist_ok {doc : Document} (hPlain : l.HasPlainNames)
    (hWell : m.disk.WellFormed) (hLeads : l.LeadsTo m.disk dir)
    (hData : m.disk.HasFile (l.dataSlot dir) file data)
    (hOk : doc.persist l.metadata l.temporary m = .ok () m') :
    l.Admits l.metadataName ∧ l.Admits l.temporaryName ∧ m'.disk.WellFormed ∧
      l.LeadsTo m'.disk dir ∧ m'.disk.HasFile (l.dataSlot dir) file data ∧
      (∃ node, m'.disk.HasFile (l.metadataSlot dir) node (Disk.textBytes doc.text)) ∧
      m'.disk.entries.get? (l.temporarySlot dir) = none ∧ m'.environment = m.environment := by
  -- no call has failed: the file is made, written and renamed
  have hCall := Effect.ofCall_ok.1 hOk
  obtain ⟨node, m₁, hOpen, hCall₁⟩ := bind_eq_ok hCall
  obtain ⟨hTemporary, dir', hLeads', hLeads₁, hWell₁, hEmpty, hMachine₁⟩ :=
    Layout.openEmpty_join_ok hPlain.temporary hWell hOpen
  obtain rfl := hLeads.unique hLeads'
  have hData₁ : m₁.disk.HasFile (l.dataSlot dir) file data := by
    rw [hMachine₁]
    exact hData.makeEmpty_ne hWell (l.temporarySlot_ne_dataSlot dir)
  obtain ⟨_, m₂, hWrite, hCall₂⟩ := bind_eq_ok hCall₁
  obtain ⟨-, hFile⟩ := hasFile_of_write_ok hEmpty hWrite
  have hWritten : m₂.disk.WellFormed ∧ l.LeadsTo m₂.disk dir ∧
      m₂.disk.HasFile (l.dataSlot dir) file data ∧ m₂.environment = m.environment := by
    have hWorld : m₁.environment = m.environment := by rw [hMachine₁]; rfl
    rcases Machine.write_ok hWrite with ⟨-, rfl⟩ | ⟨-, rfl⟩
    · exact ⟨hWell₁, hLeads₁, hData₁, hWorld⟩
    · refine ⟨hWell₁.edit _ _, hLeads₁.mono (Disk.keepsDirectories_edit _ _ _),
        hData₁.edit_ne ?_ _, hWorld⟩
      exact Disk.HasFile.id_ne hWell₁ hEmpty hData₁ (l.temporarySlot_ne_dataSlot dir)
  obtain ⟨hWell₂, hLeads₂, hData₂, hWorld₂⟩ := hWritten
  obtain ⟨_, m₃, hSync, hCall₃⟩ := bind_eq_ok hCall₂
  obtain rfl := Machine.sync_ok hSync
  obtain ⟨_, m₄, hRename, hCall₄⟩ := bind_eq_ok hCall₃
  obtain rfl := Machine.sync_ok hCall₄
  obtain ⟨source, target, number, hSource, hTarget, hEntry, rfl⟩ := Machine.rename_ok hRename
  -- both names are in the directory that the data file is in
  obtain ⟨rfl, hSourceNode⟩ := l.locateFile_join_of_leadsTo hLeads₂ hTemporary hSource
  obtain ⟨hMetadata, dir'', hLeads'', rfl, hTargetNode⟩ :=
    l.locateFile_join_ok hPlain.metadata hTarget
  obtain rfl := hLeads₂.unique hLeads''
  refine ⟨hMetadata, hTemporary, hWell₂.rename _ _, ?_, ?_, ⟨node, ?_⟩, ?_, hWorld₂⟩
  · exact hLeads₂.mono (Disk.keepsDirectories_rename hWell₂ hSourceNode hTargetNode)
  · exact hData₂.rename_ne hWell₂ hEntry (l.temporarySlot_ne_dataSlot dir)
      (l.metadataSlot_ne_dataSlot dir)
  · exact hFile.rename hWell₂ _
  · refine (Disk.entries_rename hWell₂ hEntry (l.temporarySlot dir)).trans ?_
    exact (if_neg (l.temporarySlot_ne_metadataSlot dir).symm).trans (if_pos rfl)

/-- A new archive has empty tables and follows the empty ledger; its metadata file has
its identity. -/
theorem Archive.openForWrite_new (hPlain : l.HasPlainNames) (hWell : m.disk.WellFormed)
    (hVacant : l.IsVacant m) {sync : Bool} {a : Archive}
    (hOk : openForWrite l s sync m = .ok a m') :
    ∃ dir file id createdAt updatedAt,
      a = { layout := l, mode := .write, settings := s, id := id, createdAt := createdAt
            tables := ⟨.empty, .empty, .empty s.checksum⟩
            arena := some ⟨l.data, file, 0, true⟩
            recordedLength := 0, dirty := false, syncData := sync } ∧
      FollowsLedger l s dir True True .empty .empty a m' ∧
      (∃ node, m'.disk.HasFile (l.metadataSlot dir) node
        (Disk.textBytes (Ledger.empty.document id createdAt updatedAt s).text)) ∧
      m'.disk.entries.get? (l.temporarySlot dir) = none ∧ m'.environment = m.environment ∧
      (∃ n, id = m.environment.identifier n) ∧ ∃ n, createdAt = m.environment.clock n := by
  unfold openForWrite at hOk
  obtain ⟨_, m₁, hDirectory, hOk₁⟩ := bind_eq_ok hOk
  rw [get_bind, hVacant m₁ hDirectory, if_neg (by simp)] at hOk₁
  rw [createForWrite_eq] at hOk₁
  -- the directory is made first, then the data file, and the metadata last
  obtain ⟨hWell₁, hWorld₁⟩ := Layout.wellFormed_of_createDirectory hWell hDirectory
  cases hCreate : Arena.create l.data m₁ with
  | error e m₂ =>
      rw [hCreate] at hOk₁
      cases hOk₁
  | ok arena m₂ =>
      obtain ⟨file, m₂', hOpen, hArena⟩ := bind_eq_ok hCreate
      cases hArena
      obtain ⟨hDataName, dir, -, hLeads₂, hWell₂, hData₂, hMachine₂⟩ :=
        Layout.openEmpty_join_ok hPlain.data hWell₁ (Effect.ofWriteCall_ok.1 hOpen)
      rw [hCreate] at hOk₁
      dsimp only at hOk₁
      set new := fresh l s sync ⟨l.data, file, 0, true⟩ (m₂.environment.identifier m₂.calls)
        (m₂.environment.clock m₂.tick.calls) with hNew
      have hDocument : ∀ updatedAt, new.document updatedAt =
          Ledger.empty.document new.id new.createdAt updatedAt s := fun _ => rfl
      rw [persist_eq, hDocument] at hOk₁
      cases hDone : (Ledger.empty.document new.id new.createdAt
          (m₂.tick.tick.environment.clock m₂.tick.tick.calls) s).persist new.layout.metadata
          new.layout.temporary m₂.tick.tick.tick with
      | error e m₃ =>
          rw [hDone] at hOk₁
          cases hOk₁
      | ok v m₃ =>
          rw [hDone] at hOk₁
          cases hOk₁
          obtain ⟨hMetadata, hTemporary, hWell₃, hLeads₃, hData₃, ⟨node, hFile⟩, hFree, hWorld₃⟩ :=
            Document.persist_ok hPlain (m := m₂.tick.tick.tick) hWell₂ hLeads₂ hData₂ hDone
          have hWorld₂ : m₂.environment = m.environment :=
            (show m₂.environment = m₁.environment by rw [hMachine₂]; rfl).trans hWorld₁
          refine ⟨dir, file, new.id, new.createdAt, _, rfl, ?_, ⟨node, hFile⟩, hFree,
            hWorld₃.trans hWorld₂, ⟨_, by rw [← hWorld₂]; rfl⟩, ⟨_, by rw [← hWorld₂]; rfl⟩⟩
          refine ⟨⟨hMetadata, hTemporary, hDataName⟩, rfl, rfl, rfl, .of_empty s,
            Ledger.isValid_empty _, List.prefix_refl _, ?_, ?_⟩
          · refine ⟨_, [], rfl, rfl, rfl, ?_, List.prefix_refl _, fun _ => rfl⟩
            exact ⟨hWell₃, hLeads₃, Ledger.isValid_empty _, Nat.zero_le _,
              ⟨node, _, _, _, hFile⟩, hData₃, List.prefix_refl _⟩
          · intro _
            exact ⟨rfl, .refl _ _, fun _ _ => rfl⟩

/-- A new archive follows the empty ledger, in memory and on its disk. -/
theorem Archive.openForWrite_of_isVacant (hPlain : l.HasPlainNames) (hWell : m.disk.WellFormed)
    (hVacant : l.IsVacant m) {sync : Bool} {a : Archive}
    (hOk : openForWrite l s sync m = .ok a m') :
    ∃ dir, FollowsLedger l s dir True True .empty .empty a m' ∧ a.dirty = false ∧
      m'.environment = m.environment := by
  obtain ⟨dir, file, id, createdAt, updatedAt, rfl, hFollows, -, -, hWorld, -⟩ :=
    openForWrite_new hPlain hWell hVacant hOk
  exact ⟨dir, hFollows, rfl, hWorld⟩

end FieldArchive

import FieldArchive.Proofs.Archive.Bystanders
import FieldArchive.Proofs.Archive.Sparing
import FieldArchive.Proofs.Session.Progress
import FieldArchive.Proofs.Session.Resolution

/-!
# Archives do not interfere

A session changes the files of its archive and no others, whatever is asked of it and
whatever fails (`Session.isolation`).  The invariant of a session that was opened for
writing is that it is in step and that its archive writes at its own place; a session that
was opened for reading changes nothing.

The disk is assumed to be well-formed, so that no file has two names.
-/

namespace FieldArchive.Session

open Machine (Relates Spares)

variable {session : Session} {m m' : Machine} {l : Layout} {directory stem : String}
  {mode : Mode} {reference : Option String} {config : Config}

/-- The machine after a session was opened, and asked for some calls if it could be. -/
def use (directory stem : String) (mode : Mode) (reference : Option String) (config : Config)
    (calls : List Call) (start : Machine) : Machine :=
  match openWith directory stem mode reference config start with
  | .ok session m => (afterCalls calls session m).2
  | .error _ m => m

theorem afterCalls_append (calls more : List Call) (session : Session) (m : Machine) :
    afterCalls (calls ++ more) session m =
      afterCalls more (afterCalls calls session m).1 (afterCalls calls session m).2 := by
  induction calls generalizing session m with
  | nil => rfl
  | cons call rest ih => exact ih _ _

theorem afterCalls_requests (requests : List Request) (session : Session) (m : Machine) :
    afterCalls (requests.map .request) session m = (serve requests (session, m)).2 := by
  induction requests generalizing session m with
  | nil => rfl
  | cons request rest ih => exact ih _ _

/-- A visit is a session that is asked for its requests and then closed. -/
theorem use_of_run {visit : Visit} {visited : Visited}
    (hRun : visit.run directory stem m = some visited) :
    use directory stem .write visit.reference visit.config
      (visit.requests.map .request ++ [.close]) m = visited.machine := by
  unfold Visit.run at hRun
  unfold use
  split at hRun
  · cases hRun
  · next session m₁ hOpen =>
      simp only [hOpen, afterCalls_append, afterCalls_requests]
      dsimp only at hRun
      split at hRun
      · cases hRun
      · next hClose =>
          cases hRun
          simp only [afterCalls, Call.perform, hClose, Outcome.ofResult]

/-! ## Sessions that change nothing -/

theorem isTakenIn_closed (operation : Operation) : operation.isTakenIn .closed = false := by
  cases operation <;> rfl

/-- A call of a closed session leaves the machine as it is. -/
theorem machine_of_closed (hClosed : session.status = .closed) (call : Call) (m : Machine) :
    (call.perform session m).machine = m := by
  cases hOperation : call.operation? with
  | some operation =>
      have hRefused : operation.isTakenIn session.status = false := by
        rw [hClosed]
        exact isTakenIn_closed operation
      rw [call.perform_of_refused hOperation hRefused]
  | none =>
      -- what is not refused is to close, to enable and to disable
      rcases call.cases_perform session m with ⟨request, rfl⟩ | rfl | ⟨-, -, hMachine⟩
      · cases request <;> first | rfl | cases hOperation
      · rw [perform_close_of_closed hClosed]
      · exact hMachine

/-- A call of a session that is open for reading leaves the machine as it is, also the one
to close. -/
theorem InStep.machine_of_read (h : session.InStep) (hStatus : session.status = .openForRead)
    (call : Call) (m : Machine) : (call.perform session m).machine = m := by
  cases hCall : call.isClose with
  | false =>
      obtain ⟨enabled, -, hMachine⟩ := h.perform_of_read hStatus hCall m
      exact hMachine
  | true =>
      cases call with
      | close =>
          have hMode : session.primary.mode = .read :=
            ((Archive.status_eq_iff .read).1 (h.status.symm.trans hStatus)).1
          obtain ⟨a, hClose⟩ := Archive.close_of_read hMode m
          rw [h.close_eq (by rw [hStatus]; nofun)]
          simp only [Archive.Command.perform, hClose, Archive.Outcome.ofResult]
      | _ => cases hCall

theorem InStep.afterCalls_of_read (h : session.InStep)
    (hStatus : session.status = .openForRead ∨ session.status = .closed) (calls : List Call)
    (m : Machine) : (afterCalls calls session m).2 = m := by
  induction calls generalizing session with
  | nil => rfl
  | cons call rest ih =>
      obtain ⟨hNext, hAfter, -⟩ := h.perform call m
      have hMachine : (call.perform session m).machine = m := by
        rcases hStatus with hRead | hClosed
        · exact h.machine_of_read hRead call m
        · exact machine_of_closed hClosed call m
      rw [afterCalls, hMachine]
      refine ih hNext ?_
      rw [hAfter, Call.statusAfter]
      split
      · exact Or.inr rfl
      · exact hStatus

/-! ## Sessions for writing -/

/-- A call of a session on a writer changes the files of its archive alone, whether it
succeeds or fails. -/
theorem InStep.spares_perform (h : session.InStep) (hPlain : l.HasPlainNames)
    (hWrites : Archive.WritesAt l session.primary m) (call : Call) :
    Spares l m (call.perform session m).machine ∧
      Archive.WritesAt l (call.perform session m).session.primary
        (call.perform session m).machine := by
  rcases call.cases_perform session m with ⟨request, rfl⟩ | rfl | ⟨-, hSession, hMachine⟩
  · obtain ⟨commands, -, hRuns⟩ := request.exists_commands session m
    rw [Request.Runs] at hRuns
    show Spares l m (request.perform (session, m)).2.2 ∧
      Archive.WritesAt l (request.perform (session, m)).2.1.primary
        (request.perform (session, m)).2.2
    rw [hRuns]
    exact hWrites.afterRun hPlain commands
  · by_cases hClosed : session.status = .closed
    · rw [perform_close_of_closed hClosed]
      exact ⟨.refl hWrites.disk, hWrites⟩
    · rw [h.close_eq hClosed]
      exact hWrites.perform hPlain .close
  · rw [hSession, hMachine]
    exact ⟨.refl hWrites.disk, hWrites⟩

/-- By induction on the calls; each leaves a session in step and an archive that writes at its
own place. -/
theorem InStep.spares_afterCalls (h : session.InStep) (hPlain : l.HasPlainNames)
    (hWrites : Archive.WritesAt l session.primary m) (calls : List Call) :
    Spares l m (afterCalls calls session m).2 := by
  induction calls generalizing session m with
  | nil => exact .refl hWrites.disk
  | cons call rest ih =>
      obtain ⟨hTo, hNext⟩ := h.spares_perform hPlain hWrites call
      exact hTo.trans (ih (h.perform call m).1 hNext)

/-- A session changes the files of its archive alone, from its opening on. -/
theorem spares_use (hLayout : Layout.make directory stem = .ok l) {start : Machine}
    (hWell : start.disk.WellFormed) (calls : List Call) :
    Spares l start (use directory stem mode reference config calls start) := by
  have hPlain := Layout.hasPlainNames_of_make hLayout
  unfold use
  cases hOpen : openWith directory stem mode reference config start with
  | error e m =>
      rcases openWith_error hOpen with rfl | ⟨-, l', settings, hLayout', -, hFails⟩
      · exact .refl hWell
      · obtain rfl : l = l' := Except.ok.inj (hLayout.symm.trans hLayout')
        have hTo := (Archive.spares_openForWrite hPlain hWell settings config.syncData).related
        rwa [hFails] at hTo
  | ok session m =>
      obtain ⟨hStep, hStatus⟩ := inStep_of_openWith hOpen
      obtain ⟨settings, a, other, durability, -, -, hPrimary, rfl⟩ := openWith_ok hLayout hOpen
      cases mode with
      | read =>
          obtain ⟨rfl, -⟩ := Archive.openForRead_unchanged hPrimary
          dsimp only
          rw [hStep.afterCalls_of_read (Or.inl hStatus)]
          exact .refl hWell
      | write =>
          obtain ⟨hTo, hWrites⟩ := Archive.writesAt_of_openForWrite hPlain hWell hPrimary
          exact hTo.trans (hStep.spares_afterCalls hPlain hWrites calls)

theorem use_of_read (calls : List Call) (start : Machine) :
    use directory stem .read reference config calls start = start := by
  unfold use
  cases hOpen : openWith directory stem .read reference config start with
  | error e m =>
      rcases openWith_error hOpen with rfl | ⟨hMode, -⟩
      · rfl
      · cases hMode
  | ok session m =>
      obtain ⟨hStep, hStatus⟩ := inStep_of_openWith hOpen
      obtain ⟨l, hLayout⟩ := exists_layout_of_openWith hOpen
      obtain ⟨settings, a, other, durability, -, -, hPrimary, -⟩ := openWith_ok hLayout hOpen
      obtain ⟨rfl, -⟩ := Archive.openForRead_unchanged hPrimary
      exact hStep.afterCalls_of_read (Or.inl hStatus) calls m

/-! ## Sessions on other archives -/

section Readers

variable {other : String} {sibling : Option String} {given : Config} {reader : Session}
  {dir : NodeId} {d d' : Disk}

theorem findIn_congr {archives : List Archive} {point : Savepoint} {name : String}
    (h : ∀ a ∈ archives, a.readBytes d' point name = a.readBytes d point name) :
    findIn d' point name archives = findIn d point name archives := by
  induction archives with
  | nil => rfl
  | cons a rest ih =>
      rw [findIn, findIn, h a List.mem_cons_self, ih fun b hb => h b (List.mem_cons_of_mem _ hb)]

section Spared

variable (hLayout : Layout.make directory stem = .ok l) (h : l.Spares m.disk m'.disk)
  (hLeads : l.LeadsTo m.disk dir) (hSibling : sibling ≠ some stem)

include hLayout h hLeads hSibling

theorem answer_openReference_eq {r : Layout} (hDirectory : r.directory = directory) :
    Effect.answer (openReference r sibling) m' = Effect.answer (openReference r sibling) m := by
  cases sibling with
  | none => rfl
  | some found =>
      simp only [openReference]
      split
      · rfl
      · rw [Effect.answer_ofExcept_bind, Effect.answer_ofExcept_bind]
        cases hMade : (r.sibling found).mapError Error.invalidArgument with
        | error e => rfl
        | ok r' =>
            have hLayout' : Layout.make directory found = .ok r' := by
              rw [← hDirectory]
              exact mapError_eq_ok_iff.1 hMade
            have hBeside : l.IsBeside r' :=
              Layout.isBeside_of_make hLayout hLayout' fun hSame => hSibling (congrArg some hSame)
            have hLooks := Archive.looks_openForRead r'
            show Effect.answer (Archive.openForRead r' >>= _) m' =
              Effect.answer (Archive.openForRead r' >>= _) m
            rw [hLooks.answer_bind, hLooks.answer_bind,
              Archive.answer_openForRead_eq h hLeads hBeside]
            rfl

/-- Opening a session on other archives of the directory has the same answer. -/
theorem answer_openWith_eq (hNe : other ≠ stem) :
    Effect.answer (openWith directory other .read sibling given) m' =
      Effect.answer (openWith directory other .read sibling given) m := by
  unfold openWith
  rw [Effect.answer_ofExcept_bind, Effect.answer_ofExcept_bind]
  refine bind_congr fun settings => ?_
  rw [Effect.answer_ofExcept_bind, Effect.answer_ofExcept_bind]
  refine bind_congr fun durability => ?_
  rw [Effect.answer_ofExcept_bind, Effect.answer_ofExcept_bind]
  cases hMade : (Layout.make directory other).mapError Error.invalidArgument with
  | error e => rfl
  | ok r =>
      have hLayout' : Layout.make directory other = .ok r := mapError_eq_ok_iff.1 hMade
      have hBeside : l.IsBeside r := Layout.isBeside_of_make hLayout hLayout' hNe
      have hReference := looks_openReference r sibling
      have hPrimary := Archive.looks_openForRead r
      show Effect.answer (openReference r sibling >>= _) m' =
        Effect.answer (openReference r sibling >>= _) m
      rw [hReference.answer_bind, hReference.answer_bind,
        answer_openReference_eq hLayout h hLeads hSibling (by rw [Layout.make_eq_ok hLayout'])]
      refine bind_congr fun found => ?_
      show Effect.answer (Archive.openForRead r >>= _) m' =
        Effect.answer (Archive.openForRead r >>= _) m
      rw [hPrimary.answer_bind, hPrimary.answer_bind,
        Archive.answer_openForRead_eq h hLeads hBeside]
      rfl

/-- A session on other archives of the directory reads the same. -/
theorem locate_eq (hNe : other ≠ stem)
    (hOpen : openWith directory other .read sibling given m = .ok reader m) (point : Savepoint)
    (name : String) : reader.locate m'.disk point name = reader.locate m.disk point name := by
  unfold locate
  rw [findIn_congr fun a ha => ?_]
  obtain ⟨found, r, hFound, hLayout', hRead⟩ := openForRead_of_mem hOpen a ha
  have hOther : found ≠ stem := by
    rcases hFound with rfl | rfl
    · exact hNe
    · exact fun hSame => hSibling (congrArg some hSame)
  have hBeside : l.IsBeside r := Layout.isBeside_of_make hLayout hLayout' hOther
  exact Archive.readBytes_eq_of_openForRead h hLeads hBeside hRead point name

end Spared

/-- Opening a session for reading leaves the machine as it is. -/
theorem looks_openWith_read (directory stem : String) (reference : Option String)
    (config : Config) : Effect.Looks (openWith directory stem .read reference config) :=
  (Effect.looks_ofExcept _).bind fun _ => (Effect.looks_ofExcept _).bind fun _ =>
    (Effect.looks_ofExcept _).bind fun l => (looks_openReference l reference).bind fun _ =>
      (Archive.looks_openForRead l).bind fun _ => Effect.looks_pure _

/-- Whoever has another archive of the directory open would open it again, and reads the
same. -/
theorem reads_alike (hLayout : Layout.make directory stem = .ok l)
    (h : l.Spares m.disk m'.disk) (hSibling : sibling ≠ some stem) (hNe : other ≠ stem)
    (hReader : Effect.answer (openWith directory other .read sibling given) m = .ok reader) :
    Effect.answer (openWith directory other .read sibling given) m' = .ok reader ∧
      ∀ point name, reader.readRaw m'.disk point name = reader.readRaw m.disk point name ∧
        reader.readField m'.disk point name = reader.readField m.disk point name := by
  have hOpen := (looks_openWith_read _ _ _ _).answer_eq_ok_iff.1 hReader
  obtain ⟨r, hOther⟩ := exists_layout_of_openWith hOpen
  obtain ⟨_, a, _, _, -, -, hPrimary, -⟩ := openWith_ok hOther hOpen
  -- the directory is there, since an archive in it was opened
  have hBeside := Layout.isBeside_of_make hLayout hOther hNe
  obtain ⟨dir, hThere⟩ := Archive.exists_leadsTo_of_openForRead hBeside.plain hPrimary
  have hLeads : l.LeadsTo m.disk dir := hBeside.leadsTo_iff.1 hThere
  refine ⟨by rw [answer_openWith_eq hLayout h hLeads hSibling hNe, hReader], fun point name => ?_⟩
  have hLocate := locate_eq hLayout h hLeads hSibling hNe hOpen point name
  rw [readRaw, readRaw, readField, readField, hLocate]
  exact ⟨rfl, rfl⟩

end Readers

/-! ## The statement -/

/-- Archives of one directory do not interfere.  The six texts of the files of two of them
differ, and lead to different names.  A session that is opened for reading changes
nothing.  One that is opened for writing changes the files of its archive alone, from its
opening to the last call, whichever calls fail, and wherever the program stops in it: there
are the same files at all other places, with the same contents.  Those of another archive
of the directory have the same bytes, and whoever opens it, or reads from it, has the same
answer, with any reference but the archive that is written.

A reader that is refused is refused alike if the directory was there to begin with; a
directory text with `..` may lead to another archive only once the writer has made what
comes before the dots.  No file of the disk may have two names. -/
theorem isolation (hLayout : Layout.make directory stem = .ok l) {start : Machine}
    (hWell : start.disk.WellFormed) (mode : Mode) (reference : Option String) (config : Config)
    (calls : List Call) :
    let final := use directory stem mode reference config calls start
    (∀ other r, Layout.make directory other = .ok r → other ≠ stem →
      (l.paths ++ r.paths).Nodup ∧ ((l.paths ++ r.paths).map Path.names).Nodup) ∧
    (mode = .read → final = start) ∧
    ∃ changes, final.trace = start.trace ++ changes ∧ final.disk = start.disk.after changes ∧
      ∀ count part,
        let now : Machine := { start with disk := start.disk.stopped changes count part }
        Disk.KeepsDirectories start.disk now.disk ∧
        (∀ slot, ¬ l.Owns now.disk slot → ∀ id bytes,
          now.disk.HasFile slot id bytes ↔ start.disk.HasFile slot id bytes) ∧
        ∀ other r, Layout.make directory other = .ok r → other ≠ stem →
          (∀ path ∈ r.paths, ∀ bytes, start.disk.readBytes path = .ok bytes →
            now.disk.readBytes path = .ok bytes) ∧
          ∀ sibling given, sibling ≠ some stem →
            let opening := openWith directory other .read sibling given
            ((∃ dir, l.LeadsTo start.disk dir) →
              Effect.answer opening now = Effect.answer opening start) ∧
            ∀ reader, Effect.answer opening start = .ok reader →
              Effect.answer opening now = .ok reader ∧
              ∀ point name,
                reader.readRaw now.disk point name = reader.readRaw start.disk point name ∧
                reader.readField now.disk point name = reader.readField start.disk point name := by
  have hPlain := Layout.hasPlainNames_of_make hLayout
  refine ⟨fun other r hOther hNe => ?_, ?_, ?_⟩
  · have hNames := Layout.nodup_names_paths hPlain (Layout.isBeside_of_make hLayout hOther hNe)
    exact ⟨.of_map _ hNames, hNames⟩
  · rintro rfl
    exact use_of_read calls start
  have hUse : Spares l start (use directory stem mode reference config calls start) :=
    spares_use hLayout hWell calls
  obtain ⟨changes, hTrace, hDisk, hStops⟩ := hUse
  refine ⟨changes, hTrace, hDisk, fun count part => ?_⟩
  intro now
  have hSpares : l.Spares start.disk now.disk := hStops count part
  refine ⟨hSpares.directories, fun slot hOther id bytes => hSpares.hasFile_iff hOther, ?_⟩
  intro other r hOther hNe
  have hBeside := Layout.isBeside_of_make hLayout hOther hNe
  refine ⟨fun path hPath bytes => hSpares.readBytes_of_mem hBeside hPath, ?_⟩
  intro sibling given hSibling opening
  refine ⟨?_, fun reader => reads_alike hLayout hSpares hSibling hNe⟩
  rintro ⟨dir, hLeads⟩
  exact answer_openWith_eq hLayout hSpares hLeads hSibling hNe

namespace Sample

theorem wellFormed_pair (first second : List UInt8) : (pair first second).WellFormed where
  keys := by
    show [(⟨0, "a.json"⟩ : Slot), ⟨0, "a.dat"⟩, ⟨0, "b.json"⟩, ⟨0, "b.dat"⟩].Nodup
    decide
  id_lt := by
    intro slot id hEntry
    have hMem := List.mem_map_of_mem (f := Prod.snd) (Index.mem_pairs_of_get? hEntry)
    have hAll : ∀ id ∈ [1, 2, 3, 4], id < 5 := by decide
    exact hAll id hMem
  single := by
    intro slot slot' id hEntry hEntry'
    have hIds : ((pair first second).entries.pairs.map Prod.snd).Nodup := by
      show [1, 2, 3, 4].Nodup
      decide
    exact congrArg Prod.fst (List.inj_on_of_nodup_map hIds (Index.mem_pairs_of_get? hEntry)
      (Index.mem_pairs_of_get? hEntry') rfl)

/-- The third archive. -/
def third : Layout := ⟨"", "c"⟩

/-- A snapshot is stored in the third archive. -/
def storing : List Request := [.writeField (step 0) "T" temperature (.int32 [1, 2])]

/-- The third archive is written beside a pair of archives. -/
def besides : Machine :=
  use "" "c" .write none Sample.config (storing.map .request ++ [.close]) machine

theorem workable_storing :
    Workable settings .standard default "" start.environment ⟨true, .empty⟩ storing := by
  refine workable_of_short ?_ ?_ ?_ ?_
  · simp [storing, Request.IsBuilt, isBuilt_temperature]
  all_goals decide +kernel

theorem isVacant_third : third.IsVacant machine := by
  intro m' h
  cases h
  decide +kernel

/-- The new archive is there, with the bytes of the snapshot. -/
theorem readBytes_besides : besides.disk.exists? "c.json" = true ∧
    besides.disk.readBytes "c.dat" = .ok [1, 0, 0, 0, 2, 0, 0, 0] := by
  have hLayout : Layout.make "" "c" = .ok third := rfl
  have hPlain := Layout.hasPlainNames_of_make hLayout
  have hWell : machine.disk.WellFormed := wellFormed_pair _ _
  obtain ⟨a, m, hOpen, hId, hCreatedAt⟩ : ∃ a m, Archive.openForWrite third settings
      Sample.config.syncData machine = .ok a m ∧ a.id = default ∧ a.createdAt = "" := by
    decide +kernel
  obtain ⟨dir, hServes⟩ := Archive.servesLedger_of_isVacant hPlain hWell isVacant_third hOpen
  obtain ⟨-, -, -, hWorld⟩ := Archive.openForWrite_of_isVacant hPlain hWell isVacant_third hOpen
  obtain ⟨v, hRun, -, -, hKept, -⟩ := exists_run_of_servesLedger hPlain hLayout settings_eq
    (by rfl : Sample.config.durabilitySetting = .ok .standard) hOpen hServes
    (fun n => by rw [hWorld]; rfl) (by rw [hId, hCreatedAt, hWorld]; exact workable_storing)
    (by decide +kernel)
  obtain ⟨file, hKeeps⟩ := hKept.keeps
  obtain ⟨⟨node, updatedAt, hFile⟩, -⟩ := hKept.bears
  have hFinal := use_of_run hRun
  change besides = v.machine at hFinal
  rw [hFinal]
  exact ⟨third.exists?_of_hasFile hKeeps.leadsTo hKept.usable.metadata hFile,
    third.readBytes_of_hasFile hKeeps.leadsTo hKept.usable.data hKeeps.dataFile⟩

/-- The new archive is there with what was stored, and the pair is opened and read as
before. -/
theorem isolation_pair : ∃ reader,
    openWith "" "a" .read (some "b") Sample.config machine = .ok reader machine ∧
      besides.disk.exists? "c.json" = true ∧
      besides.disk.readBytes "c.dat" = .ok [1, 0, 0, 0, 2, 0, 0, 0] ∧
      Effect.answer (openWith "" "a" .read (some "b") Sample.config)
        { machine with disk := besides.disk } = .ok reader ∧
      ∀ point name, reader.readField besides.disk point name =
        reader.readField machine.disk point name := by
  obtain ⟨_, _, reader, -, -, hOpen, -, -⟩ := exists_openWith_pair
  have hWell : machine.disk.WellFormed := wellFormed_pair _ _
  have hLayout : Layout.make "" "c" = .ok ⟨"", "c"⟩ := rfl
  obtain ⟨-, -, changes, -, hDisk, hStops⟩ :=
    isolation hLayout hWell .write none Sample.config (storing.map .request ++ [.close])
  have hAfter : machine.disk.after changes = besides.disk := hDisk.symm
  obtain ⟨-, -, hOthers⟩ := hStops changes.length none
  obtain ⟨hThere, hStored⟩ := readBytes_besides
  obtain ⟨final, hFinal⟩ : ∃ final, besides = final := ⟨_, rfl⟩
  rw [Disk.stopped_length, hAfter, hFinal] at hOthers
  rw [hFinal] at hThere hStored ⊢
  obtain ⟨-, hReaders⟩ := hOthers "a" ⟨"", "a"⟩ rfl (by decide)
  obtain ⟨-, hSame⟩ := hReaders (some "b") Sample.config (by decide)
  obtain ⟨hAgain, hReads⟩ := hSame reader
    ((looks_openWith_read _ _ _ _).answer_eq_ok_iff.2 hOpen)
  exact ⟨reader, hOpen, hThere, hStored, hAgain, fun point name => (hReads point name).2⟩

end Sample
end FieldArchive.Session

import FieldArchive.Proofs.Archive.Fields

/-!
# Steps of an archive in memory

`Archive.StepsTo` lists all that a command can do to an archive that was opened, apart from
opening it again: to change the tables but for their entries, to make a savepoint known
whose bytes could not be written, to add an entry whose range is shared or new, to note
that the metadata file is up to date, and to let go of the data file.  A command takes
some of these steps, whether it succeeds or fails (`Archive.IsOrderly.steps_perform`), and
whatever machine it finds: other programs may change the disk between two commands
(`Archive.Turn`).  A property of archives that each step keeps holds after all turns
(`Archive.Steps.invariant`).
-/

namespace FieldArchive.Archive

variable {a a' a'' : Archive} {m : Machine} {blobs more : List Blob} {command : Command}

/-- Commands that go on with the archive or close it. -/
def Command.IsOperation : Command → Prop
  | .reopen _ _ => False
  | _ => True

/-- A step of an archive, with the blobs that have an entry since. -/
inductive StepsTo (a : Archive) : List Blob → Archive → Prop where
  | altered {a' : Archive} (alters : Alters a a')
      (algorithm : a'.tables.offsets.algorithm = a.tables.offsets.algorithm)
      (presence : a.tables.offsets.IsCoherent → a.NotesPresence → a'.NotesPresence) :
      StepsTo a [] a'
  /-- The data file could not be written. -/
  | stranded (point : Savepoint) : StepsTo a [] (a.withSavepoint point)
  /-- The range of an entry with the same checksum is shared. -/
  | shared {blob : Blob} {arena : Arena} {catalog : Catalog} {extent : Extent}
      (takes : a.Takes blob.point blob.field blob.bytes arena catalog)
      (known : a.tables.offsets.byChecksum.get?
        (Checksum.compute a.tables.offsets.algorithm blob.bytes) = some extent) :
      StepsTo a [blob] (a.withEntry blob.point blob.field
        ⟨Checksum.compute a.tables.offsets.algorithm blob.bytes, extent⟩ arena catalog)
  /-- The bytes stand at the end of the data file. -/
  | written {blob : Blob} {arena : Arena} {catalog : Catalog}
      (takes : a.Takes blob.point blob.field blob.bytes arena catalog)
      (bounded : blob.bytes = [] ∨ arena.length + blob.bytes.length ≤ Disk.maxFileLength) :
      StepsTo a [blob] (a.withEntry blob.point blob.field
        ⟨Checksum.compute a.tables.offsets.algorithm blob.bytes,
          ⟨arena.length, blob.bytes.length⟩⟩
        { arena with length := arena.length + blob.bytes.length } catalog)
  | saved : StepsTo a [] { a with recordedLength := a.dataLength, dirty := false }
  | released : StepsTo a [] { a with arena := none }

/-- Steps of an archive one after the other. -/
inductive Steps : Archive → List Blob → Archive → Prop where
  | refl (a : Archive) : Steps a [] a
  | next {a a₁ a' : Archive} {blobs more : List Blob} (step : StepsTo a blobs a₁)
      (rest : Steps a₁ more a') : Steps a (blobs ++ more) a'

theorem StepsTo.steps (h : StepsTo a blobs a') : Steps a blobs a' := by
  have hSteps := Steps.next h (.refl a')
  rwa [List.append_nil] at hSteps

theorem Steps.trans (h : Steps a blobs a') (h' : Steps a' more a'') :
    Steps a (blobs ++ more) a'' := by
  induction h with
  | refl a => exact h'
  | next step rest ih =>
      rw [List.append_assoc]
      exact .next step (ih h')

/-- What each step keeps is kept by all. -/
theorem Steps.invariant {P : Archive → Prop} {allowed : Set Blob} (h : Steps a blobs a')
    (hStep : ∀ a blobs a', StepsTo a blobs a' → (∀ b ∈ blobs, b ∈ allowed) → P a → P a')
    (hBlobs : ∀ b ∈ blobs, b ∈ allowed) (hStart : P a) : P a' := by
  induction h with
  | refl a => exact hStart
  | next step rest ih =>
      refine ih (fun b hb => hBlobs b (List.mem_append_right _ hb)) ?_
      exact hStep _ _ _ step (fun b hb => hBlobs b (List.mem_append_left _ hb)) hStart

/-! ## Commands -/

theorem steps_ofTables {result : Except Error Archive}
    (h : ∀ a', result = .ok a' → StepsTo a [] a') :
    Steps a (Outcome.ofTables a m result).stored.toList (Outcome.ofTables a m result).archive := by
  cases result with
  | error e => exact .refl a
  | ok a' => exact (h a' rfl).steps

theorem step_of_registerField {info : FieldInfo} {r : Registration}
    (hOk : a.registerField info = .ok (r, a')) : StepsTo a [] a' := by
  refine .altered (alters_of_registerField hOk) ?_ fun _ h => h.registerField hOk
  obtain ⟨_, -, hChecked⟩ := except_bind_eq_ok_iff.1 hOk
  obtain ⟨_, -, hFinite⟩ := except_bind_eq_ok_iff.1 hChecked
  obtain ⟨⟨r', catalog⟩, -, hDone⟩ := except_bind_eq_ok_iff.1 hFinite
  cases hDone
  rfl

theorem step_of_registerSavepoint {point : Savepoint}
    (hOk : a.registerSavepoint point = .ok a') : StepsTo a [] a' := by
  refine .altered (alters_of_registerSavepoint hOk) ?_ fun hOffsets h =>
    h.registerSavepoint hOffsets hOk
  obtain ⟨_, -, hChecked⟩ := except_bind_eq_ok_iff.1 hOk
  obtain ⟨_, -, hFinite⟩ := except_bind_eq_ok_iff.1 hChecked
  split at hFinite
  · cases hFinite
    rfl
  · cases hFinite
    exact OffsetTable.registerSavepoint_algorithm _ _

theorem step_of_addMetainfo {key : String} {value : MetaValue}
    (hOk : a.addMetainfo key value = .ok a') : StepsTo a [] a' := by
  refine .altered (alters_of_addMetainfo hOk) ?_ fun _ h => h.addMetainfo hOk
  obtain ⟨_, -, hChecked⟩ := except_bind_eq_ok_iff.1 hOk
  obtain ⟨_, -, hDone⟩ := except_bind_eq_ok_iff.1 hChecked
  cases hDone
  rfl

theorem step_of_addFieldMetainfo {field key : String} {value : MetaValue}
    (hOk : a.addFieldMetainfo field key value = .ok a') : StepsTo a [] a' := by
  refine .altered (alters_of_addFieldMetainfo hOk) ?_ fun _ h => h.addFieldMetainfo hOk
  obtain ⟨_, -, hChecked⟩ := except_bind_eq_ok_iff.1 hOk
  obtain ⟨_, -, hFinite⟩ := except_bind_eq_ok_iff.1 hChecked
  obtain ⟨catalog, -, hDone⟩ := except_bind_eq_ok_iff.1 hFinite
  cases hDone
  rfl

theorem IsOrderly.step (h : a.IsOrderly) (hStep : StepsTo a blobs a') : a'.IsOrderly := by
  cases hStep with
  | altered alters => exact alters.isOrderly h
  | stranded point => exact h.withSavepoint point
  | shared takes => exact takes.isOrderly h _ rfl
  | written takes => exact takes.isOrderly h _ rfl
  | saved => exact ⟨h.tables, h.writable⟩
  | released => exact h.close

theorem stored_ofResult {α : Type} (stored : Option Blob)
    (result : EStateM.Result Error (Archive × Machine) α) :
    (Outcome.ofResult stored result).stored = stored := by
  cases result <;> rfl

/-- A flush notes that the metadata file is up to date, or nothing. -/
theorem IsOrderly.steps_flush (h : a.IsOrderly) (m : Machine) (stored : Option Blob) :
    Steps a [] (Outcome.ofResult stored (Archive.flush (a, m))).archive := by
  rcases h.flush_archive m stored with hSame | ⟨-, hSaved⟩
  · rw [hSame]
    exact .refl a
  · rw [hSaved]
    exact StepsTo.saved.steps

theorem IsOrderly.steps_store (h : a.IsOrderly) (durability : Durability) (blob : Blob)
    (m : Machine) :
    Steps a ((Command.store durability blob).perform a m).stored.toList
      ((Command.store durability blob).perform a m).archive := by
  -- an entry has been added, and may be made durable
  have hAdded : ∀ {a₁ : Archive} (m₁ : Machine), StepsTo a [blob] a₁ →
      let o := if durability = .always then Outcome.ofResult (some blob) (Archive.flush (a₁, m₁))
        else ⟨some blob, none, a₁, m₁⟩
      Steps a o.stored.toList o.archive := by
    intro a₁ m₁ hStep
    dsimp only
    split
    · rw [stored_ofResult]
      exact .next hStep ((h.step hStep).steps_flush m₁ (some blob))
    · exact hStep.steps
  simp only [Command.perform]
  rcases h.append_cases blob.point blob.field blob.bytes m with ⟨e, hAppend, -⟩ |
    ⟨arena, catalog, e, m', -, -, hAppend⟩ | ⟨arena, catalog, extent, hTakes, hKnown, hAppend⟩ |
    ⟨arena, catalog, m', hTakes, hWrite, hAppend⟩
  · rw [hAppend]
    exact .refl a
  · rw [hAppend]
    exact (StepsTo.stranded blob.point).steps
  · rw [hAppend]
    exact hAdded m (.shared hTakes hKnown)
  · rw [hAppend]
    refine hAdded m' (.written hTakes ?_)
    rcases Machine.write_ok hWrite with ⟨hEmpty, -⟩ | ⟨hFits, -⟩
    · exact Or.inl hEmpty
    · exact Or.inr hFits

/-- A command takes steps, whether it succeeds or fails. -/
theorem IsOrderly.steps_perform (h : a.IsOrderly) (hOperation : command.IsOperation)
    (m : Machine) : Steps a (command.perform a m).stored.toList (command.perform a m).archive := by
  cases command with
  | registerField info =>
      refine steps_ofTables fun a' hOk => ?_
      obtain ⟨r, hRegister⟩ := exists_registration hOk
      exact step_of_registerField hRegister
  | registerSavepoint point => exact steps_ofTables fun a' => step_of_registerSavepoint
  | addMetainfo key value => exact steps_ofTables fun a' => step_of_addMetainfo
  | addFieldMetainfo field key value => exact steps_ofTables fun a' => step_of_addFieldMetainfo
  | store durability blob => exact h.steps_store durability blob m
  | flush =>
      simp only [Command.perform, stored_ofResult]
      exact h.steps_flush m none
  | close =>
      cases hArena : a.arena with
      | none =>
          have hPerform : Command.close.perform a m = ⟨none, none, a, m⟩ := by
            simp [Command.perform, Archive.close, isClosed, hArena, Outcome.ofResult]
          rw [hPerform]
          exact .refl a
      | some arena =>
          rw [perform_close_of_open hArena]
          dsimp only
          rw [stored_ofResult]
          exact (h.steps_flush m none).trans StepsTo.released.steps
  | reopen settings sync => exact hOperation.elim

/-! ## Turns -/

/-- A command with the machine that it finds.  Other programs may have changed the disk
since the last command. -/
structure Turn where
  command : Command
  machine : Machine

/-- What a command does on the machine that it finds. -/
def Turn.outcome (x : Turn) (a : Archive) : Outcome := x.command.perform a x.machine

/-- The archive after some turns. -/
def afterTurns : List Turn → Archive → Archive
  | [], a => a
  | x :: rest, a => afterTurns rest (x.outcome a).archive

/-- The blobs that have an entry since some turns. -/
def storedIn : List Turn → Archive → List Blob
  | [], _ => []
  | x :: rest, a => (x.outcome a).stored.toList ++ storedIn rest (x.outcome a).archive

variable {turns : List Turn}

/-- Turns take the steps of their commands. -/
theorem IsOrderly.steps_afterTurns (h : a.IsOrderly)
    (hOperations : ∀ x ∈ turns, x.command.IsOperation) :
    Steps a (storedIn turns a) (afterTurns turns a) := by
  induction turns generalizing a with
  | nil => exact .refl a
  | cons x rest ih =>
      have hFirst := h.steps_perform (hOperations x List.mem_cons_self) x.machine
      have hRest := ih (h.perform x.command x.machine)
        fun y hy => hOperations y (List.mem_cons_of_mem _ hy)
      exact hFirst.trans hRest

/-! ## Closed archives -/

/-- A closed archive stays as it is, unless it is opened again. -/
theorem perform_of_closed (hClosed : a.arena = none) (hOperation : command.IsOperation) :
    (command.perform a m).archive = a := by
  have hMode := requireMode_of_closed hClosed
  cases command with
  | registerField info =>
      simp only [Command.perform, registerField, hMode, bind, Except.bind, Except.map,
        Outcome.ofTables]
  | registerSavepoint point =>
      simp only [Command.perform, registerSavepoint, hMode, bind, Except.bind, Outcome.ofTables]
  | addMetainfo key value =>
      simp only [Command.perform, addMetainfo, hMode, bind, Except.bind, Outcome.ofTables]
  | addFieldMetainfo field key value =>
      simp only [Command.perform, addFieldMetainfo, hMode, bind, Except.bind, Outcome.ofTables]
  | store durability blob =>
      simp only [Command.perform, append, checkAppend, hMode, bind, Except.bind]
  | flush =>
      obtain ⟨e, hPerform⟩ := perform_flush_of_closed (m := m) hClosed
      rw [hPerform]
  | close => simp [Command.perform, Archive.close, isClosed, hClosed, Outcome.ofResult]
  | reopen settings sync => exact hOperation.elim

theorem afterTurns_of_closed (hClosed : a.arena = none)
    (hOperations : ∀ x ∈ turns, x.command.IsOperation) : afterTurns turns a = a := by
  induction turns with
  | nil => rfl
  | cons x rest ih =>
      rw [afterTurns, Turn.outcome, perform_of_closed hClosed (hOperations x List.mem_cons_self)]
      exact ih fun y hy => hOperations y (List.mem_cons_of_mem _ hy)

/-- The metadata file is up to date after a flush that does not fail. -/
theorem IsOrderly.recordedLength_flush (h : a.IsOrderly) {arena : Arena}
    (hArena : a.arena = some arena) (hRead : a.mode = .read → a.recordedLength = arena.length)
    {stored : Option Blob} (hNone : (Outcome.ofResult stored (Archive.flush (a, m))).error = none) :
    (Outcome.ofResult stored (Archive.flush (a, m))).archive.recordedLength = arena.length := by
  cases hMode : a.mode with
  | read =>
      simp only [Archive.flush, hMode, Outcome.ofResult]
      exact hRead hMode
  | write =>
      have hLength : a.dataLength = arena.length := by simp [dataLength, hArena]
      rcases flush_cases (m := m) hMode hArena (h.writable hMode arena hArena) with
        ⟨hNeeds, hFlush⟩ | ⟨e, hFlush⟩ | ⟨-, m₁, -, hFlush⟩
      · rw [hFlush]
        simp only [needsFlush, hArena, Bool.or_eq_false_iff, bne_eq_false_iff_eq] at hNeeds
        exact hNeeds.2.symm
      · rw [hFlush] at hNone
        cases hNone
      · rw [hFlush, persist_eq] at hNone ⊢
        split at hNone
        · exact hLength
        · cases hNone

/-- Closing an open archive keeps its tables.  If it does not fail, the archive goes on
to give the length of the data file that it lets go of, and if it does, the recorded one. -/
theorem IsOrderly.close_of_open (h : a.IsOrderly) {arena : Arena} (hArena : a.arena = some arena)
    (hRead : a.mode = .read → a.recordedLength = arena.length) (m : Machine) :
    (Command.close.perform a m).archive.arena = none ∧
      (Command.close.perform a m).archive.tables = a.tables ∧
      ((Command.close.perform a m).error = none →
        (Command.close.perform a m).archive.dataLength = arena.length) ∧
      ((Command.close.perform a m).error ≠ none →
        (Command.close.perform a m).archive.dataLength = a.recordedLength) := by
  rw [perform_close_of_open hArena]
  refine ⟨rfl, (h.tables_flush m none).1, fun hNone => h.recordedLength_flush hArena hRead hNone,
    fun hError => ?_⟩
  rcases h.flush_archive m none with hSame | ⟨hNone, -⟩
  · show (Outcome.ofResult none (Archive.flush (a, m))).archive.recordedLength = a.recordedLength
    rw [hSame]
  · exact absurd hNone hError

end FieldArchive.Archive

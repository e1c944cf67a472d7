import FieldArchive.Proofs.Archive.Steps

/-!
# Recorded lengths

An archive that is open gives the length of its data file, and one that is closed the
length that it knows to be in the metadata file.  That is the length that was loaded, or
else the one at the last flush that did not fail, on its own or as a part of closing or of
a durable write (`Archive.IsOrderly.recordedLength_afterTurns`): a flush that fails leaves
the archive as it was.
-/

namespace FieldArchive.Archive

variable {a a' : Archive} {m : Machine} {turns : List Turn}

/-- The length that the metadata file is given in a turn: that of the archive after a flush
that does not fail. -/
def Turn.recorded? (x : Turn) (a : Archive) : Option Nat :=
  match x.command, (x.outcome a).error with
  | .flush, none | .close, none | .store .always _, none => some (x.outcome a).archive.dataLength
  | _, _ => none

/-- The length that the metadata file was given last in some turns, or else the one that it
had before them. -/
def lastRecorded (length : Nat) : List Turn → Archive → Nat
  | [], _ => length
  | x :: rest, a => lastRecorded ((x.recorded? a).getD length) rest (x.outcome a).archive

/-- An archive that is open for reading knows the length of its data file. -/
def KnowsLength (a : Archive) : Prop :=
  ∀ arena, a.arena = some arena → a.mode = .read → a.recordedLength = arena.length

theorem KnowsLength.of_write (hMode : a.mode = .write) : a.KnowsLength := by
  intro arena _ hRead
  rw [hMode] at hRead
  cases hRead

theorem KnowsLength.step {blobs : List Blob} (h : a.KnowsLength) (hStep : StepsTo a blobs a') :
    a'.KnowsLength := by
  cases hStep with
  | altered alters => exact .of_write (by rw [alters.same]; exact alters.isOpen.1)
  | stranded point => exact h
  | shared takes => exact .of_write takes.mode
  | written takes => exact .of_write takes.mode
  | saved =>
      intro arena hArena _
      have hOpen : a.arena = some arena := hArena
      simp [dataLength, hOpen]
  | released => exact fun _ hArena => by cases hArena

/-! ## Flushing -/

/-- After a flush that does not fail the recorded length is that of the archive. -/
theorem IsOrderly.recordedLength_ofFlush (h : a.IsOrderly) (hKnows : a.KnowsLength)
    {stored : Option Blob} (hNone : (Outcome.ofResult stored (Archive.flush (a, m))).error = none) :
    (Outcome.ofResult stored (Archive.flush (a, m))).archive.recordedLength =
      (Outcome.ofResult stored (Archive.flush (a, m))).archive.dataLength := by
  cases hArena : a.arena with
  | none =>
      rcases h.flush_archive m stored with hSame | ⟨-, hSaved⟩
      · rw [hSame]
        simp [dataLength, hArena]
      · rw [hSaved]
        simp [dataLength, hArena]
  | some arena =>
      rw [h.recordedLength_flush hArena (hKnows arena hArena) hNone]
      rcases h.flush_archive m stored with hSame | ⟨-, hSaved⟩
      · rw [hSame]
        simp [dataLength, hArena]
      · rw [hSaved]
        simp [dataLength, hArena]

/-- What a flush makes of the recorded length. -/
theorem IsOrderly.recordedLength_flush_eq (h : a.IsOrderly) (hKnows : a.KnowsLength) (m : Machine)
    (stored : Option Blob) :
    let o := Outcome.ofResult stored (Archive.flush (a, m))
    o.archive.recordedLength =
      if o.error = none then o.archive.dataLength else a.recordedLength := by
  intro o
  split
  · next hNone => exact h.recordedLength_ofFlush hKnows hNone
  · next hError =>
      rcases h.flush_archive m stored with hSame | ⟨hNone, -⟩
      · rw [hSame]
      · exact absurd hNone hError

/-! ## Turns -/

theorem recordedLength_ofTables {result : Except Error Archive}
    (h : ∀ a', result = .ok a' → Alters a a') :
    (Outcome.ofTables a m result).archive.recordedLength = a.recordedLength := by
  cases result with
  | error e => rfl
  | ok a' =>
      show a'.recordedLength = a.recordedLength
      rw [(h a' rfl).same]

/-- A new entry that is made durable gives the metadata file a length. -/
theorem IsOrderly.recordedLength_durable (h : a.IsOrderly) (hMode : a.mode = .write)
    (durability : Durability) (blob : Blob) (m : Machine) :
    let o := if durability = .always then Outcome.ofResult (some blob) (Archive.flush (a, m))
      else ⟨some blob, none, a, m⟩
    o.archive.recordedLength =
      if durability = .always ∧ o.error = none then o.archive.dataLength else a.recordedLength := by
  by_cases hAlways : durability = .always
  · have hFlush := h.recordedLength_flush_eq (.of_write hMode) m (some blob)
    simpa only [hAlways, if_true, true_and] using hFlush
  · simp only [hAlways, if_false, false_and]

/-- Storing bytes gives the metadata file a length if it ends with a flush. -/
theorem IsOrderly.recordedLength_store (h : a.IsOrderly) (durability : Durability) (blob : Blob)
    (m : Machine) :
    let o := (Command.store durability blob).perform a m
    o.archive.recordedLength =
      if durability = .always ∧ o.error = none then o.archive.dataLength else a.recordedLength := by
  rcases h.append_cases blob.point blob.field blob.bytes m with ⟨e, hAppend, -⟩ |
    ⟨arena, catalog, e, m', -, -, hAppend⟩ | ⟨arena, catalog, extent, hTakes, -, hAppend⟩ |
    ⟨arena, catalog, m', hTakes, -, hAppend⟩
  · simp [perform_store_of_error hAppend]
  · simp only [perform_store_of_error hAppend, reduceCtorEq, and_false, if_false]
    rfl
  · rw [perform_store_of_ok hAppend]
    refine IsOrderly.recordedLength_durable ?_ ?_ durability blob m
    · exact hTakes.isOrderly h _ rfl
    · exact hTakes.mode
  · rw [perform_store_of_ok hAppend]
    refine IsOrderly.recordedLength_durable ?_ ?_ durability blob m'
    · exact hTakes.isOrderly h _ rfl
    · exact hTakes.mode

/-- A turn gives the metadata file a length, or leaves the recorded one as it is. -/
theorem IsOrderly.recordedLength_perform (h : a.IsOrderly) (hKnows : a.KnowsLength) {x : Turn}
    (hOperation : x.command.IsOperation) :
    (x.outcome a).archive.recordedLength = (x.recorded? a).getD a.recordedLength := by
  obtain ⟨command, m⟩ := x
  cases command with
  | registerField info =>
      refine recordedLength_ofTables fun a' hOk => ?_
      obtain ⟨r, hRegister⟩ := exists_registration hOk
      exact alters_of_registerField hRegister
  | registerSavepoint point => exact recordedLength_ofTables fun a' => alters_of_registerSavepoint
  | addMetainfo key value => exact recordedLength_ofTables fun a' => alters_of_addMetainfo
  | addFieldMetainfo field key value =>
      exact recordedLength_ofTables fun a' => alters_of_addFieldMetainfo
  | store durability blob =>
      have hStore := h.recordedLength_store durability blob m
      simp only [Turn.recorded?, Turn.outcome]
      cases durability with
      | standard => simpa using hStore
      | always =>
          cases hError : ((Command.store .always blob).perform a m).error with
          | none => simpa [hError] using hStore
          | some e => simpa [hError] using hStore
  | flush =>
      have hFlush := h.recordedLength_flush_eq hKnows m none
      simp only [Turn.recorded?, Turn.outcome, Command.perform]
      cases hError : (Outcome.ofResult none (Archive.flush (a, m))).error with
      | none => simpa [hError] using hFlush
      | some e => simpa [hError] using hFlush
  | close =>
      simp only [Turn.recorded?, Turn.outcome]
      cases hArena : a.arena with
      | none =>
          simp [Command.perform, Archive.close, isClosed, hArena, Outcome.ofResult, dataLength]
      | some arena =>
          have hFlush := h.recordedLength_flush_eq hKnows m none
          rw [perform_close_of_open hArena]
          -- a closed archive gives the recorded length
          cases hError : (Outcome.ofResult none (Archive.flush (a, m))).error with
          | none => simp [dataLength]
          | some e => simpa [hError] using hFlush
  | reopen settings sync => exact hOperation.elim

theorem IsOrderly.knowsLength_perform (h : a.IsOrderly) (hKnows : a.KnowsLength) {x : Turn}
    (hOperation : x.command.IsOperation) : (x.outcome a).archive.KnowsLength :=
  (h.steps_perform hOperation x.machine).invariant (fun _ _ _ hStep _ hNow => hNow.step hStep)
    (fun b _ => Set.mem_univ b) hKnows

/-- The recorded length is that of the last flush that did not fail. -/
theorem IsOrderly.recordedLength_afterTurns (h : a.IsOrderly) (hKnows : a.KnowsLength)
    (hOperations : ∀ x ∈ turns, x.command.IsOperation) :
    (afterTurns turns a).recordedLength = lastRecorded a.recordedLength turns a := by
  induction turns generalizing a with
  | nil => rfl
  | cons x rest ih =>
      have hOperation := hOperations x List.mem_cons_self
      rw [afterTurns, lastRecorded, ← h.recordedLength_perform hKnows hOperation]
      exact ih (h.perform x.command x.machine) (h.knowsLength_perform hKnows hOperation)
        fun y hy => hOperations y (List.mem_cons_of_mem _ hy)

end FieldArchive.Archive

import FieldArchive.Proofs.Session.Driving
import FieldArchive.Proofs.Session.Progress

/-!
# Requests that are refused

A request is refused if it is answered that it was skipped, or that it failed for
another reason than the file system.  A session that refuses a request is as before,
in memory and on the disk, whatever was asked (`refusal_changes_nothing`), with one
exception: a new field that is to be written at a savepoint with a value that no
document can hold is registered before the savepoint is looked at.
-/

namespace FieldArchive.Session

variable {session : Session} {m : Machine} {point : Savepoint} {name : String}
  {bytes : List UInt8}

/-- True for an answer that says that nothing was done. -/
def Reply.isRefusal : Reply → Bool
  | .wrote .skipped => true
  | .failed e => !e.isIo
  | _ => false

/-- Flushing fails in the file system, or because the archive is closed. -/
theorem flush_error {a : Archive} {e : Error} {state : Archive × Machine}
    (h : Archive.flush (a, m) = .error e state) :
    e.isIo = true ∨ e = .invalidState .flush .closed ∧ state = (a, m) := by
  cases hMode : a.mode with
  | read =>
      simp only [Archive.flush, hMode] at h
      cases h
  | write =>
      cases hArena : a.arena with
      | some arena => exact Or.inl (Archive.isIo_of_flush_error hMode hArena h)
      | none =>
          simp only [Archive.flush, hMode, Archive.requireOpen, Archive.status, Archive.isClosed,
            hArena, Option.isNone_none, if_true] at h
          cases h
          exact Or.inr ⟨rfl, rfl⟩

/-- Storing bytes fails in the file system, or is refused and changes nothing. -/
theorem append_refused (hOrderly : session.primary.IsOrderly) {e : Error}
    {state : Session × Machine} (h : append point name bytes (session, m) = .error e state)
    (hIo : e.isIo = false) :
    state = (session, m) ∧ session.primary.Refuses point name bytes e := by
  cases hAppend : Archive.append point name bytes (session.primary, m) with
  | ok r later =>
      rw [(isIo_of_append_error hAppend h).1] at hIo
      cases hIo
  | error e' later =>
      rw [append_eq, hAppend] at h
      cases h
      rcases hOrderly.append_cases point name bytes m with ⟨e', hSame, -, hRefuses⟩ |
        ⟨arena, catalog, e', m', -, -, hFailed⟩ | ⟨arena, catalog, extent, -, -, hDone⟩ |
        ⟨arena, catalog, m', -, -, hDone⟩
      · rw [hSame] at hAppend
        cases hAppend
        exact ⟨rfl, hRefuses⟩
      · rw [hFailed] at hAppend
        cases hAppend
        cases hIo
      · rw [hDone] at hAppend
        cases hAppend
      · rw [hDone] at hAppend
        cases hAppend

/-- An answer that refuses to store bytes leaves the session as it was. -/
theorem refused_of_append (hOrderly : session.primary.IsOrderly)
    (hRefused : (Reply.ofAction .wrote (append point name bytes) (session, m)).1.isRefusal =
      true) :
    (Reply.ofAction .wrote (append point name bytes) (session, m)).2 = (session, m) ∧
      ∃ e, (Reply.ofAction .wrote (append point name bytes) (session, m)).1 = .failed e ∧
        session.primary.Refuses point name bytes e := by
  unfold Reply.ofAction at hRefused ⊢
  cases hAppend : append point name bytes (session, m) with
  | ok outcome state =>
      obtain ⟨r, rfl⟩ := append_ok hAppend
      rw [hAppend] at hRefused
      unfold WriteOutcome.ofAppended at hRefused
      dsimp only at hRefused
      split at hRefused <;> cases hRefused
  | error e state =>
      rw [hAppend] at hRefused
      obtain ⟨hSame, hRefuses⟩ :=
        append_refused hOrderly hAppend (by simpa [Reply.isRefusal] using hRefused)
      exact ⟨hSame, e, rfl, hRefuses⟩

/-- Once a new field is registered, its bytes are refused only for the savepoint. -/
theorem refuses_of_new {a a' : Archive} {info : FieldInfo} {r : Registration} {e : Error}
    (hOrderly : a.IsOrderly) (hNew : a.tables.catalog.find? info.name = none)
    (hOk : a.registerField info = .ok (r, a')) (hSize : bytes.length = info.byteSize)
    (hRefuses : a'.Refuses point info.name bytes e) :
    ∃ key, point.metainfo.firstNonFinite? = some key ∧
      e = .invalidArgument (.notFinite key (.savepoint point)) := by
  obtain ⟨arena, hOpen, -⟩ := except_bind_eq_ok_iff.1 hOk
  obtain ⟨catalog, hRegister, hFields, hArchive⟩ := Archive.registerField_of_new hNew hOk
  have hOpened : a'.mode = .write ∧ a'.arena = some arena := by
    rw [hArchive]
    exact Archive.requireMode_eq_ok_iff.1 hOpen
  rcases hRefuses with hCheck | ⟨-, entry, hEntry, hField⟩
  · rcases except_bind_eq_error_iff.1 hCheck with hMode | ⟨opened, -, hFinite⟩
    · -- the archive was open for writing just now
      rw [Archive.requireMode_eq_ok_iff.2 hOpened] at hMode
      cases hMode
    · rcases except_bind_eq_error_iff.1 hFinite with hValue | ⟨_, -, hRest⟩
      · unfold Archive.checkFinite at hValue
        split at hValue
        · next key hKey =>
            cases hValue
            exact ⟨key, hKey, rfl⟩
        · cases hValue
      · obtain ⟨c', hSame, hCoherent, hFields'⟩ :=
          hOrderly.tables.catalog.register_of_none hNew
        rw [hRegister] at hSame
        cases hSame
        have hFind : a'.tables.catalog.find? info.name = some info := by
          rw [hArchive]
          exact hCoherent.find?_eq_some_iff.2 ⟨by simp [hFields], rfl⟩
        simp only [hFind, hSize, ne_eq, not_true_eq_false, if_false] at hRest
        cases hRest
  · -- no entry has a field that is not described
    rw [hArchive] at hEntry
    have hKnown := hOrderly.tables.described entry hEntry
    rw [hField] at hKnown
    exact absurd hKnown (hOrderly.tables.catalog.find?_eq_none_iff.1 hNew)

theorem ofChange_of_refusal {change : Except Error Session}
    (hRefused : (Reply.ofChange change (session, m)).1.isRefusal = true) :
    (Reply.ofChange change (session, m)).2 = (session, m) := by
  cases change with
  | error e => rfl
  | ok s => cases hRefused

/-- A write of a registered field is refused before anything is recorded. -/
theorem write_of_refusal (hOrderly : session.primary.IsOrderly) {buffer : Buffer}
    (hRefused : ((Request.write point name buffer).perform (session, m)).1.isRefusal = true) :
    ((Request.write point name buffer).perform (session, m)).2 = (session, m) := by
  simp only [Request.perform, Reply.ofAction, write_eq] at hRefused ⊢
  cases hPrepare : session.prepare point name buffer with
  | error e => rfl
  | ok prepared =>
      cases prepared with
      | none => rfl
      | some bytes =>
          simp only [hPrepare] at hRefused ⊢
          exact (refused_of_append hOrderly hRefused).1

/-- A write that registers its field leaves the field behind if it is the savepoint that is
refused. -/
theorem writeField_of_refusal (hOrderly : session.primary.IsOrderly) {info : FieldInfo}
    {buffer : Buffer} (hRefused :
      ((Request.writeField point name info buffer).perform (session, m)).1.isRefusal = true) :
    ((Request.writeField point name info buffer).perform (session, m)).2 = (session, m) ∨
    ∃ key catalog, name = info.name ∧ point.metainfo.firstNonFinite? = some key ∧
      session.primary.tables.catalog.find? info.name = none ∧
      session.primary.tables.catalog.register info = .ok (.inserted, catalog) ∧
      catalog.fields = session.primary.tables.catalog.fields ++ [info] ∧
      (Request.writeField point name info buffer).perform (session, m) =
        (.failed (.invalidArgument (.notFinite key (.savepoint point))),
          session.on { session.primary with
            tables := { session.primary.tables with catalog := catalog }
            dirty := true }, m) := by
  simp only [Request.perform, Reply.ofAction, writeField_eq] at hRefused ⊢
  cases hPrepare : session.prepareField name info buffer with
  | error e => exact Or.inl rfl
  | ok prepared =>
      cases prepared with
      | none => exact Or.inl rfl
      | some bytes =>
          obtain ⟨rfl, hEncodes, rfl⟩ := prepareField_ok hPrepare
          cases hRegister : session.primary.registerField info with
          | error e => exact Or.inl rfl
          | ok result =>
              obtain ⟨r, a⟩ := result
              simp only [hPrepare, hRegister] at hRefused ⊢
              have hNext : (session.on a).primary.IsOrderly :=
                (Archive.alters_of_registerField hRegister).isOrderly hOrderly
              obtain ⟨hSame, e, hReply, hRefuses⟩ := refused_of_append hNext hRefused
              -- the storing changed nothing; the registration did if the field is new
              cases hFind : session.primary.tables.catalog.find? info.name with
              | some registered =>
                  obtain rfl := Archive.registerField_of_known hFind hRegister
                  exact Or.inl hSame
              | none =>
                  obtain ⟨key, hKey, rfl⟩ := refuses_of_new hOrderly hFind hRegister
                    hEncodes.length_payload hRefuses
                  obtain ⟨catalog, hInserted, hFields, rfl⟩ :=
                    Archive.registerField_of_new hFind hRegister
                  exact Or.inr ⟨key, catalog, trivial, hKey, rfl, hInserted, hFields,
                    Prod.ext hReply hSame⟩

/-- A flush is refused by a session that is closed, or by one whose archive is. -/
theorem flush_of_refusal (hRefused : (Request.flush.perform (session, m)).1.isRefusal = true) :
    (Request.flush.perform (session, m)).2 = (session, m) := by
  simp only [Request.perform, Reply.ofAction, Session.flush] at hRefused ⊢
  rw [get_bind, Effect.ofExcept_bind] at hRefused ⊢
  cases hOpen : session.requireOpen .flush with
  | error e => rfl
  | ok u =>
      simp only [hOpen, onPrimary] at hRefused ⊢
      cases hFlush : Archive.flush (session.primary, m) with
      | ok u state => rw [hFlush] at hRefused; cases hRefused
      | error e state =>
          rw [hFlush] at hRefused
          rcases flush_error hFlush with hIo | ⟨-, rfl⟩
          · simp [Reply.isRefusal, hIo] at hRefused
          · rfl

/-- A session that refuses a request is as before, except that a new field is registered
if it was to be written at a savepoint with a value that no document can hold. -/
theorem refusal_changes_nothing (h : Reached session m) (request : Request)
    (hRefused : (request.perform (session, m)).1.isRefusal = true) :
    (request.perform (session, m)).2 = (session, m) ∨
    ∃ point info buffer key catalog, request = .writeField point info.name info buffer ∧
      point.metainfo.firstNonFinite? = some key ∧
      session.primary.tables.catalog.find? info.name = none ∧
      session.primary.tables.catalog.register info = .ok (.inserted, catalog) ∧
      catalog.fields = session.primary.tables.catalog.fields ++ [info] ∧
      request.perform (session, m) =
        (.failed (.invalidArgument (.notFinite key (.savepoint point))),
          session.on { session.primary with
            tables := { session.primary.tables with catalog := catalog }
            dirty := true }, m) := by
  cases request with
  | registerField info =>
      left
      simp only [Request.perform] at hRefused ⊢
      split at hRefused
      · cases hRefused
      · rfl
  | registerSavepoint point => exact Or.inl (ofChange_of_refusal hRefused)
  | addMetainfo key value => exact Or.inl (ofChange_of_refusal hRefused)
  | addFieldMetainfo field key value => exact Or.inl (ofChange_of_refusal hRefused)
  | writeField point name info buffer =>
      rcases writeField_of_refusal h.isOrderly hRefused with hSame | ⟨key, catalog, rfl, hLeft⟩
      · exact Or.inl hSame
      · exact Or.inr ⟨point, info, buffer, key, catalog, rfl, hLeft⟩
  | write point name buffer => exact Or.inl (write_of_refusal h.isOrderly hRefused)
  | enable => cases hRefused
  | disable => cases hRefused
  | flush => exact Or.inl (flush_of_refusal hRefused)
  | stats =>
      left
      simp only [Request.perform]
      split <;> rfl

namespace Sample

/-- A step at a time that is not a number. -/
def nowhere : Savepoint :=
  ⟨"step", Metainfo.empty.set "time" (.float64 (.ofPattern false 0x7ff8000000000000))⟩

/-- A new field that is to be written there. -/
def misplaced : Request := .writeField nowhere "T" temperature (.int32 [1, 2])

theorem exists_misplaced : ∃ session m, openWith "" "a" .write none config start = .ok session m ∧
    (misplaced.perform (session, m)).1.isRefusal = true ∧
    session.primary.tables.catalog.names = [] ∧
    (misplaced.perform (session, m)).2.1.primary.tables.catalog.names = ["T"] := by
  decide +kernel

/-- The request is refused, and the field is registered. -/
theorem refusal_changes_nothing_sample : ∃ session m key,
    openWith "" "a" .write none config start = .ok session m ∧
      session.primary.tables.catalog.names = [] ∧
      (misplaced.perform (session, m)).1 =
        .failed (.invalidArgument (.notFinite key (.savepoint nowhere))) ∧
      (misplaced.perform (session, m)).2.1.primary.tables.catalog.names = ["T"] := by
  obtain ⟨session, m, hOpen, hRefused, hBefore, hAfter⟩ := exists_misplaced
  rcases refusal_changes_nothing (.opened hOpen) misplaced hRefused with hSame |
    ⟨point, info, buffer, key, catalog, hRequest, -, -, -, -, hPerform⟩
  · rw [hSame, hBefore] at hAfter
    cases hAfter
  · obtain ⟨rfl, -, -, -⟩ := Request.writeField.inj hRequest
    exact ⟨session, m, key, hOpen, hBefore, by rw [hPerform], hAfter⟩

end Sample
end FieldArchive.Session

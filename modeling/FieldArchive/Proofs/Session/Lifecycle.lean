import FieldArchive.Proofs.Archive.Agreement
import FieldArchive.Proofs.Archive.Failing
import FieldArchive.Proofs.Session.Calls
import FieldArchive.Proofs.Session.Descriptions

/-!
# The life of a session

A session, its archive and the data file of that each keep track of what they are open
for.  `Session.InStep` is the invariant that they agree: every call keeps it, also one
that fails half way (`InStep.perform`).  So the session alone decides which calls are
refused, and the checks of the archive and the data file refuse none that the session
lets through (`Call.error_of_taken`).

That a call is not refused does not mean that it succeeds; how else it fails is the
subject of other modules.
-/

namespace FieldArchive

/-- True if a session of a status carries out an operation. -/
def Operation.isTakenIn : Operation → Status → Bool
  | .registerField, status | .registerSavepoint, status | .addGlobalMetainfo, status
  | .addFieldMetainfo, status | .writeField, status | .appendData, status =>
      decide (status = .openForWrite)
  | .readField, status => decide (status = .openForRead)
  | .flush, status | .listSavepoints, status | .listFields, status | .describeField, status
  | .lookUpField, status | .readGlobalMetainfo, status | .collectStats, status =>
      decide (status ≠ .closed)

namespace Archive

variable {a a' : Archive} {blobs : List Blob} {command : Command} {commands : List Command}

theorem Command.Stays.isOperation (h : command.Stays) : command.IsOperation := by
  cases command with
  | close => exact h.elim
  | reopen settings sync => exact h.elim
  | _ => trivial

/-- Two states of one archive, which is open or closed in both. -/
structure IsLike (a a' : Archive) : Prop where
  layout : a'.layout = a.layout
  mode : a'.mode = a.mode
  isClosed : a'.isClosed = a.isClosed

theorem IsLike.status (h : IsLike a a') : a'.status = a.status := by
  rw [Archive.status, Archive.status, h.isClosed, h.mode]

/-- No step moves an archive or changes its mode. -/
theorem Steps.layout_mode (h : Steps a blobs a') : a'.layout = a.layout ∧ a'.mode = a.mode := by
  refine h.invariant (P := fun x => x.layout = a.layout ∧ x.mode = a.mode) ?_
    (fun b _ => Set.mem_univ b) ⟨rfl, rfl⟩
  intro x more x' hStep _ hStart
  cases hStep with
  | altered alters =>
      rw [alters.same]
      exact hStart
  | _ => exact hStart

theorem IsOrderly.isLike_perform (h : a.IsOrderly) (hStays : command.Stays) (m : Machine) :
    IsLike a (command.perform a m).archive := by
  obtain ⟨hLayout, hMode⟩ := (h.steps_perform hStays.isOperation m).layout_mode
  refine ⟨hLayout, hMode, ?_⟩
  cases hClosed : a.isClosed with
  | false => exact (h.adds_perform hStays m).isOpen hClosed
  | true =>
      rw [perform_of_closed (isClosed_iff.1 hClosed) hStays.isOperation]
      exact hClosed

theorem IsOrderly.isLike_afterRun (h : a.IsOrderly) (hStays : ∀ c ∈ commands, c.Stays)
    (m : Machine) : IsLike a (afterRun commands a m).1 := by
  induction commands generalizing a m with
  | nil => exact ⟨rfl, rfl, rfl⟩
  | cons command rest ih =>
      have hFirst := h.isLike_perform (hStays command List.mem_cons_self) m
      have hRest := ih (h.perform command m) (fun c hc => hStays c (List.mem_cons_of_mem _ hc))
        (command.perform a m).machine
      exact ⟨hRest.layout.trans hFirst.layout, hRest.mode.trans hFirst.mode,
        hRest.isClosed.trans hFirst.isClosed⟩

end Archive

namespace Session

variable {session : Session} {m : Machine} {call : Call} {operation : Operation}

/-! ## Calls that are refused -/

theorem require_of_ne {status : Status} (h : session.status ≠ status) (operation : Operation) :
    session.require status operation = .error (.invalidState operation session.status) :=
  if_pos h

theorem requireOpen_of_closed (h : session.status = .closed) (operation : Operation) :
    session.requireOpen operation = .error (.invalidState operation session.status) :=
  if_pos h

/-- A request that the status does not allow is refused and changes nothing. -/
theorem Request.perform_of_refused {request : Request}
    (hOperation : request.operation? = some operation)
    (hStatus : operation.isTakenIn session.status = false) (m : Machine) :
    request.perform (session, m) =
      (.failed (.invalidState operation session.status), session, m) := by
  cases request with
  | registerField info =>
      cases hOperation
      have hRequire := require_of_ne (of_decide_eq_false hStatus) .registerField
      simp only [perform, Session.registerField, hRequire, bind, Except.bind]
  | registerSavepoint point =>
      cases hOperation
      have hRequire := require_of_ne (of_decide_eq_false hStatus) .registerSavepoint
      simp only [perform, Session.registerSavepoint, hRequire, bind, Except.bind, Reply.ofChange]
  | addMetainfo key value =>
      cases hOperation
      have hRequire := require_of_ne (of_decide_eq_false hStatus) .addGlobalMetainfo
      simp only [perform, Session.addMetainfo, hRequire, bind, Except.bind, Reply.ofChange]
  | addFieldMetainfo field key value =>
      cases hOperation
      have hRequire := require_of_ne (of_decide_eq_false hStatus) .addFieldMetainfo
      simp only [perform, Session.addFieldMetainfo, hRequire, bind, Except.bind, Reply.ofChange]
  | writeField point name info buffer =>
      cases hOperation
      have hRequire := require_of_ne (of_decide_eq_false hStatus) .writeField
      simp only [perform, Reply.ofAction, writeField_eq, prepareField, hRequire, bind, Except.bind]
  | write point name buffer =>
      cases hOperation
      have hRequire := require_of_ne (of_decide_eq_false hStatus) .writeField
      simp only [perform, Reply.ofAction, write_eq, prepare, hRequire, bind, Except.bind]
  | enable => cases hOperation
  | disable => cases hOperation
  | flush =>
      cases hOperation
      have hClosed : session.status = .closed := Decidable.of_not_not (of_decide_eq_false hStatus)
      simp only [perform, Reply.ofAction, Session.flush]
      rw [get_bind, Effect.ofExcept_bind, requireOpen_of_closed hClosed]
  | stats =>
      cases hOperation
      have hClosed : session.status = .closed := Decidable.of_not_not (of_decide_eq_false hStatus)
      simp only [perform, Session.stats, requireOpen_of_closed hClosed, bind, Except.bind]

/-- A call that the status does not allow is refused and changes nothing. -/
theorem Call.perform_of_refused (hOperation : call.operation? = some operation)
    (hStatus : operation.isTakenIn session.status = false) (m : Machine) :
    call.perform session m = ⟨some (.invalidState operation session.status), session, m⟩ := by
  cases call with
  | request asked =>
      simp only [perform, asked.perform_of_refused hOperation hStatus m, Outcome.ofReply,
        Reply.error?]
  | readField point name =>
      cases hOperation
      have hRequire := require_of_ne (of_decide_eq_false hStatus) .readField
      simp only [perform, Session.readField, locate, hRequire, bind, Except.bind,
        Outcome.ofQuestion]
  | readRaw point name =>
      cases hOperation
      have hRequire := require_of_ne (of_decide_eq_false hStatus) .readField
      simp only [perform, Session.readRaw, locate, hRequire, bind, Except.bind,
        Outcome.ofQuestion]
  | close => cases hOperation
  | _ =>
      cases hOperation
      have hClosed : session.status = .closed := Decidable.of_not_not (of_decide_eq_false hStatus)
      simp only [perform, Session.savepoints, Session.fieldsAt, Session.fieldNames,
        Session.fieldInfo, Session.hasField, Session.metainfo, requireOpen_of_closed hClosed,
        bind, Except.bind, Outcome.ofQuestion]

/-! ## The invariant -/

/-- A session, its archives and their data files agree on what they are open for. -/
structure InStep (session : Session) : Prop where
  orderly : session.primary.IsOrderly
  status : session.status = session.primary.status
  reference : ∀ a, session.reference = some a → a.mode = .read ∧
    (a.isClosed = true ↔ session.status = .closed)

theorem InStep.isClosed_iff (h : session.InStep) :
    ∀ a ∈ session.archives, (a.isClosed = true ↔ session.status = .closed) := by
  intro a ha
  rcases List.mem_cons.1 ha with rfl | hReference
  · rw [h.status, Archive.status]
    split
    · next hClosed => simp [hClosed]
    · next hOpen => cases session.primary.mode <;> simp [hOpen, Mode.status]
  · exact (h.reference a (Option.mem_toList.1 hReference)).2

theorem isOpen_of_openReference {l : Layout} {stem : Option String} {other : Option Archive}
    {m' : Machine} (h : openReference l stem m = .ok other m') :
    ∀ a, other = some a → a.isClosed = false := by
  cases stem with
  | none =>
      cases h
      exact nofun
  | some stem =>
      simp only [openReference] at h
      split at h
      · cases h
      · obtain ⟨sibling, m₁, -, hOpened⟩ := bind_eq_ok h
        obtain ⟨a, m₂, hRead, hDone⟩ := bind_eq_ok hOpened
        cases hDone
        rintro _ ⟨⟩
        exact Archive.isOpen_of_opens (l := sibling) (Or.inr hRead)

/-- A session is in step when it was opened, with the status of its mode. -/
theorem inStep_of_openWith {directory stem : String} {mode : Mode} {reference : Option String}
    {config : Config} {start : Machine}
    (h : openWith directory stem mode reference config start = .ok session m) :
    session.InStep ∧ session.status = mode.status := by
  obtain ⟨l, hLayout⟩ := exists_layout_of_openWith h
  obtain ⟨settings, a, other, durability, -, hOther, hPrimary, rfl⟩ := openWith_ok hLayout h
  have hOpens : Archive.Opens l start a m := by
    cases mode with
    | write => exact Or.inl ⟨settings, config.syncData, hPrimary⟩
    | read => exact Or.inr hPrimary
  have hMode : a.mode = mode := by
    cases mode with
    | write => exact (Archive.mode_of_openForWrite hPrimary).2
    | read => exact (Archive.openForRead_unchanged hPrimary).2
  have hOpen := Archive.isOpen_of_opens hOpens
  have hStatus : mode.status ≠ .closed := by cases mode <;> nofun
  refine ⟨⟨Archive.isOrderly_of_opens hOpens, ?_, fun r hr => ?_⟩, congrArg Mode.status hMode⟩
  · show a.mode.status = a.status
    exact ((Archive.status_eq_iff _).2 ⟨rfl, hOpen⟩).symm
  · exact ⟨(openReference_ok hOther).2 r hr, by
      simp [isOpen_of_openReference hOther r hr, ofArchives, hMode, hStatus]⟩

/-- The layouts of the archives of a session. -/
def layouts (session : Session) : List Layout := session.archives.map Archive.layout

/-- A request leaves a session in step, and open as it was. -/
theorem InStep.request (h : session.InStep) (request : Request) (m : Machine) :
    (request.perform (session, m)).2.1.InStep ∧
      (request.perform (session, m)).2.1.status = session.status ∧
      (request.perform (session, m)).2.1.layouts = session.layouts := by
  obtain ⟨commands, hPrefix, hRuns⟩ := request.exists_commands session m
  have hStays : ∀ c ∈ commands, c.Stays := fun c hc => Request.stays_of_mem (hPrefix.subset hc)
  have hLike := h.orderly.isLike_afterRun hStays m
  rw [Request.Runs] at hRuns
  rw [hRuns]
  refine ⟨⟨Archive.isOrderly_afterRun h.orderly commands m, ?_, h.reference⟩, rfl, ?_⟩
  · exact h.status.trans hLike.status.symm
  · exact congrArg (· :: session.reference.toList.map Archive.layout) hLike.layout

/-! ## Closing -/

/-- The archive of a session that is open has its data file. -/
theorem InStep.exists_arena (h : session.InStep) (hOpen : session.status ≠ .closed) :
    ∃ arena, session.primary.arena = some arena := by
  refine Archive.exists_arena ?_
  simpa [hOpen] using h.isClosed_iff session.primary List.mem_cons_self

/-- Closing a session that is open closes its archive as the command to close does, and
lets go of its reference. -/
theorem InStep.close_eq (h : session.InStep) (hOpen : session.status ≠ .closed) (m : Machine) :
    let closing := Archive.Command.close.perform session.primary m
    Call.close.perform session m =
      ⟨closing.error,
        { session with
          primary := closing.archive
          reference := session.reference.map fun a => { a with arena := none }
          status := .closed },
        closing.machine⟩ := by
  intro closing
  have hReference : ∀ a m', closeReference
      ({ session with primary := a, status := .closed }, m') =
        .ok () ({ session with
          primary := a
          reference := session.reference.map fun r => { r with arena := none }
          status := .closed }, m') := by
    intro a m'
    cases hOther : session.reference with
    | none => simp [closeReference]
    | some r =>
        obtain ⟨hRead, hClosed⟩ := h.reference r hOther
        have hStill : r.isClosed = false := by simpa [hOpen] using hClosed
        simp [closeReference, Archive.close, hStill, Archive.flush, hRead]
  simp only [Call.perform, Session.close, hOpen, if_false, onPrimary, closing,
    Archive.Command.perform]
  cases Archive.close (session.primary, m) with
  | ok u state =>
      simp only [hReference]
      rfl
  | error e state =>
      simp only [hReference]
      rfl

/-- A session that was closed is in step, and has let go of the same archives. -/
theorem InStep.close (h : session.InStep) (hOpen : session.status ≠ .closed) (m : Machine) :
    (Call.close.perform session m).session.InStep ∧
      (Call.close.perform session m).session.status = .closed ∧
      (Call.close.perform session m).session.layouts = session.layouts := by
  obtain ⟨arena, hArena⟩ := h.exists_arena hOpen
  have hClosed : (Archive.Command.close.perform session.primary m).archive.isClosed = true := by
    rw [Archive.perform_close_of_open hArena]
    rfl
  have hOperation : Archive.Command.close.IsOperation := trivial
  obtain ⟨hLayout, -⟩ := (h.orderly.steps_perform hOperation m).layout_mode
  rw [h.close_eq hOpen]
  refine ⟨⟨h.orderly.perform .close m, ?_, ?_⟩, rfl, ?_⟩
  · show Status.closed = Archive.status _
    rw [Archive.status, hClosed]
    rfl
  · intro a ha
    obtain ⟨r, hr, rfl⟩ := Option.map_eq_some_iff.1 ha
    exact ⟨(h.reference r hr).1, by simp [Archive.isClosed]⟩
  · simp only [layouts, archives, List.map_cons, hLayout]
    cases session.reference <;> rfl

/-- Closing a session that is closed does nothing. -/
theorem perform_close_of_closed (hClosed : session.status = .closed) (m : Machine) :
    Call.close.perform session m = ⟨none, session, m⟩ := by
  simp [Call.perform, Session.close, hClosed, Outcome.ofResult]

/-! ## All calls -/

/-- The status after a call of a session with a status. -/
def Call.statusAfter (call : Call) (status : Status) : Status :=
  if call.isClose then .closed else status

/-- Every call leaves a session in step, whether it succeeds or fails, and only closing
changes its status. -/
theorem InStep.perform (h : session.InStep) (call : Call) (m : Machine) :
    (call.perform session m).session.InStep ∧
      (call.perform session m).session.status = call.statusAfter session.status ∧
      (call.perform session m).session.layouts = session.layouts := by
  rcases call.cases_perform session m with ⟨request, rfl⟩ | rfl | ⟨hCall, hSame, -⟩
  · exact h.request request m
  · by_cases hClosed : session.status = .closed
    · rw [perform_close_of_closed hClosed]
      exact ⟨h, hClosed, rfl⟩
    · exact h.close hClosed m
  · rw [hSame, Call.statusAfter, hCall]
    exact ⟨h, rfl, rfl⟩

/-- After any turns a session is in step, and closed if it was asked to close. -/
theorem InStep.afterTurns (h : session.InStep) (turns : List Turn) :
    (afterTurns turns session).InStep ∧
      (Session.afterTurns turns session).status =
        (if turns.any (·.call.isClose) then .closed else session.status) ∧
      (Session.afterTurns turns session).layouts = session.layouts := by
  induction turns generalizing session with
  | nil => exact ⟨h, rfl, rfl⟩
  | cons x rest ih =>
      obtain ⟨hStep, hStatus, hLayouts⟩ := h.perform x.call x.machine
      obtain ⟨hLast, hLastStatus, hLastLayouts⟩ := ih hStep
      refine ⟨hLast, hLastStatus.trans ?_, hLastLayouts.trans hLayouts⟩
      rw [hStatus, List.any_cons, Call.statusAfter]
      cases x.call.isClose <;> simp

/-! ## Calls that are taken -/

theorem ordinary_require {status : Status} (h : session.status = status) (operation : Operation) :
    Ordinary (session.require status operation) := by
  rw [require, if_neg (not_not_intro h)]
  exact ordinary_ok _

theorem ordinary_requireOpen (h : session.status ≠ .closed) (operation : Operation) :
    Ordinary (session.requireOpen operation) := by
  rw [requireOpen, if_neg h]
  exact ordinary_ok _

/-- What the archive of a session lets through if the session does. -/
theorem InStep.ordinary {α β : Type} (h : session.InStep) {mode : Mode}
    (hStatus : session.status = mode.status) {result : Except Error α}
    (hGuarded : GuardedBy (session.primary.requireMode mode operation) result)
    {next : α → Except Error β} (hNext : ∀ x, Ordinary (next x)) :
    Ordinary (session.require mode.status operation >>= fun _ => result >>= next) :=
  have hMode := Archive.ordinary_requireMode mode (h.status.symm.trans hStatus) operation
  (ordinary_require hStatus _).bind fun _ => (hGuarded.ordinary hMode).bind hNext

theorem InStep.on (h : session.InStep) {a : Archive} (hAlters : Archive.Alters session.primary a) :
    (session.on a).InStep := by
  refine ⟨hAlters.isOrderly h.orderly, h.status.trans ?_, h.reference⟩
  show session.primary.status = a.status
  rw [hAlters.same]
  rfl

theorem InStep.append_error (h : session.InStep) (hStatus : session.status = .openForWrite)
    {point : Savepoint} {name : String} {bytes : List UInt8} {e : Error}
    {state : Session × Machine} (hError : append point name bytes (session, m) = .error e state) :
    e.isOrdinary = true := by
  cases hIo : e.isIo with
  | true => exact Error.isOrdinary_of_isIo hIo
  | false =>
      obtain ⟨-, hCheck | ⟨rfl, -⟩⟩ := append_refused h.orderly hError hIo
      · have hMode := Archive.ordinary_requireMode .write (h.status.symm.trans hStatus)
        exact (Archive.guardedBy_checkAppend _ _ _ _).ordinary (hMode _) e hCheck
      · rfl

theorem ordinary_of_prepareField (hStatus : session.status = .openForWrite) {name : String}
    {info : FieldInfo} {buffer : Buffer} {e : Error}
    (hError : session.prepareField name info buffer = .error e) :
    e.isOrdinary = true ∨ e = .aborted := by
  rcases error_of_prepareField hError with hRequire | hOrdinary | hEncode
  · exact Or.inl (ordinary_require hStatus _ e hRequire)
  · exact Or.inl hOrdinary
  · exact Codec.encode_error hEncode

theorem ordinary_of_prepare (hStatus : session.status = .openForWrite) {point : Savepoint}
    {name : String} {buffer : Buffer} {e : Error}
    (hError : session.prepare point name buffer = .error e) :
    e.isOrdinary = true ∨ e = .aborted := by
  rcases error_of_prepare hError with hRequire | hOrdinary | ⟨_, -, hEncode⟩
  · exact Or.inl (ordinary_require hStatus _ e hRequire)
  · exact Or.inl hOrdinary
  · exact Codec.encode_error hEncode

/-- Flushing the archive of a session that is open fails in the file system alone. -/
theorem InStep.isIo_of_flush (h : session.InStep) (hOpen : session.status ≠ .closed) {e : Error}
    {state : Archive × Machine} (hError : Archive.flush (session.primary, m) = .error e state) :
    e.isIo = true := by
  obtain ⟨arena, hArena⟩ := h.exists_arena hOpen
  cases hMode : session.primary.mode with
  | read => simp [Archive.flush, hMode] at hError
  | write => exact Archive.isIo_of_flush_error hMode hArena hError

theorem InStep.close_error (h : session.InStep) (hOpen : session.status ≠ .closed) {e : Error}
    (hError : (Archive.Command.close.perform session.primary m).error = some e) :
    e.isOrdinary = true := by
  obtain ⟨arena, hArena⟩ := h.exists_arena hOpen
  rw [Archive.perform_close_of_open hArena] at hError
  dsimp only at hError
  cases hFlush : Archive.flush (session.primary, m) with
  | ok u state =>
      rw [hFlush] at hError
      cases hError
  | error e' state =>
      rw [hFlush] at hError
      cases hError
      exact Error.isOrdinary_of_isIo (h.isIo_of_flush hOpen hFlush)

theorem InStep.flush_error (h : session.InStep) (hOpen : session.status ≠ .closed) {e : Error}
    {state : Session × Machine} (hError : Session.flush (session, m) = .error e state) :
    e.isOrdinary = true := by
  rcases error_of_flush hError with hRequire | ⟨state', hFlush⟩
  · exact ordinary_requireOpen hOpen _ e hRequire
  · exact Error.isOrdinary_of_isIo (h.isIo_of_flush hOpen hFlush)

theorem InStep.writeField_error (h : session.InStep) (hStatus : session.status = .openForWrite)
    {info : FieldInfo} {e : Error} {state : Session × Machine}
    (hError : writeField point name info buffer (session, m) = .error e state) :
    e.isOrdinary = true ∨ e = .aborted := by
  rw [writeField_eq] at hError
  split at hError
  · next hPrepare =>
      cases hError
      exact ordinary_of_prepareField hStatus hPrepare
  · cases hError
  · split at hError
    · next hRegister =>
        cases hError
        have hMode := Archive.ordinary_requireMode .write (h.status.symm.trans hStatus)
        exact Or.inl ((Archive.guardedBy_registerField _ _).ordinary (hMode _) e hRegister)
    · next hRegister =>
        -- the field is registered, and the archive is as open as before
        have hNext := h.on (Archive.alters_of_registerField hRegister)
        exact Or.inl (hNext.append_error hStatus hError)

theorem InStep.write_error (h : session.InStep) (hStatus : session.status = .openForWrite)
    {e : Error} {state : Session × Machine}
    (hError : write point name buffer (session, m) = .error e state) :
    e.isOrdinary = true ∨ e = .aborted := by
  rw [write_eq] at hError
  split at hError
  · next hPrepare =>
      cases hError
      exact ordinary_of_prepare hStatus hPrepare
  · cases hError
  · exact Or.inl (h.append_error hStatus hError)

/-- A request that the status allows does not fail for a wrong state. -/
theorem Request.error_of_taken (h : session.InStep) {request : Request}
    (hTaken : ∀ operation, request.operation? = some operation →
      operation.isTakenIn session.status = true) {e : Error}
    (hError : (request.perform (session, m)).1.error? = some e) :
    e.isOrdinary = true ∨ e = .aborted := by
  rw [Reply.error?_eq_some_iff] at hError
  -- the guard of each operation asks for a status that the session has
  cases request with
  | registerField info =>
      have hStatus : session.status = Mode.write.status := of_decide_eq_true (hTaken _ rfl)
      simp only [perform] at hError
      split at hError
      · cases hError
      · next hRegister =>
          cases hError
          exact Or.inl (h.ordinary hStatus (Archive.guardedBy_registerField _ _)
            (fun _ => ordinary_ok _) e hRegister)
  | registerSavepoint point =>
      have hStatus : session.status = Mode.write.status := of_decide_eq_true (hTaken _ rfl)
      exact Or.inl (h.ordinary hStatus (Archive.guardedBy_registerSavepoint _ _)
        (fun _ => ordinary_ok _) e (error_of_ofChange hError))
  | addMetainfo key value =>
      have hStatus : session.status = Mode.write.status := of_decide_eq_true (hTaken _ rfl)
      exact Or.inl (h.ordinary hStatus (Archive.guardedBy_addMetainfo _ _ _)
        (fun _ => ordinary_ok _) e (error_of_ofChange hError))
  | addFieldMetainfo field key value =>
      have hStatus : session.status = Mode.write.status := of_decide_eq_true (hTaken _ rfl)
      exact Or.inl (h.ordinary hStatus (Archive.guardedBy_addFieldMetainfo _ _ _ _)
        (fun _ => ordinary_ok _) e (error_of_ofChange hError))
  | writeField point name info buffer =>
      have hStatus : session.status = .openForWrite := of_decide_eq_true (hTaken _ rfl)
      obtain ⟨state, hWrite⟩ := error_of_ofAction (fun _ h => by cases h) hError
      exact h.writeField_error hStatus hWrite
  | write point name buffer =>
      have hStatus : session.status = .openForWrite := of_decide_eq_true (hTaken _ rfl)
      obtain ⟨state, hWrite⟩ := error_of_ofAction (fun _ h => by cases h) hError
      exact h.write_error hStatus hWrite
  | enable => cases hError
  | disable => cases hError
  | flush =>
      have hOpen : session.status ≠ .closed := of_decide_eq_true (hTaken _ rfl)
      obtain ⟨state, hFlush⟩ := error_of_ofAction (fun _ h => by cases h) hError
      exact Or.inl (h.flush_error hOpen hFlush)
  | stats =>
      have hOpen : session.status ≠ .closed := of_decide_eq_true (hTaken _ rfl)
      simp only [perform] at hError
      split at hError
      · cases hError
      · next hStats =>
          cases hError
          exact Or.inl ((ordinary_requireOpen hOpen _).bind (fun _ => ordinary_ok _) e hStats)

theorem ordinary_findIn {archives : List Archive} (h : ∀ a ∈ archives, a.status = .openForRead)
    (d : Disk) (point : Savepoint) (name : String) : Ordinary (findIn d point name archives) := by
  induction archives with
  | nil => exact ordinary_ok _
  | cons a rest ih =>
      have hMode := Archive.ordinary_requireMode .read (h a List.mem_cons_self)
      have hRead := (Archive.guardedBy_readBytes a d point name).ordinary (hMode _)
      unfold findIn
      split
      · split
        · exact ordinary_ok _
        · rintro e ⟨⟩
          rfl
      · next hFailed =>
          split
          · exact ih fun b hb => h b (List.mem_cons_of_mem _ hb)
          · rintro e' ⟨⟩
            exact hRead _ hFailed

theorem InStep.status_eq (h : session.InStep) (hStatus : session.status = .openForRead) :
    ∀ a ∈ session.archives, a.status = .openForRead := by
  intro a ha
  rcases List.mem_cons.1 ha with rfl | hReference
  · exact h.status.symm.trans hStatus
  · obtain ⟨hRead, hClosed⟩ := h.reference a (Option.mem_toList.1 hReference)
    exact (Archive.status_eq_iff .read).2 ⟨hRead, by simpa [hStatus] using hClosed⟩

theorem InStep.ordinary_locate (h : session.InStep) (hStatus : session.status = .openForRead)
    (d : Disk) (point : Savepoint) (name : String) : Ordinary (session.locate d point name) := by
  refine (ordinary_require hStatus _).bind fun _ =>
    (ordinary_findIn (h.status_eq hStatus) d point name).bind fun found => ?_
  split
  · exact ordinary_ok _
  · split
    · rintro e ⟨⟩
      rfl
    · rintro e ⟨⟩
      rfl

/-- A call that the status allows does not fail for a wrong state. -/
theorem Call.error_of_taken (h : session.InStep)
    (hTaken : ∀ operation, call.operation? = some operation →
      operation.isTakenIn session.status = true) {e : Error}
    (hError : (call.perform session m).error = some e) : e.isOrdinary = true ∨ e = .aborted := by
  have hQuestion : ∀ {α : Type} {answer : Except Error α}, Ordinary answer →
      (Outcome.ofQuestion session m answer).error = some e → e.isOrdinary = true ∨ e = .aborted :=
    fun hAnswer hFailed => Or.inl (hAnswer e (Outcome.ofQuestion_error_iff.1 hFailed))
  cases call with
  | request asked => exact asked.error_of_taken h hTaken hError
  | readField point name =>
      have hStatus : session.status = .openForRead := of_decide_eq_true (hTaken _ rfl)
      rcases except_bind_eq_error_iff.1 (Outcome.ofQuestion_error_iff.1 hError) with
        hLocate | ⟨found, -, hDecode⟩
      · exact Or.inl (h.ordinary_locate hStatus _ _ _ e hLocate)
      · exact Codec.decode_error hDecode
  | readRaw point name =>
      have hStatus : session.status = .openForRead := of_decide_eq_true (hTaken _ rfl)
      exact hQuestion ((h.ordinary_locate hStatus _ _ _).bind fun _ => ordinary_ok _) hError
  | close =>
      by_cases hClosed : session.status = .closed
      · rw [perform_close_of_closed hClosed] at hError
        cases hError
      · rw [h.close_eq hClosed] at hError
        exact Or.inl (h.close_error hClosed hError)
  | _ =>
      have hOpen : session.status ≠ .closed := of_decide_eq_true (hTaken _ rfl)
      exact hQuestion ((ordinary_requireOpen hOpen _).bind fun _ => ordinary_ok _) hError

/-- A call is refused for a wrong state if and only if the status does not allow it. -/
theorem InStep.error_iff (h : session.InStep) (call : Call) (m : Machine) (operation : Operation)
    (status : Status) :
    (call.perform session m).error = some (.invalidState operation status) ↔
      call.operation? = some operation ∧ operation.isTakenIn session.status = false ∧
        status = session.status := by
  constructor
  · intro hError
    by_cases hTaken : ∀ operation, call.operation? = some operation →
        operation.isTakenIn session.status = true
    · rcases call.error_of_taken h hTaken hError with hOrdinary | hAborted
      · cases hOrdinary
      · cases hAborted
    · -- the operation that is not taken is the one of the error
      push Not at hTaken
      obtain ⟨refused, hOperation, hStatus⟩ := hTaken
      have hStatus : refused.isTakenIn session.status = false := by simpa using hStatus
      rw [call.perform_of_refused hOperation hStatus] at hError
      cases hError
      exact ⟨hOperation, hStatus, rfl⟩
  · rintro ⟨hOperation, hStatus, rfl⟩
    rw [call.perform_of_refused hOperation hStatus]

/-- The life of a session.  It is open for its mode until it is asked to close, which may
fail, and closed for good from then on; the archives that it holds are the same all the
time, and are open and closed with it.  A call is refused if and only if the status of the
session does not allow its operation, with an error that names both, and then changes
neither the session nor the machine.  Closing lets go of all archives, whatever becomes of
the last flush, and does nothing once the session is closed.

The calls may find any machines, so each step of the file system may fail in each call,
and other programs may do anything between two calls. -/
theorem lifecycle {directory stem : String} {mode : Mode} {reference : Option String}
    {config : Config} {start m : Machine} {opened : Session}
    (hOpen : openWith directory stem mode reference config start = .ok opened m) :
    opened.status = mode.status ∧
    ∀ (turns : List Turn) (call : Call) (now : Machine),
      let session := afterTurns turns opened
      let outcome := call.perform session now
      session.status = (if turns.any (·.call.isClose) then .closed else mode.status) ∧
      session.primary.status = session.status ∧
      (∀ a ∈ session.archives, (a.isClosed = true ↔ session.status = .closed)) ∧
      outcome.session.status = (if call.isClose then .closed else session.status) ∧
      outcome.session.layouts = opened.layouts ∧
      (∀ operation status, outcome.error = some (.invalidState operation status) ↔
        call.operation? = some operation ∧ operation.isTakenIn session.status = false ∧
          status = session.status) ∧
      ((∃ operation status, outcome.error = some (.invalidState operation status)) →
        outcome.session = session ∧ outcome.machine = now) ∧
      (call.isClose = true →
        (∀ a ∈ outcome.session.archives, a.isClosed = true) ∧
        (session.status = .closed → outcome = ⟨none, session, now⟩)) := by
  obtain ⟨hFirst, hStatus⟩ := inStep_of_openWith hOpen
  refine ⟨hStatus, fun turns call now => ?_⟩
  intro session outcome
  obtain ⟨hStep, hNow, hLayouts⟩ := hFirst.afterTurns turns
  obtain ⟨hNext, hAfter, hSame⟩ := hStep.perform call now
  rw [hStatus] at hNow
  refine ⟨hNow, hStep.status.symm, hStep.isClosed_iff, hAfter, hSame.trans hLayouts,
    hStep.error_iff call now, ?_, fun hClose => ⟨?_, ?_⟩⟩
  · rintro ⟨operation, status, hError⟩
    obtain ⟨hOperation, hRefused, -⟩ := (hStep.error_iff call now operation status).1 hError
    simp only [outcome, call.perform_of_refused hOperation hRefused, session, and_self]
  · intro a ha
    refine (hNext.isClosed_iff a ha).2 ?_
    rw [hAfter, Call.statusAfter, hClose, if_pos rfl]
  · intro hClosed
    cases call with
    | close => exact perform_close_of_closed hClosed now
    | _ => cases hClose

namespace Sample

/-- The machine after another one, on which no call succeeds any more. -/
def failing (m : Machine) : Machine :=
  { m with environment := { m.environment with fault := fun _ => some ⟨.notFound, 0⟩ } }

/-- A savepoint is made known, and the flush that is to save it fails. -/
def unsaved (m : Machine) : List Turn :=
  [⟨.request (.registerSavepoint (step 0)), m⟩, ⟨.close, failing m⟩]

theorem exists_unsaved : ∃ session m, openWith "" "a" .write none config start = .ok session m ∧
    (Call.close.perform (afterTurns [⟨.request (.registerSavepoint (step 0)), m⟩] session)
      (failing m)).error.map Error.isIo = some true := by
  decide +kernel

/-- The session is closed although its flush failed, and refuses what comes later. -/
theorem lifecycle_sample : ∃ session m,
    openWith "" "a" .write none config start = .ok session m ∧
      session.status = .openForWrite ∧
      (∃ e, e.isIo = true ∧ (Call.close.perform
        (afterTurns [⟨.request (.registerSavepoint (step 0)), m⟩] session) (failing m)).error =
          some e) ∧
      (afterTurns (unsaved m) session).status = .closed ∧
      (∀ a ∈ (afterTurns (unsaved m) session).archives, a.isClosed = true) ∧
      (Call.perform (.request .stats) (afterTurns (unsaved m) session) m).error =
        some (.invalidState .collectStats .closed) := by
  obtain ⟨session, m, hOpen, hFails⟩ := exists_unsaved
  obtain ⟨hFirst, hLater⟩ := lifecycle hOpen
  obtain ⟨hStatus, -, hClosed, -, -, hRefused, -⟩ := hLater (unsaved m) (.request .stats) m
  have hEnd : (afterTurns (unsaved m) session).status = .closed := hStatus
  obtain ⟨e, hError, hIo⟩ := Option.map_eq_some_iff.1 hFails
  exact ⟨session, m, hOpen, hFirst, ⟨e, hIo, hError⟩, hEnd, fun a ha => (hClosed a ha).2 hEnd,
    (hRefused _ _).2 ⟨rfl, by rw [hEnd]; rfl, hEnd.symm⟩⟩

end Sample
end Session
end FieldArchive

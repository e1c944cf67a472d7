import FieldArchive.Proofs.Archive.Failing
import FieldArchive.Proofs.Archive.Fields
import FieldArchive.Proofs.Codec.Inverse
import FieldArchive.Proofs.Session.Refusals
import FieldArchive.Proofs.Session.RoundTrip

/-!
# Descriptions that are given to sessions

A session takes descriptions that the constructor would refuse.  What then becomes of
them is said for whole sessions (`Session.descriptions_decide`): a call aborts only if
such a description was given, the tables have no other that fails the check, and a new
archive that was closed is opened again if and only if those in its tables pass.

What aborts is encoding a snapshot (`Codec.validate_of_aborted`).  For every other step
it is enough that each of its errors is another one, which `Steady` composes and which
follows from how an archive fails (`GuardedBy.steady`).
-/

namespace FieldArchive

variable {α β : Type}

/-- Encoding aborts only for a description that does not pass the check. -/
theorem Codec.validate_of_aborted {codec : Codec} {info : FieldInfo} {buffer : Buffer}
    (h : codec.encode info buffer = .error .aborted) : info.validate ≠ .ok () :=
  fun hValid => Codec.encode_ne_aborted (FieldInfo.byteSize_of_validate hValid) _ h

/-! ## What does not abort -/

/-- A result that is not that of an abort. -/
def Steady (result : Except Error α) : Prop := result ≠ .error .aborted

theorem Steady.bind {result : Except Error α} {next : α → Except Error β} (h : Steady result)
    (hNext : ∀ x, Steady (next x)) : Steady (result >>= next) := by
  intro hAborted
  rcases except_bind_eq_error_iff.1 hAborted with hFirst | ⟨x, -, hRest⟩
  · exact h hFirst
  · exact hNext x hRest

theorem steady_pure (x : α) : Steady (.ok x) := nofun

/-- What fails as the check of a mode does, or ordinarily, does not abort. -/
theorem GuardedBy.steady {a : Archive} {mode : Mode} {operation : Operation}
    {result : Except Error α} (h : GuardedBy (a.requireMode mode operation) result) :
    Steady result := by
  intro hAborted
  rcases h _ hAborted with hMode | hOrdinary
  · unfold Archive.requireMode at hMode
    split at hMode
    · cases hMode
    · split at hMode <;> cases hMode
  · cases hOrdinary

namespace Session

variable {session : Session} {m m' : Machine} {given : FieldInfo → Prop} {requests : List Request}

theorem steady_require (session : Session) (status : Status) (operation : Operation) :
    Steady (session.require status operation) := by
  unfold require
  split <;> nofun

theorem append_ne_aborted (h : session.primary.IsOrderly) {point : Savepoint} {name : String}
    {bytes : List UInt8} {state : Session × Machine} :
    append point name bytes (session, m) ≠ .error .aborted state := by
  intro hAborted
  obtain ⟨-, hCheck | ⟨hDuplicate, -⟩⟩ := append_refused h hAborted rfl
  · exact (Archive.guardedBy_checkAppend _ _ _ _).steady hCheck
  · cases hDuplicate

theorem steady_requireOpen (session : Session) (operation : Operation) :
    Steady (session.requireOpen operation) := by
  unfold requireOpen
  split <;> nofun

/-- Flushing a session fails as its check does, or as its archive fails. -/
theorem error_of_flush {e : Error} {state : Session × Machine}
    (h : Session.flush (session, m) = .error e state) :
    session.requireOpen .flush = .error e ∨
      ∃ state', Archive.flush (session.primary, m) = .error e state' := by
  unfold Session.flush at h
  rw [get_bind, Effect.ofExcept_bind] at h
  cases hOpen : session.requireOpen .flush with
  | error e' =>
      simp only [hOpen] at h
      cases h
      exact Or.inl rfl
  | ok u =>
      simp only [hOpen, onPrimary] at h
      split at h
      · cases h
      · next hFlush =>
          cases h
          exact Or.inr ⟨_, hFlush⟩

theorem flush_ne_aborted {state : Session × Machine} :
    Session.flush (session, m) ≠ .error .aborted state := by
  intro hAborted
  rcases error_of_flush hAborted with hOpen | ⟨state', hFlush⟩
  · exact steady_requireOpen _ _ hOpen
  · rcases flush_error hFlush with hIo | ⟨hClosed, -⟩
    · cases hIo
    · cases hClosed

/-! ## What aborts -/

/-- The description that is given with a request. -/
def Request.info? : Request → Option FieldInfo
  | .registerField info => some info
  | .writeField _ _ info _ => some info
  | _ => none

theorem error_of_ofChange {change : Except Error Session} {state : Session × Machine} {e : Error}
    (h : (Reply.ofChange change state).1 = .failed e) : change = .error e := by
  cases change with
  | ok s => cases h
  | error e' =>
      cases h
      rfl

/-- The error of an answer is that of its action. -/
theorem error_of_ofAction {reply : α → Reply} {act : SessionAction α}
    {state : Session × Machine} {e : Error} (hReply : ∀ x, reply x ≠ .failed e)
    (h : (Reply.ofAction reply act state).1 = .failed e) :
    ∃ state', act state = .error e state' := by
  unfold Reply.ofAction at h
  split at h
  · exact absurd h (hReply _)
  · next e' state' hAct =>
      cases h
      exact ⟨state', hAct⟩

/-- Getting the bytes of a snapshot fails as the check of the status does, ordinarily or as
encoding does. -/
theorem error_of_prepareField {name : String} {info : FieldInfo} {buffer : Buffer} {e : Error}
    (h : session.prepareField name info buffer = .error e) :
    session.require .openForWrite .writeField = .error e ∨ e.isOrdinary = true ∨
      session.codec.encode info buffer = .error e := by
  rcases except_bind_eq_error_iff.1 h with hStatus | ⟨_, -, hRest⟩
  · exact Or.inl hStatus
  · by_cases hName : name = info.name
    · rw [if_neg (not_not_intro hName)] at hRest
      split at hRest
      · rcases except_bind_eq_error_iff.1 hRest with hEncode | ⟨_, -, hDone⟩
        · exact Or.inr (Or.inr hEncode)
        · cases hDone
      · cases hRest
    · rw [if_pos hName] at hRest
      cases hRest
      exact Or.inr (Or.inl rfl)

theorem error_of_prepare {point : Savepoint} {name : String} {buffer : Buffer} {e : Error}
    (h : session.prepare point name buffer = .error e) :
    session.require .openForWrite .writeField = .error e ∨ e.isOrdinary = true ∨
      ∃ info, session.primary.tables.catalog.find? name = some info ∧
        session.codec.encode info buffer = .error e := by
  rcases except_bind_eq_error_iff.1 h with hStatus | ⟨_, -, hRest⟩
  · exact Or.inl hStatus
  · split at hRest
    · cases hRest
      exact Or.inr (Or.inl rfl)
    · next info hFind =>
        split at hRest
        · rcases except_bind_eq_error_iff.1 hRest with hEncode | ⟨_, -, hDone⟩
          · exact Or.inr (Or.inr ⟨info, hFind, hEncode⟩)
          · cases hDone
        · cases hRest

theorem validate_of_prepareField {name : String} {info : FieldInfo} {buffer : Buffer}
    (h : session.prepareField name info buffer = .error .aborted) : info.validate ≠ .ok () := by
  rcases error_of_prepareField h with hStatus | hOrdinary | hEncode
  · exact absurd hStatus (steady_require _ _ _)
  · cases hOrdinary
  · exact Codec.validate_of_aborted hEncode

theorem validate_of_prepare {point : Savepoint} {name : String} {buffer : Buffer}
    (hOrderly : session.primary.IsOrderly)
    (h : session.prepare point name buffer = .error .aborted) :
    ∃ info ∈ session.primary.tables.catalog.fields, info.validate ≠ .ok () := by
  rcases error_of_prepare h with hStatus | hOrdinary | ⟨info, hFind, hEncode⟩
  · exact absurd hStatus (steady_require _ _ _)
  · cases hOrdinary
  · obtain ⟨hMem, -⟩ := hOrderly.tables.catalog.find?_eq_some_iff.1 hFind
    exact ⟨info, hMem, Codec.validate_of_aborted hEncode⟩

/-- A request aborts only for a description that does not pass the check, which it is
given or finds in the tables. -/
theorem Request.validate_of_aborted (hOrderly : session.primary.IsOrderly) (request : Request)
    (hAborted : (request.perform (session, m)).1 = .failed .aborted) :
    ∃ info, info.validate ≠ .ok () ∧
      (request.info? = some info ∨ info ∈ session.primary.tables.catalog.fields) := by
  cases request with
  | registerField info =>
      exfalso
      simp only [perform] at hAborted
      split at hAborted
      · cases hAborted
      · next e hRegister =>
          cases hAborted
          exact (steady_require session _ _).bind
            (fun _ => (Archive.guardedBy_registerField _ _).steady.bind fun _ => steady_pure _)
            hRegister
  | registerSavepoint point =>
      exact absurd (error_of_ofChange hAborted) ((steady_require session _ _).bind fun _ =>
        (Archive.guardedBy_registerSavepoint _ _).steady.bind fun _ => steady_pure _)
  | addMetainfo key value =>
      exact absurd (error_of_ofChange hAborted) ((steady_require session _ _).bind fun _ =>
        (Archive.guardedBy_addMetainfo _ _ _).steady.bind fun _ => steady_pure _)
  | addFieldMetainfo field key value =>
      exact absurd (error_of_ofChange hAborted) ((steady_require session _ _).bind fun _ =>
        (Archive.guardedBy_addFieldMetainfo _ _ _ _).steady.bind fun _ => steady_pure _)
  | writeField point name info buffer =>
      refine ⟨info, ?_, Or.inl rfl⟩
      obtain ⟨state, hError⟩ := error_of_ofAction (fun _ h => by cases h) hAborted
      rw [writeField_eq] at hError
      split at hError
      · next hPrepare =>
          cases hError
          exact validate_of_prepareField hPrepare
      · cases hError
      · split at hError
        · next hRegister =>
            cases hError
            exact absurd hRegister (Archive.guardedBy_registerField _ _).steady
        · next hRegister =>
            -- the bytes were encoded before, and nothing after that aborts
            have hNext : (session.on _).primary.IsOrderly :=
              (Archive.alters_of_registerField hRegister).isOrderly hOrderly
            exact absurd hError (append_ne_aborted hNext)
  | write point name buffer =>
      obtain ⟨state, hError⟩ := error_of_ofAction (fun _ h => by cases h) hAborted
      rw [write_eq] at hError
      split at hError
      · next hPrepare =>
          cases hError
          obtain ⟨info, hMem, hInvalid⟩ := validate_of_prepare hOrderly hPrepare
          exact ⟨info, hInvalid, Or.inr hMem⟩
      · cases hError
      · exact absurd hError (append_ne_aborted hOrderly)
  | enable => cases hAborted
  | disable => cases hAborted
  | flush =>
      obtain ⟨state, hError⟩ := error_of_ofAction (fun _ h => by cases h) hAborted
      exact absurd hError flush_ne_aborted
  | stats =>
      exfalso
      simp only [perform] at hAborted
      split at hAborted
      · cases hAborted
      · next e hStats =>
          cases hAborted
          exact (steady_requireOpen session _).bind (fun _ => steady_pure _) hStats

/-! ## What sessions take -/

/-- What a request gives to the archive it was given itself. -/
theorem Request.info?_of_mem {request : Request} {info : FieldInfo}
    (h : .registerField info ∈ request.commands session) : request.info? = some info := by
  cases request <;> simp [commands] at h
  all_goals rw [h]; rfl

theorem Request.snapshot?_of_mem {request : Request} {durability : Durability}
    {blob : Archive.Blob} (h : .store durability blob ∈ request.commands session) :
    ∃ x, request.snapshot? = some x ∧ blob.bytes = x.payload session.codec.endianness := by
  cases request <;> simp [commands] at h
  all_goals
    obtain ⟨-, rfl⟩ := h
    exact ⟨_, rfl, rfl⟩

theorem Request.stays_of_mem {request : Request} {command : Archive.Command}
    (h : command ∈ request.commands session) : command.Stays := by
  cases command with
  | close => cases request <;> simp [commands] at h
  | reopen settings sync => cases request <;> simp [commands] at h
  | _ => trivial

/-- The archive of a session is orderly, and its descriptions that do not pass the check
were given, but for metainfo. -/
structure Admits (given : FieldInfo → Prop) (session : Session) : Prop where
  orderly : session.primary.IsOrderly
  given : ∀ f ∈ session.primary.tables.catalog.fields, f.validate ≠ .ok () →
    ∃ info, given info ∧ f.bare = info.bare

/-- A request adds no description but the one that it gives, and aborts only for one that
does not pass the check. -/
theorem Admits.perform (h : Admits given session) {request : Request}
    (hGiven : ∀ info, request.info? = some info → given info) :
    Admits given (request.perform (session, m)).2.1 ∧
      ((request.perform (session, m)).1 = .failed .aborted →
        ∃ info, given info ∧ info.validate ≠ .ok ()) := by
  constructor
  · obtain ⟨commands, hPrefix, hRuns⟩ := request.exists_commands session m
    rw [Request.Runs] at hRuns
    have hStays : ∀ c ∈ commands, c.Stays := fun c hc => Request.stays_of_mem (hPrefix.subset hc)
    obtain ⟨added, hFields, hAdded⟩ := Archive.exists_fields_afterRun h.orderly hStays m
    rw [hRuns]
    refine ⟨Archive.isOrderly_afterRun h.orderly commands m, fun f hf hInvalid => ?_⟩
    have hMem := List.mem_map_of_mem (f := FieldInfo.bare) hf
    have hFields' : f.bare ∈ session.primary.tables.catalog.fields.map FieldInfo.bare ++ added := by
      rw [← hFields]
      exact hMem
    rcases List.mem_append.1 hFields' with hOld | hNew
    · obtain ⟨g, hg, hSame⟩ := List.mem_map.1 hOld
      rw [← FieldInfo.validate_congr hSame] at hInvalid
      obtain ⟨info, hInfo, hBare⟩ := h.given g hg hInvalid
      exact ⟨info, hInfo, hSame.symm.trans hBare⟩
    · obtain ⟨info, hCommand, hBare⟩ := hAdded _ hNew
      exact ⟨info, hGiven info (Request.info?_of_mem (hPrefix.subset hCommand)), hBare⟩
  · intro hAborted
    obtain ⟨info, hInvalid, hInfo | hMem⟩ := request.validate_of_aborted h.orderly hAborted
    · exact ⟨info, hGiven info hInfo, hInvalid⟩
    · obtain ⟨info', hInfo, hBare⟩ := h.given info hMem hInvalid
      rw [FieldInfo.validate_congr hBare] at hInvalid
      exact ⟨info', hInfo, hInvalid⟩

/-- The same is true of requests one after the other. -/
theorem Admits.serve (h : Admits given session)
    (hGiven : ∀ r ∈ requests, ∀ info, r.info? = some info → given info) :
    Admits given (serve requests (session, m)).2.1 ∧
      ∀ e ∈ (serve requests (session, m)).1, e.reply = .failed .aborted →
        ∃ info, given info ∧ info.validate ≠ .ok () := by
  induction requests generalizing session m with
  | nil => exact ⟨h, fun e he => absurd he List.not_mem_nil⟩
  | cons request rest ih =>
      obtain ⟨hNext, hFirst⟩ := h.perform (m := m) (hGiven request List.mem_cons_self)
      obtain ⟨hLast, hLater⟩ := ih hNext (m := (request.perform (session, m)).2.2)
        fun r hr => hGiven r (List.mem_cons_of_mem _ hr)
      refine ⟨hLast, fun e he hAborted => ?_⟩
      rcases List.mem_cons.1 he with rfl | hRest
      · exact hFirst hAborted
      · exact hLater e hRest hAborted

/-- Requests do to a session what commands of theirs do to its archive. -/
theorem exists_commands_of_serve (requests : List Request) (session : Session) (m : Machine) :
    ∃ commands enabled, (∀ c ∈ commands, ∃ r ∈ requests, c ∈ r.commands session) ∧
      (serve requests (session, m)).2 =
        ({ session.on (Archive.afterRun commands session.primary m).1 with enabled := enabled },
          (Archive.afterRun commands session.primary m).2) := by
  induction requests generalizing session m with
  | nil => exact ⟨[], session.enabled, nofun, rfl⟩
  | cons request rest ih =>
      obtain ⟨first, hPrefix, hRuns⟩ := request.exists_commands session m
      rw [Request.Runs] at hRuns
      obtain ⟨others, enabled, hOthers, hServe⟩ := ih (request.perform (session, m)).2.1
        (request.perform (session, m)).2.2
      refine ⟨first ++ others, enabled, ?_, ?_⟩
      · intro c hc
        rcases List.mem_append.1 hc with hFirst | hRest
        · exact ⟨request, List.mem_cons_self, hPrefix.subset hFirst⟩
        · obtain ⟨r, hr, hCommand⟩ := hOthers c hRest
          refine ⟨r, List.mem_cons_of_mem _ hr, ?_⟩
          -- the commands of a request depend on nothing that a request changes
          rw [hRuns] at hCommand
          exact hCommand
      · show (Session.serve rest (request.perform (session, m)).2).2 = _
        rw [Archive.afterRun_append, hServe, hRuns]
        rfl

/-- What requests store are payloads of theirs. -/
theorem bytesOf_subset {commands : List Archive.Command} {a : Archive}
    (h : ∀ c ∈ commands, ∃ r ∈ requests, c ∈ r.commands session) :
    Archive.bytesOf (Archive.storedBy (Archive.run commands a m)) ⊆
      {p | ∃ r ∈ requests, ∃ x, r.snapshot? = some x ∧
        x.payload session.codec.endianness = p} := by
  rintro p ⟨blob, hBlob, rfl⟩
  obtain ⟨durability, hStore⟩ := Archive.mem_of_mem_storedBy hBlob
  obtain ⟨r, hr, hMem⟩ := h _ hStore
  obtain ⟨x, hx, hPayload⟩ := Request.snapshot?_of_mem hMem
  exact ⟨r, hr, x, hx, hPayload.symm⟩

section Deciding

variable {l : Layout} {s : Settings} {directory stem : String} {reference : Option String}
  {config : Config} {start : Machine}

/-- A session on a new archive that was closed, whatever descriptions it was given, is
opened again if those in its tables pass the check, and only then. -/
theorem opens_of_closed (requests : List Request) (hSettings : config.settings = .ok s)
    (hLayout : Layout.make directory stem = .ok l)
    (hOpen : openWith directory stem .write reference config start = .ok session m)
    (hStart : start.disk.ReadsBack l) (hVacant : l.IsVacant start)
    (hKept : ∀ r ∈ requests, ∀ c ∈ r.commands session, c.IsKept)
    (hDigest : Set.InjOn (Checksum.compute s.checksum)
      {p | ∃ r ∈ requests, ∃ x, r.snapshot? = some x ∧ x.payload s.endianness = p})
    {closed : Session} (hClose : close (serve requests (session, m)).2 = .ok () (closed, m')) :
    let tables := (serve requests (session, m)).2.1.primary.tables
    ((∀ f ∈ tables.catalog.fields, f.validate = .ok ()) →
      ∀ later : Machine, later.disk = m'.disk → ∀ again : Config, again.validate = .ok () →
        (∃ session', openWith directory stem .read none again later = .ok session' later) ∧
          (again.settings = .ok s → later.IsCalm → ∃ session' m₁,
            openWith directory stem .write none again later = .ok session' m₁)) ∧
      ∀ (later : Machine) mode other again session' m₁, later.disk = m'.disk →
        openWith directory stem mode other again later = .ok session' m₁ →
        ∀ f ∈ tables.catalog.fields, f.validate = .ok () := by
  intro tables
  have hPlain := Layout.hasPlainNames_of_make hLayout
  obtain ⟨settings, a, other, durability, hSame, hReference, hArchive, rfl⟩ :=
    openWith_ok hLayout hOpen
  obtain rfl : s = settings := Except.ok.inj (hSettings.symm.trans hSame)
  obtain ⟨dir, hFollows, -, -⟩ :=
    Archive.openForWrite_of_isVacant hPlain hStart.wellFormed hVacant hArchive
  obtain ⟨-, hOther⟩ := openReference_ok hReference
  obtain ⟨commands, enabled, hCommands, hServe⟩ :=
    exists_commands_of_serve requests (ofArchives a other durability) m
  -- requests change neither the status of a session nor its reference
  let served : Session := {
    (ofArchives a other durability).on (Archive.afterRun commands a m).1 with
    enabled := enabled }
  have hStatus : served.status = .openForWrite := by
    show a.mode.status = _
    rw [hFollows.mode]
    rfl
  have hClosing : close (served, (Archive.afterRun commands a m).2) = .ok () (closed, m') := by
    rw [hServe] at hClose
    exact hClose
  obtain ⟨a', hPrimary, -⟩ := close_eq_ok hStatus hOther hClosing
  have hBytes := bytesOf_subset (a := a) (m := m) hCommands
  rw [show (ofArchives a other durability).codec.endianness = s.endianness from
    congrArg Settings.endianness hFollows.settings] at hBytes
  have hStays : ∀ c ∈ commands, c.Stays := by
    intro c hc
    obtain ⟨r, -, hMem⟩ := hCommands c hc
    exact Request.stays_of_mem hMem
  have hAllKept : ∀ c ∈ commands, c.IsKept := by
    intro c hc
    obtain ⟨r, hr, hMem⟩ := hCommands c hc
    exact hKept r hr c hMem
  have hTables : tables = (Archive.afterRun commands a m).1.tables := by
    show (serve requests (ofArchives a other durability, m)).2.1.primary.tables = _
    rw [hServe]
    rfl
  obtain ⟨hValid, hOpened⟩ := Archive.opens_of_closed hPlain hStart hVacant hArchive hStays hAllKept
    (hDigest.mono hBytes) hPrimary
  rw [hTables]
  constructor
  · intro hAll later hDisk again hAgain
    obtain ⟨⟨a₁, hRead⟩, hWrite⟩ := hValid hAll later hDisk
    constructor
    · obtain ⟨d, hDone⟩ := openWith_read_eq hLayout hAgain hRead
      exact ⟨_, hDone⟩
    · intro hAgainSettings hCalm
      obtain ⟨a₂, m₂, hOk⟩ := hWrite hCalm again.syncData
      obtain ⟨-, d, -, hDurability⟩ := exists_of_validate hAgain
      exact ⟨_, m₂, openWith_eq hLayout hAgainSettings hDurability hOk⟩
  · intro later mode other' again session' m₁ hDisk hAgain
    obtain ⟨settings, a₁, _, _, -, -, hPrimaryAgain, -⟩ := openWith_ok hLayout hAgain
    cases mode with
    | read => exact hOpened later a₁ m₁ hDisk (Or.inl hPrimaryAgain)
    | write => exact hOpened later a₁ m₁ hDisk (Or.inr ⟨settings, again.syncData, hPrimaryAgain⟩)

/-- Descriptions that the constructor would refuse decide what becomes of a session, and
no others do.  Whatever is asked of a session that was opened for writing, a request
aborts only if a description was given that does not pass the check, and the tables have
no description that does not pass it but those that were given.

On a new archive, with metainfo that documents give back and a digest that tells the
payloads apart, a session that could be closed is opened again by any configuration with
its settings, for writing unless the file system fails, if the descriptions in its tables
pass the check.  If they do not, it is never opened again. -/
theorem descriptions_decide (requests : List Request) (hSettings : config.settings = .ok s)
    (hLayout : Layout.make directory stem = .ok l)
    (hOpen : openWith directory stem .write reference config start = .ok session m) :
    let last := serve requests (session, m)
    (∀ e ∈ last.1, e.reply = .failed .aborted →
      ∃ r ∈ requests, ∃ info, r.info? = some info ∧ info.validate ≠ .ok ()) ∧
    (∀ f ∈ last.2.1.primary.tables.catalog.fields, f.validate ≠ .ok () →
      ∃ r ∈ requests, ∃ info, r.info? = some info ∧ f.bare = info.bare) ∧
    (start.disk.ReadsBack l → l.IsVacant start →
      (∀ r ∈ requests, ∀ c ∈ r.commands session, c.IsKept) →
      Set.InjOn (Checksum.compute s.checksum)
        {p | ∃ r ∈ requests, ∃ x, r.snapshot? = some x ∧ x.payload s.endianness = p} →
      ∀ closed m', close last.2 = .ok () (closed, m') →
        ((∀ f ∈ last.2.1.primary.tables.catalog.fields, f.validate = .ok ()) →
          ∀ later : Machine, later.disk = m'.disk → ∀ again : Config, again.validate = .ok () →
            (∃ session', openWith directory stem .read none again later = .ok session' later) ∧
              (again.settings = .ok s → later.IsCalm → ∃ session' m₁,
                openWith directory stem .write none again later = .ok session' m₁)) ∧
          ∀ (later : Machine) mode other again session' m₁, later.disk = m'.disk →
            openWith directory stem mode other again later = .ok session' m₁ →
            ∀ f ∈ last.2.1.primary.tables.catalog.fields, f.validate = .ok ()) := by
  intro last
  obtain ⟨settings, a, other, durability, -, -, hArchive, hSession⟩ := openWith_ok hLayout hOpen
  -- what is in the tables at first passed the check when it was loaded
  have hFirst : Admits (fun info => ∃ r ∈ requests, r.info? = some info) session := by
    rw [hSession]
    exact ⟨Archive.isOrderly_of_openForWrite hArchive,
      fun f hf hInvalid => absurd (Archive.validate_of_opened hArchive f hf) hInvalid⟩
  obtain ⟨hLast, hAborted⟩ := hFirst.serve (m := m) fun r hr info hInfo => ⟨r, hr, hInfo⟩
  refine ⟨?_, ?_, ?_⟩
  · intro e he hReply
    obtain ⟨info, ⟨r, hr, hInfo⟩, hInvalid⟩ := hAborted e he hReply
    exact ⟨r, hr, info, hInfo, hInvalid⟩
  · intro f hf hInvalid
    obtain ⟨info, ⟨r, hr, hInfo⟩, hBare⟩ := hLast.given f hf hInvalid
    exact ⟨r, hr, info, hInfo, hBare⟩
  · intro hStart hVacant hKept hDigest closed m' hClose
    exact opens_of_closed requests hSettings hLayout hOpen hStart hVacant hKept hDigest hClose

end Deciding

namespace Sample

theorem readsBack_step (n : Int32) : (step n).readsBack = true := by rfl

theorem isKept_first {session : Session} :
    ∀ r ∈ first, ∀ c ∈ r.commands session, c.IsKept := by
  intro r hr c hc
  simp only [first, List.mem_cons, List.not_mem_nil, or_false] at hr
  rcases hr with rfl | rfl | rfl | rfl
  · simp only [Request.commands, List.mem_cons, List.not_mem_nil, or_false] at hc
    rcases hc with rfl | rfl
    · exact fun _ => by decide +kernel
    · exact fun _ => readsBack_step 0
  · rw [List.mem_singleton.1 hc]
    exact fun _ => readsBack_step 1
  · rw [List.mem_singleton.1 hc]
    exact fun _ => readsBack_step 1
  · cases hc

theorem injOn_first : Set.InjOn (Checksum.compute settings.checksum)
    {p | ∃ r ∈ first, ∃ x, r.snapshot? = some x ∧ x.payload settings.endianness = p} := by
  have hDistinct : ∀ x ∈ first.filterMap Request.snapshot?,
      ∀ y ∈ first.filterMap Request.snapshot?,
        Checksum.compute .xxh3 (x.payload .little) = Checksum.compute .xxh3 (y.payload .little) →
          x.payload .little = y.payload .little := by
    decide +kernel
  rintro p ⟨r, hr, x, hx, rfl⟩ q ⟨r', hr', y, hy, rfl⟩ hSame
  exact hDistinct x (List.mem_filterMap.2 ⟨r, hr, hx⟩) y (List.mem_filterMap.2 ⟨r', hr', hy⟩) hSame

/-- The archive of the first session is opened again, for reading and for writing. -/
theorem descriptions_decide_sample : ∃ v, Visit.run "" "a" ⟨config, none, first⟩ start = some v ∧
    (∀ e ∈ v.events, e.reply ≠ .failed .aborted) ∧
    (∃ session, openWith "" "a" .read none config v.machine = .ok session v.machine) ∧
    ∃ session m, openWith "" "a" .write none config { start with disk := v.machine.disk } =
      .ok session m := by
  obtain ⟨v, w, hBoth, -⟩ := exists_run
  obtain ⟨_, _, hVisits, hRun, -⟩ := runAll_eq_cons hBoth
  cases hVisits
  obtain ⟨session, m, hOpen, hEvents, hClose⟩ := Visit.run_eq_some hRun
  have hGiven : ∀ r ∈ first, ∀ info, r.info? = some info → info.validate = .ok () := by
    intro r hr info hInfo
    simp only [first, List.mem_cons, List.not_mem_nil, or_false] at hr
    rcases hr with rfl | rfl | rfl | rfl
    · cases hInfo
      decide +kernel
    all_goals cases hInfo
  obtain ⟨hAborted, hFields, hAgain⟩ :=
    descriptions_decide first settings_eq layout_eq hOpen
  have hValid : ∀ f ∈ (serve first (session, m)).2.1.primary.tables.catalog.fields,
      f.validate = .ok () := by
    intro f hf
    by_contra hInvalid
    obtain ⟨r, hr, info, hInfo, hBare⟩ := hFields f hf hInvalid
    rw [FieldInfo.validate_congr hBare] at hInvalid
    exact hInvalid (hGiven r hr info hInfo)
  have hOpens := (hAgain (Disk.readsBack_empty _) isVacant isKept_first injOn_first v.session
    v.machine hClose).1 hValid
  refine ⟨v, hRun, ?_, (hOpens v.machine rfl config (by rfl)).1,
    (hOpens { start with disk := v.machine.disk } rfl config (by rfl)).2 settings_eq fun _ => rfl⟩
  intro e he hReply
  rw [hEvents] at he
  obtain ⟨r, hr, info, hInfo, hInvalid⟩ := hAborted e he hReply
  exact hInvalid (hGiven r hr info hInfo)

end Sample
end Session
end FieldArchive

import FieldArchive.Proofs.Archive.Coherence
import FieldArchive.Proofs.Session.Visiting

/-!
# Sessions drive their archive

A session acts on its primary archive through commands alone: a request is some first
of the commands in `Request.commands`, and closing is the command to close.  What
every command keeps of an archive, every session keeps of its primary one.
`Session.Reached` are the sessions that come up: opened for writing on any machine,
after any requests, and after closing, whatever else happens to the machine.
-/

namespace FieldArchive.Session

variable {session : Session} {m m' : Machine}

/-- The commands that a request gives to the archive, if none of them is refused. -/
def Request.commands (session : Session) : Request → List Archive.Command
  | .registerField info => [.registerField info]
  | .registerSavepoint point => [.registerSavepoint point]
  | .addMetainfo key value => [.addMetainfo key value]
  | .addFieldMetainfo field key value => [.addFieldMetainfo field key value]
  | .writeField point name info buffer =>
      [.registerField info,
        .store session.durability ⟨point, name, Codec.payload session.codec.endianness buffer⟩]
  | .write point name buffer =>
      [.store session.durability ⟨point, name, Codec.payload session.codec.endianness buffer⟩]
  | .flush => [.flush]
  | .enable | .disable | .stats => []

/-- The session on another archive. -/
def on (session : Session) (a : Archive) : Session := { session with primary := a }

/-- Storing bytes is the command to store them. -/
theorem append_state (session : Session) (m : Machine) (blob : Archive.Blob) :
    (Reply.ofAction .wrote (append blob.point blob.field blob.bytes) (session, m)).2 =
      (session.on ((Archive.Command.store session.durability blob).perform
          session.primary m).archive,
        ((Archive.Command.store session.durability blob).perform session.primary m).machine) := by
  obtain ⟨hFailed, hDone⟩ := Archive.Command.append_eq_perform session m blob
  cases hError : ((Archive.Command.store session.durability blob).perform
      session.primary m).error with
  | some e =>
      simp only [Reply.ofAction, hFailed e hError]
      rfl
  | none =>
      obtain ⟨outcome, hAppend⟩ := hDone hError
      simp only [Reply.ofAction, hAppend]
      rfl

/-- A request does to a session what commands do to its archive. -/
def Request.Runs (request : Request) (session : Session) (m : Machine)
    (commands : List Archive.Command) : Prop :=
  (request.perform (session, m)).2 =
    ({ session.on (Archive.afterRun commands session.primary m).1 with
        enabled := (request.perform (session, m)).2.1.enabled },
      (Archive.afterRun commands session.primary m).2)

theorem Request.runs_nil {request : Request}
    (h : (request.perform (session, m)).2 = (session, m)) : request.Runs session m [] := by
  rw [Runs, h]
  rfl

theorem Request.runs_of_on {request : Request} {commands : List Archive.Command}
    (h : (request.perform (session, m)).2 =
      (session.on (Archive.afterRun commands session.primary m).1,
        (Archive.afterRun commands session.primary m).2)) :
    request.Runs session m commands := by
  rw [Runs, h]

/-- A request that changes the tables of the archive by one command, or fails. -/
theorem Request.exists_runs_of_change {request : Request} {command : Archive.Command}
    (status : Except Error Unit) (result : Except Error Archive)
    (hCommands : request.commands session = [command])
    (hRequest : request.perform (session, m) =
      Reply.ofChange (status.bind fun _ => result.map session.on) (session, m))
    (hCommand : command.perform session.primary m = .ofTables session.primary m result) :
    ∃ commands, commands <+: request.commands session ∧ request.Runs session m commands := by
  cases status with
  | error e => exact ⟨[], List.nil_prefix, runs_nil (by rw [hRequest]; rfl)⟩
  | ok u =>
      refine ⟨[command], by rw [hCommands], runs_of_on ?_⟩
      rw [hRequest, Archive.afterRun, hCommand]
      cases result with
      | error e => rfl
      | ok a => rfl

theorem append_runs {request : Request} (blob : Archive.Blob)
    (h : (request.perform (session, m)).2 =
      (Reply.ofAction .wrote (append blob.point blob.field blob.bytes) (session, m)).2) :
    request.Runs session m [.store session.durability blob] := by
  refine Request.runs_of_on ?_
  rw [h, append_state]
  rfl

/-- A request does to a session what some first of its commands do to the archive. -/
theorem Request.exists_commands (request : Request) (session : Session) (m : Machine) :
    ∃ commands, commands <+: request.commands session ∧ request.Runs session m commands := by
  have hNothing : ∀ {request : Request}, (request.perform (session, m)).2 = (session, m) →
      ∃ commands, commands <+: request.commands session ∧ request.Runs session m commands :=
    fun hSame => ⟨[], List.nil_prefix, runs_nil hSame⟩
  cases request with
  | registerField info =>
      cases hRegister : session.registerField info with
      | error e => exact hNothing (by simp only [perform, hRegister])
      | ok result =>
          obtain ⟨r, session'⟩ := result
          obtain ⟨_, -, hOpen⟩ := except_bind_eq_ok_iff.1 hRegister
          obtain ⟨⟨r', a⟩, hPrimary, hDone⟩ := except_bind_eq_ok_iff.1 hOpen
          cases hDone
          refine ⟨[.registerField info], List.prefix_refl _, runs_of_on ?_⟩
          simp only [perform, hRegister, Archive.afterRun, Archive.Command.perform, hPrimary,
            Except.map, Archive.Outcome.ofTables]
          rfl
  | registerSavepoint point =>
      exact exists_runs_of_change (session.require .openForWrite .registerSavepoint)
        (session.primary.registerSavepoint point) rfl rfl rfl
  | addMetainfo key value =>
      exact exists_runs_of_change (session.require .openForWrite .addGlobalMetainfo)
        (session.primary.addMetainfo key value) rfl rfl rfl
  | addFieldMetainfo field key value =>
      exact exists_runs_of_change (session.require .openForWrite .addFieldMetainfo)
        (session.primary.addFieldMetainfo field key value) rfl rfl rfl
  | writeField point name info buffer =>
      cases hPrepare : session.prepareField name info buffer with
      | error e => exact hNothing (by simp only [perform, Reply.ofAction, writeField_eq, hPrepare])
      | ok prepared =>
          cases prepared with
          | none =>
              exact hNothing (by simp only [perform, Reply.ofAction, writeField_eq, hPrepare])
          | some bytes =>
              obtain ⟨-, -, rfl⟩ := prepareField_ok hPrepare
              cases hRegister : session.primary.registerField info with
              | error e =>
                  exact hNothing
                    (by simp only [perform, Reply.ofAction, writeField_eq, hPrepare, hRegister])
              | ok result =>
                  obtain ⟨r, a⟩ := result
                  refine ⟨_, List.prefix_refl _, runs_of_on ?_⟩
                  -- what is left is to store the bytes in the archive with the field
                  have hAppend := append_state (session.on a) m
                    ⟨point, name, Codec.payload session.codec.endianness buffer⟩
                  have hFirst : (Archive.Command.registerField info).perform session.primary m =
                      ⟨none, none, a, m⟩ := by
                    simp only [Archive.Command.perform, hRegister, Except.map,
                      Archive.Outcome.ofTables]
                  simp only [perform, Reply.ofAction, writeField_eq, hPrepare, hRegister,
                    commands, Archive.afterRun, hFirst]
                  exact hAppend
  | write point name buffer =>
      cases hPrepare : session.prepare point name buffer with
      | error e => exact hNothing (by simp only [perform, Reply.ofAction, write_eq, hPrepare])
      | ok prepared =>
          cases prepared with
          | none => exact hNothing (by simp only [perform, Reply.ofAction, write_eq, hPrepare])
          | some bytes =>
              obtain ⟨info, -, -, rfl⟩ := prepare_ok hPrepare
              refine ⟨_, List.prefix_refl _, append_runs _ ?_⟩
              simp only [perform, Reply.ofAction, write_eq, hPrepare]
  | enable => exact ⟨[], List.nil_prefix, rfl⟩
  | disable => exact ⟨[], List.nil_prefix, rfl⟩
  | flush =>
      cases hOpen : session.requireOpen .flush with
      | error e =>
          refine hNothing ?_
          simp only [perform, Reply.ofAction, Session.flush]
          rw [get_bind, hOpen]
          rfl
      | ok u =>
          refine ⟨[.flush], List.prefix_refl _, runs_of_on ?_⟩
          simp only [perform, Reply.ofAction, Session.flush]
          rw [get_bind, hOpen, Effect.ofExcept_bind]
          simp only [onPrimary, Archive.afterRun, Archive.Command.perform]
          cases Archive.flush (session.primary, m) <;> rfl
  | stats =>
      refine hNothing ?_
      simp only [perform]
      split <;> rfl

/-! ## Sessions that come up -/

/-- The sessions open for writing that come up, and those that were closed, with their
machines.  Between two requests other programs may do anything to the machine. -/
inductive Reached : Session → Machine → Prop where
  | opened {directory stem : String} {reference : Option String} {config : Config}
      {start m : Machine} {session : Session}
      (h : openWith directory stem .write reference config start = .ok session m) :
      Reached session m
  | answered {session : Session} {m : Machine} (request : Request) (h : Reached session m) :
      Reached (request.perform (session, m)).2.1 (request.perform (session, m)).2.2
  | closed {session : Session} {m : Machine} {state : Session × Machine} (h : Reached session m)
      (hClose : close (session, m) = .ok () state ∨ ∃ e, close (session, m) = .error e state) :
      Reached state.1 state.2
  | disturbed {session : Session} {m : Machine} (later : Machine) (h : Reached session m) :
      Reached session later

theorem primary_of_closeReference {state : Session × Machine}
    (h : closeReference (session, m) = .ok () state ∨
      ∃ e, closeReference (session, m) = .error e state) :
    state.1.primary = session.primary := by
  unfold closeReference at h
  dsimp only at h
  split at h
  · rcases h with h | ⟨e, h⟩ <;> cases h
    rfl
  · split at h
    · rcases h with h | ⟨e, h⟩ <;> cases h
      rfl
    · rcases h with h | ⟨e, h⟩ <;> cases h
      rfl

/-- Closing a session closes its archive, whatever becomes of its reference. -/
theorem primary_of_close {state : Session × Machine}
    (hClose : close (session, m) = .ok () state ∨ ∃ e, close (session, m) = .error e state) :
    state.1.primary = session.primary ∨
      state.1.primary = (Archive.Command.close.perform session.primary m).archive := by
  unfold close at hClose
  dsimp only at hClose
  split at hClose
  · left
    rcases hClose with h | ⟨e, h⟩ <;> cases h
    rfl
  · right
    simp only [onPrimary] at hClose
    simp only [Archive.Command.perform]
    cases hArchive : Archive.close (session.primary, m) with
    | ok u closed =>
        rw [hArchive] at hClose
        exact primary_of_closeReference hClose
    | error e closed =>
        rw [hArchive] at hClose
        dsimp only at hClose
        split at hClose
        · next hReference =>
            rcases hClose with h | ⟨e', h⟩ <;> cases h
            exact primary_of_closeReference (Or.inl hReference)
        · next hReference =>
            rcases hClose with h | ⟨e', h⟩ <;> cases h
            exact primary_of_closeReference (Or.inr ⟨_, hReference⟩)

theorem exists_layout_of_openWith {directory stem : String} {mode : Mode}
    {reference : Option String} {config : Config}
    (h : openWith directory stem mode reference config m = .ok session m') :
    ∃ l, Layout.make directory stem = .ok l := by
  unfold openWith at h
  obtain ⟨_, m₁, -, h₁⟩ := bind_eq_ok h
  obtain ⟨_, m₂, -, h₂⟩ := bind_eq_ok h₁
  obtain ⟨l, m₃, hThird, -⟩ := bind_eq_ok h₂
  exact ⟨l, mapError_eq_ok_iff.1 (Effect.ofExcept_ok hThird).1⟩

/-- The archive of a session is orderly at all times. -/
theorem Reached.isOrderly (h : Reached session m) : session.primary.IsOrderly := by
  induction h with
  | opened h =>
      obtain ⟨l, hLayout⟩ := exists_layout_of_openWith h
      obtain ⟨settings, a, other, durability, -, -, hOpen, rfl⟩ := openWith_ok hLayout h
      exact Archive.isOrderly_of_openForWrite hOpen
  | @answered session m request _ ih =>
      obtain ⟨commands, -, hRuns⟩ := request.exists_commands session m
      rw [Request.Runs] at hRuns
      rw [hRuns]
      exact Archive.isOrderly_afterRun ih commands m
  | closed _ hClose ih =>
      rcases primary_of_close hClose with hSame | hClosed
      · rw [hSame]
        exact ih
      · rw [hClosed]
        exact ih.perform .close _
  | disturbed later _ ih => exact ih

end FieldArchive.Session

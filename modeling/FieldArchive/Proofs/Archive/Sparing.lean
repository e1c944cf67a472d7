import FieldArchive.Proofs.Archive.Agreement
import FieldArchive.Proofs.Sparing

/-!
# What the commands of a writer leave alone

Opening an archive for writing changes its own files alone, and so does every command after
that, whether it succeeds or fails.  The invariant is `Archive.WritesAt`: the open data file
of a writer is the file at the place of its name, so that appends do not go elsewhere.
-/

namespace FieldArchive

variable {l : Layout} {m m' : Machine}

open Machine (Relates Spares)

theorem Document.spares_persist (hPlain : l.HasPlainNames) (h : m.disk.WellFormed)
    (doc : Document) :
    Relates (Spares l) m (doc.persist l.metadata l.temporary) fun _ _ => True := by
  refine Relates.adaptExcept ?_ _
  refine (Machine.spares_openEmpty hPlain.temporary l.mem_fileNames_temporary h).bind
    Spares.trans ?_
  rintro file m₁ h₁ ⟨dir, hLeads, hFile⟩
  refine (Machine.spares_write h₁.wellFormed hLeads l.mem_fileNames_temporary hFile 0 _).bind
    Spares.trans ?_
  rintro u m₂ h₂ -
  refine (Machine.relates_sync (.tick h₂.wellFormed)).bind Spares.trans ?_
  rintro u m₃ h₃ -
  refine (Machine.spares_rename hPlain h₃.wellFormed).bind Spares.trans ?_
  rintro u m₄ h₄ -
  exact ⟨(Machine.relates_sync (.tick h₄.wellFormed)).related, fun _ _ _ => trivial⟩

theorem Arena.spares_create (hPlain : l.HasPlainNames) (h : m.disk.WellFormed) :
    Relates (Spares l) m (create l.data) fun arena m' => l.HasData m'.disk arena.file := by
  refine ((Machine.spares_openEmpty hPlain.data l.mem_fileNames_data h).adaptExcept _).bind
    Spares.trans ?_
  rintro file m₁ h₁ ⟨dir, hLeads, hFile⟩
  exact Machine.relates_pure (.refl h₁.wellFormed) ⟨dir, [], hLeads, hFile⟩

theorem Arena.spares_openAppend (hPlain : l.HasPlainNames) (h : m.disk.WellFormed)
    (valid : Nat) :
    Relates (Spares l) m (openAppend l.data valid) fun arena m' =>
      l.HasData m'.disk arena.file := by
  refine ((Machine.relates_openWritable (.refl h) l.data).adaptExcept _).bind Spares.trans ?_
  rintro file m₁ - ⟨rfl, hFind, data, hNode⟩
  obtain ⟨-, dir, hLeads, hEntry⟩ := (l.find_join_ok_iff hPlain.data).1 hFind
  have hFile : m₁.disk.HasFile (l.dataSlot dir) file data := ⟨hEntry, hNode⟩
  have hData : l.HasData m₁.disk file := ⟨dir, data, hLeads, hFile⟩
  refine .get_bind ((Machine.relates_ofExcept (.refl h) _).bind Spares.trans ?_)
  rintro u m₂ - ⟨-, rfl⟩
  -- what a crash left behind the valid bytes is cut off
  split
  · refine ((Machine.spares_truncate h hLeads l.mem_fileNames_data hFile valid).adaptExcept _).bind
      Spares.trans ?_
    rintro u m₃ h₃ -
    refine ((Machine.relates_sync (.tick h₃.wellFormed)).adaptExcept _).bind Spares.trans ?_
    rintro u m₄ h₄ -
    exact Machine.relates_pure (.refl h₄.wellFormed) (h₄.last.data file (h₃.last.data file hData))
  · exact Machine.relates_pure (.refl h) hData

namespace Archive

variable {a a' : Archive}

/-- The data file of an archive, if it is open, is the one of a layout. -/
def HoldsData (l : Layout) (a : Archive) (m : Machine) : Prop :=
  ∀ arena, a.arena = some arena → l.HasData m.disk arena.file

/-! ## Opening -/

theorem spares_reopenForWrite (hPlain : l.HasPlainNames) (h : m.disk.WellFormed) (s : Settings)
    (sync : Bool) : Relates (Spares l) m (reopenForWrite l s sync) (HoldsData l) := by
  refine .get_bind ((Machine.relates_ofExcept (.refl h) _).bind Spares.trans ?_)
  rintro doc m₁ - ⟨-, rfl⟩
  split
  · exact Machine.relates_throw (.refl h) _
  · refine (Machine.relates_ofExcept (.refl h) _).bind Spares.trans ?_
    rintro tables m₂ - ⟨-, rfl⟩
    have hOpened : ∀ arena m', Spares l m₂ m' → l.HasData m'.disk arena.file →
        Relates (Spares l) m' (pure (ofDocument l .write doc tables arena sync) : Effect Archive)
          (HoldsData l) := by
      intro arena m' h' hData
      refine Machine.relates_pure (.refl h'.wellFormed) ?_
      rintro _ ⟨⟩
      exact hData
    refine .get_bind ?_
    split
    · exact (Arena.spares_openAppend hPlain h _).bind Spares.trans hOpened
    · split
      · exact (Arena.spares_create hPlain h).bind Spares.trans hOpened
      · exact Machine.relates_throw (.refl h) _

/-- Replacing the metadata file of an archive changes no more of it than what it notes. -/
theorem spares_settled (hPlain : l.HasPlainNames) (h : m.disk.WellFormed)
    (hLayout : a.layout = l) :
    Relates (Spares l) m (fun m => settled (persist (a, m))) fun a' _ => a'.arena = a.arena := by
  subst hLayout
  have hPersist := (Document.spares_persist (m := m.tick) hPlain h
    (a.document (m.environment.clock m.calls))).related
  have hTo := (Spares.tick h).trans hPersist
  constructor
  · rw [persist_eq]
    split <;> next hDone =>
      rw [hDone] at hTo
      exact hTo
  · intro a' m' hDone
    rw [persist_eq] at hDone
    split at hDone
    · cases hDone
      rfl
    · cases hDone

theorem spares_createForWrite (hPlain : l.HasPlainNames) (h : m.disk.WellFormed) (s : Settings)
    (sync : Bool) : Relates (Spares l) m (createForWrite l s sync) (HoldsData l) := by
  refine (Arena.spares_create hPlain h).bind Spares.trans ?_
  rintro arena m₁ h₁ hData
  -- an identifier and the time are drawn, and then the metadata file is made
  have hTicks : Spares l m₁ m₁.tick.tick := (Spares.tick h₁.wellFormed).trans (.tick h₁.wellFormed)
  obtain ⟨hTo, hArena⟩ := spares_settled (m := m₁.tick.tick)
    (a := fresh l s sync arena (m₁.environment.identifier m₁.calls)
      (m₁.environment.clock m₁.tick.calls)) hPlain h₁.wellFormed rfl
  refine ⟨hTicks.trans hTo, fun a m' hDone opened hOpened => ?_⟩
  have hFresh := (hArena a m' hDone).symm.trans hOpened
  cases hFresh
  rw [show settled (persist (fresh l s sync arena (m₁.environment.identifier m₁.calls)
    (m₁.environment.clock m₁.tick.calls), m₁.tick.tick)) = .ok a m' from hDone] at hTo
  exact hTo.last.data arena.file hData

/-- Opening an archive for writing changes its own files alone. -/
theorem spares_openForWrite (hPlain : l.HasPlainNames) (h : m.disk.WellFormed) (s : Settings)
    (sync : Bool) : Relates (Spares l) m (openForWrite l s sync) (HoldsData l) := by
  refine (Layout.spares_createDirectory h).bind Spares.trans ?_
  rintro u m₁ h₁ -
  refine .get_bind ?_
  split
  · exact spares_reopenForWrite hPlain h₁.wellFormed s sync
  · exact spares_createForWrite hPlain h₁.wellFormed s sync

/-! ## Commands -/

/-- A writer of an archive, which may be closed. -/
structure WritesAt (l : Layout) (a : Archive) (m : Machine) : Prop where
  layout : a.layout = l
  mode : a.mode = .write
  orderly : a.IsOrderly
  disk : m.disk.WellFormed
  data : HoldsData l a m

theorem writesAt_of_openForWrite (hPlain : l.HasPlainNames) (h : m.disk.WellFormed) {s : Settings}
    {sync : Bool} (hOk : openForWrite l s sync m = .ok a m') : Spares l m m' ∧ WritesAt l a m' := by
  obtain ⟨hTo, hData⟩ := spares_openForWrite hPlain h s sync
  rw [hOk] at hTo
  obtain ⟨hLayout, hMode⟩ := mode_of_openForWrite hOk
  exact ⟨hTo, hLayout, hMode, isOrderly_of_openForWrite hOk, hTo.wellFormed, hData a m' hOk⟩

/-- A step that spares all other files, and keeps the data file or lets go of it. -/
theorem WritesAt.next (h : WritesAt l a m) (hTo : Spares l m m') (hLayout : a'.layout = a.layout)
    (hMode : a'.mode = a.mode) (hOrderly : a'.IsOrderly)
    (hArena : ∀ arena', a'.arena = some arena' →
      ∃ arena, a.arena = some arena ∧ arena'.file = arena.file) : WritesAt l a' m' := by
  refine ⟨hLayout.trans h.layout, hMode.trans h.mode, hOrderly, hTo.wellFormed, ?_⟩
  intro arena' hArena'
  obtain ⟨arena, hOld, hFile⟩ := hArena arena' hArena'
  rw [hFile]
  exact hTo.last.data arena.file (h.data arena hOld)

theorem WritesAt.ofTables (h : WritesAt l a m) {result : Except Error Archive}
    (hAlters : ∀ a', result = .ok a' → Alters a a') :
    Spares l m (Outcome.ofTables a m result).machine ∧
      WritesAt l (Outcome.ofTables a m result).archive (Outcome.ofTables a m result).machine := by
  cases result with
  | error e => exact ⟨.refl h.disk, h⟩
  | ok a' =>
      have hAltered := hAlters a' rfl
      have hSame : a'.layout = a.layout ∧ a'.mode = a.mode ∧ a'.arena = a.arena := by
        rw [hAltered.same]
        exact ⟨rfl, rfl, rfl⟩
      obtain ⟨hLayout, hMode, hArena⟩ := hSame
      have hTo : Spares l m m := .refl h.disk
      refine ⟨hTo, h.next hTo hLayout hMode (hAltered.isOrderly h.orderly) fun arena hOpen => ?_⟩
      exact ⟨arena, hArena.symm.trans hOpen, rfl⟩

theorem WritesAt.flush (hPlain : l.HasPlainNames) (h : WritesAt l a m) (stored : Option Blob) :
    Spares l m (Outcome.ofResult stored (Archive.flush (a, m))).machine ∧
      WritesAt l (Outcome.ofResult stored (Archive.flush (a, m))).archive
        (Outcome.ofResult stored (Archive.flush (a, m))).machine := by
  have hTo : Spares l m (Outcome.ofResult stored (Archive.flush (a, m))).machine := by
    cases hArena : a.arena with
    | none =>
        rw [show Archive.flush (a, m) = .error (.invalidState .flush a.status) (a, m) by
          simp [Archive.flush, h.mode, requireOpen, isClosed, hArena]]
        exact .refl h.disk
    | some arena =>
        -- nothing to save, a data file that cannot be synced, or new metadata
        rcases flush_cases (m := m) h.mode hArena (h.orderly.writable h.mode arena hArena) with
          ⟨-, hFlush⟩ | ⟨e, hFlush⟩ | ⟨-, m₁, hFirst, hFlush⟩
        · rw [hFlush]
          exact .refl h.disk
        · rw [hFlush]
          exact .tick h.disk
        · have hWaits : Spares l m m₁ := by
            rcases hFirst with rfl | rfl
            · exact .refl h.disk
            · exact .tick h.disk
          have hPersist := (spares_settled hPlain hWaits.wellFormed h.layout).related
          rw [hFlush]
          refine hWaits.trans ?_
          cases hDone : persist (a, m₁) <;> rw [hDone] at hPersist <;> exact hPersist
  refine ⟨hTo, ?_⟩
  have hOrderly := h.orderly.flush m stored
  rcases h.orderly.flush_archive m stored with hSame | ⟨-, hSaved⟩
  · rw [hSame]
    exact h.next hTo rfl rfl h.orderly fun arena hArena => ⟨arena, hArena, rfl⟩
  · rw [hSaved] at hOrderly ⊢
    exact h.next hTo rfl rfl hOrderly fun arena hArena => ⟨arena, hArena, rfl⟩

theorem WritesAt.store (hPlain : l.HasPlainNames) (h : WritesAt l a m) (durability : Durability)
    (blob : Blob) :
    Spares l m ((Command.store durability blob).perform a m).machine ∧
      WritesAt l ((Command.store durability blob).perform a m).archive
        ((Command.store durability blob).perform a m).machine := by
  have hStored : ∀ {a₁ : Archive} {m₁ : Machine}, Spares l m m₁ → WritesAt l a₁ m₁ →
      let o := if durability = .always then Outcome.ofResult (some blob) (Archive.flush (a₁, m₁))
        else ⟨some blob, none, a₁, m₁⟩
      Spares l m o.machine ∧ WritesAt l o.archive o.machine := by
    intro a₁ m₁ hTo h₁
    dsimp only
    split
    · obtain ⟨hNext, hLast⟩ := h₁.flush hPlain (some blob)
      exact ⟨hTo.trans hNext, hLast⟩
    · exact ⟨hTo, h₁⟩
  have hWrite : ∀ {arena : Arena}, a.arena = some arena →
      Spares l m (Machine.left (Machine.write arena.file arena.length blob.bytes m)) := by
    intro arena hArena
    obtain ⟨dir, data, hLeads, hFile⟩ := h.data arena hArena
    exact (Machine.spares_write h.disk hLeads l.mem_fileNames_data hFile _ _).related
  simp only [Command.perform]
  -- refused, failed in the data file, known by its checksum, or appended
  rcases h.orderly.append_cases blob.point blob.field blob.bytes m with ⟨e, hAppend, -⟩ |
    ⟨arena, catalog, e, m', hTakes, hFails, hAppend⟩ |
    ⟨arena, catalog, extent, hTakes, -, hAppend⟩ |
    ⟨arena, catalog, m', hTakes, hDone, hAppend⟩
  · rw [hAppend]
    exact ⟨.refl h.disk, h⟩
  · rw [hAppend]
    have hTo := hWrite hTakes.arena
    rw [hFails] at hTo
    exact ⟨hTo, h.next hTo rfl rfl (h.orderly.withSavepoint _) fun arena hArena =>
      ⟨arena, hArena, rfl⟩⟩
  · rw [hAppend]
    have hTo : Spares l m m := .refl h.disk
    refine hStored hTo (h.next hTo rfl rfl (hTakes.isOrderly h.orderly _ rfl) ?_)
    rintro _ ⟨⟩
    exact ⟨arena, hTakes.arena, rfl⟩
  · rw [hAppend]
    have hTo := hWrite hTakes.arena
    rw [hDone] at hTo
    refine hStored hTo (h.next hTo rfl rfl (hTakes.isOrderly h.orderly _ rfl) ?_)
    rintro _ ⟨⟩
    exact ⟨arena, hTakes.arena, rfl⟩

/-- A command of a writer changes the files of its archive alone, whether it succeeds or
fails. -/
theorem WritesAt.perform (hPlain : l.HasPlainNames) (h : WritesAt l a m) (command : Command) :
    Spares l m (command.perform a m).machine ∧
      WritesAt l (command.perform a m).archive (command.perform a m).machine := by
  -- commands that change the tables alone touch no file
  cases command with
  | registerField info =>
      refine h.ofTables fun a' hOk => ?_
      obtain ⟨r, hRegister⟩ := exists_registration hOk
      exact alters_of_registerField hRegister
  | registerSavepoint point => exact h.ofTables fun a' => alters_of_registerSavepoint
  | addMetainfo key value => exact h.ofTables fun a' => alters_of_addMetainfo
  | addFieldMetainfo field key value => exact h.ofTables fun a' => alters_of_addFieldMetainfo
  | store durability blob => exact h.store hPlain durability blob
  | flush => exact h.flush hPlain none
  | close =>
      cases hArena : a.arena with
      | none =>
          have hPerform : Command.close.perform a m = ⟨none, none, a, m⟩ := by
            simp [Command.perform, Archive.close, isClosed, hArena, Outcome.ofResult]
          rw [hPerform]
          exact ⟨.refl h.disk, h⟩
      | some arena =>
          rw [perform_close_of_open hArena]
          obtain ⟨hTo, hLast⟩ := h.flush hPlain none
          exact ⟨hTo, hLast.next (.refl hLast.disk) rfl rfl hLast.orderly.close (by rintro _ ⟨⟩)⟩
  | reopen settings sync =>
      simp only [Command.perform]
      split
      · next hOk =>
          rw [h.layout] at hOk
          exact writesAt_of_openForWrite hPlain h.disk hOk
      · next hFails =>
          rw [h.layout] at hFails
          have hTo := (spares_openForWrite hPlain h.disk settings sync).related
          rw [hFails] at hTo
          exact ⟨hTo, h.next hTo rfl rfl h.orderly.close (by rintro _ ⟨⟩)⟩

/-- The same is true of commands one after the other. -/
theorem WritesAt.afterRun (hPlain : l.HasPlainNames) (h : WritesAt l a m)
    (commands : List Command) :
    Spares l m (Archive.afterRun commands a m).2 ∧
      WritesAt l (Archive.afterRun commands a m).1 (Archive.afterRun commands a m).2 := by
  induction commands generalizing a m with
  | nil => exact ⟨.refl h.disk, h⟩
  | cons command rest ih =>
      obtain ⟨hTo, hNext⟩ := h.perform hPlain command
      obtain ⟨hRest, hLast⟩ := ih hNext
      exact ⟨hTo.trans hRest, hLast⟩

end Archive
end FieldArchive

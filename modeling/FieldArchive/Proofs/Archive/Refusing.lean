import FieldArchive.Proofs.Archive.Publishing

/-!
# Openings that are refused

An opening is refused for its configuration, for an argument, for an archive that is
not there or for metadata that contradicts itself.  Every check that can refuse comes
before the first change of a file: an action that only looks (`Effect.Looks`) may
refuse, one that changes the disk fails with other errors only
(`Effect.NeverRefuses`), and what is put together in that order refuses before it
changes anything (`Effect.RefusesFirst`).

The one exception is the directory, which is made before the metadata file is looked
for.  `Disk.SameFiles` says that nothing else can have become of a disk than some more
directories.
-/

namespace FieldArchive

/-- True for an error by which an opening is refused. -/
def Error.isRefusal : Error → Bool
  | invalidConfig _ | invalidArgument _ | archiveNotFound _ | corruptMetadata _ => true
  | _ => false

namespace Effect

variable {α β : Type} {x : Effect α} {f : α → Effect β}

/-- The action leaves the machine as it is. -/
def Looks (x : Effect α) : Prop := ∀ m, Machine.left (x m) = m

/-- The action is not refused. -/
def NeverRefuses (x : Effect α) : Prop :=
  ∀ m e m', x m = .error e m' → e.isRefusal = false

/-- The action leaves the machine as it is when it is refused. -/
def RefusesFirst (x : Effect α) : Prop :=
  ∀ m e m', x m = .error e m' → e.isRefusal = true → m' = m

/-! ## Looking -/

theorem Looks.ok (h : Looks x) {m m' : Machine} {a : α} (hOk : x m = .ok a m') : m' = m := by
  have hLeft := h m
  rwa [hOk] at hLeft

theorem Looks.error (h : Looks x) {m m' : Machine} {e : Error} (hError : x m = .error e m') :
    m' = m := by
  have hLeft := h m
  rwa [hError] at hLeft

theorem looks_pure (a : α) : Looks (pure a) := fun _ => rfl

theorem looks_throw (e : Error) : Looks (throw e : Effect α) := fun _ => rfl

theorem looks_ofExcept (check : Except Error α) : Looks (ofExcept check) := by
  cases check with
  | ok a => exact looks_pure a
  | error e => exact looks_throw e

theorem Looks.bind (h : Looks x) (hNext : ∀ a, Looks (f a)) : Looks (x >>= f) := by
  intro m
  cases hx : x m with
  | ok a m₁ =>
      rw [bind_of_ok hx, h.ok hx]
      exact hNext a m
  | error e m₁ =>
      rw [bind_of_error hx]
      exact h.error hx

theorem looks_get {f : Machine → Effect β} (h : ∀ m, Looks (f m)) : Looks (get >>= f) :=
  fun m => h m m

theorem looks_inspect (path : String) (f : Disk → Except IoError α) :
    Looks (ofWriteCall path (Machine.inspect f)) := by
  intro m
  simp only [ofWriteCall, EStateM.adaptExcept, Machine.inspect]
  cases f m.disk <;> rfl

/-! ## Changing -/

theorem neverRefuses_pure (a : α) : NeverRefuses (pure a) := by
  rintro m e m' ⟨⟩

theorem neverRefuses_ofCall (call : Machine.Call α) : NeverRefuses (ofCall call) := by
  intro m e m' hError
  obtain ⟨cause, rfl, -⟩ := ofCall_error hError
  rfl

theorem neverRefuses_ofWriteCall (path : String) (call : Machine.Call α) :
    NeverRefuses (ofWriteCall path call) := by
  intro m e m' hError
  simp only [ofWriteCall, EStateM.adaptExcept] at hError
  cases hCall : call m with
  | ok a m₁ =>
      rw [hCall] at hError
      cases hError
  | error cause m₁ =>
      rw [hCall] at hError
      cases hError
      rfl

theorem NeverRefuses.bind (h : NeverRefuses x) (hNext : ∀ a, NeverRefuses (f a)) :
    NeverRefuses (x >>= f) := by
  intro m e m' hError
  rcases bind_eq_error hError with hFirst | ⟨a, m₁, -, hRest⟩
  · exact h m e m' hFirst
  · exact hNext a m₁ e m' hRest

/-! ## Refusing first -/

theorem Looks.refusesFirst (h : Looks x) : RefusesFirst x := fun _ _ _ hError _ => h.error hError

theorem NeverRefuses.refusesFirst (h : NeverRefuses x) : RefusesFirst x := by
  intro m e m' hError hRefused
  rw [h m e m' hError] at hRefused
  cases hRefused

/-- Whoever has only looked may still refuse. -/
theorem Looks.bind_refusesFirst (h : Looks x) (hNext : ∀ a, RefusesFirst (f a)) :
    RefusesFirst (x >>= f) := by
  intro m e m' hError hRefused
  rcases bind_eq_error hError with hFirst | ⟨a, m₁, hOk, hRest⟩
  · exact h.error hFirst
  · rw [h.ok hOk] at hRest
    exact hNext a m e m' hRest hRefused

/-- After a change nothing may be refused. -/
theorem RefusesFirst.bind (h : RefusesFirst x) (hNext : ∀ a, NeverRefuses (f a)) :
    RefusesFirst (x >>= f) := by
  intro m e m' hError hRefused
  rcases bind_eq_error hError with hFirst | ⟨a, m₁, -, hRest⟩
  · exact h m e m' hFirst hRefused
  · rw [hNext a m₁ e m' hRest] at hRefused
    cases hRefused

theorem refusesFirst_get {f : Machine → Effect β} (h : ∀ m, RefusesFirst (f m)) :
    RefusesFirst (get >>= f) :=
  fun m e m' hError hRefused => h m m e m' hError hRefused

end Effect

/-! ## Archives -/

open Effect

theorem Arena.looks_openRead (path : String) (valid : Nat) : Looks (openRead path valid) := by
  refine looks_get fun m => ?_
  split
  · exact looks_throw _
  · exact looks_throw _
  · exact looks_get fun _ => (looks_ofExcept _).bind fun _ => looks_pure _

theorem Arena.neverRefuses_create (path : String) : NeverRefuses (create path) :=
  (neverRefuses_ofWriteCall _ _).bind fun _ => neverRefuses_pure _

/-- A data file is cut only after its length was checked. -/
theorem Arena.refusesFirst_openAppend (path : String) (valid : Nat) :
    RefusesFirst (openAppend path valid) := by
  refine (looks_inspect path _).bind_refusesFirst fun file => ?_
  refine refusesFirst_get fun m => ?_
  refine (looks_ofExcept _).bind_refusesFirst fun _ => ?_
  refine NeverRefuses.refusesFirst ?_
  dsimp only
  split
  · refine (neverRefuses_ofCall _).bind fun _ => ?_
    exact (neverRefuses_ofCall _).bind fun _ => neverRefuses_pure _
  · exact neverRefuses_pure _

namespace Archive

/-- Opening for reading never changes anything. -/
theorem looks_openForRead (l : Layout) : Looks (openForRead l) := by
  refine looks_get fun m => (looks_ofExcept _).bind fun _ => ?_
  refine looks_get fun m => (looks_ofExcept _).bind fun doc => ?_
  refine (looks_ofExcept _).bind fun tables => ?_
  exact (Arena.looks_openRead _ _).bind fun _ => looks_pure _

/-- A new archive is not refused. -/
theorem neverRefuses_createForWrite (l : Layout) (s : Settings) (sync : Bool) :
    NeverRefuses (createForWrite l s sync) := by
  intro m e m' hError
  rw [createForWrite_eq] at hError
  cases hArena : Arena.create l.data m with
  | error e₁ m₁ =>
      rw [hArena] at hError
      cases hError
      exact Arena.neverRefuses_create _ _ _ _ hArena
  | ok arena m₁ =>
      rw [hArena] at hError
      dsimp only at hError
      cases hPersist : persist (fresh l s sync arena (m₁.environment.identifier m₁.calls)
          (m₁.environment.clock m₁.tick.calls), m₁.tick.tick) with
      | ok _ state =>
          rw [hPersist] at hError
          cases hError
      | error e₂ state =>
          rw [hPersist] at hError
          cases hError
          rw [persist_eq] at hPersist
          split at hPersist
          · cases hPersist
          · next hDone =>
              cases hPersist
              exact neverRefuses_ofCall _ _ _ _ hDone

/-- An archive that is there is refused before its data file is touched. -/
theorem refusesFirst_reopenForWrite (l : Layout) (s : Settings) (sync : Bool) :
    RefusesFirst (reopenForWrite l s sync) := by
  refine refusesFirst_get fun m => (looks_ofExcept _).bind_refusesFirst fun doc => ?_
  split
  · exact (looks_throw _).refusesFirst
  · refine (looks_ofExcept _).bind_refusesFirst fun tables => ?_
    refine refusesFirst_get fun m => ?_
    dsimp only
    split
    · exact (Arena.refusesFirst_openAppend _ _).bind fun _ => neverRefuses_pure _
    · split
      · exact (Arena.neverRefuses_create _).refusesFirst.bind fun _ => neverRefuses_pure _
      · exact (looks_throw _).refusesFirst.bind fun _ => neverRefuses_pure _

/-- What was changed before an archive was refused is its directory, in which there was
a metadata file. -/
theorem openForWrite_refused {l : Layout} {s : Settings} {sync : Bool} {m m' : Machine}
    {e : Error} (hError : openForWrite l s sync m = .error e m') (hRefused : e.isRefusal = true) :
    l.createDirectory m = .ok () m' ∧ m'.disk.exists? l.metadata = true := by
  rcases bind_eq_error hError with hFirst | ⟨_, m₁, hDirectory, hRest⟩
  · rw [neverRefuses_ofWriteCall _ _ _ _ _ hFirst] at hRefused
    cases hRefused
  · rw [get_bind] at hRest
    split at hRest
    · next hExists =>
        have hSame := refusesFirst_reopenForWrite _ _ _ _ _ _ hRest hRefused
        rw [hSame]
        exact ⟨hDirectory, hExists⟩
    · rw [neverRefuses_createForWrite _ _ _ _ _ _ hRest] at hRefused
      cases hRefused

end Archive

/-! ## Directories that were made -/

namespace Disk

/-- The second disk has the files of the first, with the same contents at the same places,
and all else that it has are more directories. -/
structure SameFiles (d d' : Disk) : Prop where
  files : ∀ slot id bytes, d'.HasFile slot id bytes ↔ d.HasFile slot id bytes
  nodes : ∃ count, d'.nodes = d.nodes ++ List.replicate count .directory

variable {d d' d'' : Disk}

theorem SameFiles.refl (d : Disk) : SameFiles d d where
  files _ _ _ := Iff.rfl
  nodes := ⟨0, by simp⟩

theorem SameFiles.trans (h : SameFiles d d') (h' : SameFiles d' d'') : SameFiles d d'' where
  files slot id bytes := (h'.files slot id bytes).trans (h.files slot id bytes)
  nodes := by
    obtain ⟨count, hNodes⟩ := h.nodes
    obtain ⟨count', hNodes'⟩ := h'.nodes
    exact ⟨count + count', by rw [hNodes', hNodes, List.append_assoc,
      List.replicate_append_replicate]⟩

/-- A directory that is made where nothing was hides no file. -/
theorem SameFiles.addDirectory {slot : Slot} (hFree : d.entries.get? slot = none) :
    SameFiles d (d.addNode slot .directory) where
  files slot' id bytes := by
    constructor
    · rintro ⟨hEntry, hNode⟩
      simp only [addNode, Index.get?_insert] at hEntry hNode
      by_cases hLt : id < d.nodes.length
      · rw [List.getElem?_append_left hLt] at hNode
        split at hEntry
        · cases hEntry
          exact absurd hLt (Nat.lt_irrefl _)
        · exact ⟨hEntry, hNode⟩
      · -- the only further node is the directory
        rw [List.getElem?_append_right (Nat.le_of_not_lt hLt), List.getElem?_singleton] at hNode
        split at hNode <;> cases hNode
    · intro hFile
      refine hFile.addNode_ne ?_ .directory
      rintro rfl
      have hEntry := hFile.entry
      rw [hFree] at hEntry
      cases hEntry
  nodes := ⟨1, rfl⟩

end Disk

/-- Making the directory of an archive leaves all files. -/
theorem Layout.sameFiles_of_createDirectory {l : Layout} {m m' : Machine}
    (hOk : l.createDirectory m = .ok () m') : Disk.SameFiles m.disk m'.disk := by
  have hAllows : l.AllowsDirectories fun m m' => Disk.SameFiles m.disk m'.disk :=
    { trans := Disk.SameFiles.trans
      last := fun _ => .refl _
      tick := fun _ => .refl _
      make := fun _ hFree _ => .addDirectory hFree }
  exact hAllows.of_createDirectory (.refl _) hOk

end FieldArchive

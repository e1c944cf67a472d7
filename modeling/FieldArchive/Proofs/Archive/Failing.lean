import FieldArchive.Proofs.Archive.Coherence

/-!
# How an archive fails

Two errors tell something about whoever made a call and not about what was asked:
`Error.invalidState`, that the archive was not open for it, and `Error.aborted`, that a
snapshot did not split into elements.  All others are ordinary.  A command fails as its
check of the mode fails, or ordinarily (`GuardedBy`), so an archive that is open in the
right mode has only ordinary errors.
-/

namespace FieldArchive

variable {α β : Type}

/-- True for errors other than those of a wrong state and of an abort. -/
def Error.isOrdinary : Error → Bool
  | invalidState _ _ | aborted => false
  | _ => true

/-- The errors of a result are ordinary. -/
def Ordinary (result : Except Error α) : Prop := ∀ e, result = .error e → e.isOrdinary = true

/-- The errors of a result are those of a check, or ordinary. -/
def GuardedBy (check : Except Error β) (result : Except Error α) : Prop :=
  ∀ e, result = .error e → check = .error e ∨ e.isOrdinary = true

theorem ordinary_ok (x : α) : Ordinary (.ok x) := nofun

theorem Ordinary.bind {result : Except Error α} {next : α → Except Error β}
    (h : Ordinary result) (hNext : ∀ x, Ordinary (next x)) : Ordinary (result >>= next) := by
  intro e hError
  rcases except_bind_eq_error_iff.1 hError with hFirst | ⟨x, -, hRest⟩
  · exact h e hFirst
  · exact hNext x e hRest

theorem guardedBy_bind {check : Except Error α} {next : α → Except Error β}
    (hNext : ∀ x, Ordinary (next x)) : GuardedBy check (check >>= next) := by
  intro e hError
  rcases except_bind_eq_error_iff.1 hError with hFirst | ⟨x, -, hRest⟩
  · exact Or.inl hFirst
  · exact Or.inr (hNext x e hRest)

theorem Error.isOrdinary_of_isIo {e : Error} (h : e.isIo = true) : e.isOrdinary = true := by
  cases e with
  | io cause => rfl
  | _ => cases h

/-- A check that fails ordinarily leaves the ordinary errors. -/
theorem GuardedBy.ordinary {check : Except Error β} {result : Except Error α}
    (h : GuardedBy check result) (hCheck : Ordinary check) : Ordinary result := by
  intro e hError
  rcases h e hError with hFailed | hOrdinary
  · exact hCheck e hFailed
  · exact hOrdinary

/-! ## Checks -/

theorem Catalog.ordinary_register (c : Catalog) (info : FieldInfo) :
    Ordinary (c.register info) := by
  unfold register
  split
  · refine Ordinary.bind ?_ fun _ => ordinary_ok _
    unfold FieldInfo.checkCompatible
    split
    · exact ordinary_ok _
    · rintro e ⟨⟩
      rfl
  · exact ordinary_ok _

theorem Catalog.ordinary_addMetainfo (c : Catalog) (name key : String) (value : MetaValue) :
    Ordinary (c.addMetainfo name key value) := by
  unfold addMetainfo
  split
  · rintro e ⟨⟩
    rfl
  · exact ordinary_ok _

namespace Codec

theorem ordinary_checkType (codec : Codec) (info : FieldInfo) (actual : ElementType) :
    Ordinary (codec.checkType info actual) := by
  intro e hError
  unfold checkType at hError
  dsimp only at hError
  split at hError
  · cases hError
    rfl
  · split at hError
    · cases hError
      rfl
    · cases hError

/-- Encoding fails ordinarily or aborts. -/
theorem encode_error {codec : Codec} {info : FieldInfo} {buffer : Buffer} {e : Error}
    (h : codec.encode info buffer = .error e) : e.isOrdinary = true ∨ e = .aborted := by
  rcases except_bind_eq_error_iff.1 h with hType | ⟨_, -, hRest⟩
  · exact Or.inl (ordinary_checkType _ _ _ e hType)
  · split at hRest
    · cases hRest
      exact Or.inl rfl
    · dsimp only at hRest
      split at hRest
      · cases hRest
        exact Or.inr rfl
      · cases hRest

/-- Decoding fails ordinarily or aborts. -/
theorem decode_error {codec : Codec} {info : FieldInfo} {bytes : List UInt8} {e : Error}
    (h : codec.decode info bytes = .error e) : e.isOrdinary = true ∨ e = .aborted := by
  rcases except_bind_eq_error_iff.1 h with hType | ⟨_, -, hRest⟩
  · exact Or.inl (ordinary_checkType _ _ _ e hType)
  · split at hRest
    · cases hRest
      exact Or.inl rfl
    · dsimp only at hRest
      split at hRest
      · cases hRest
        exact Or.inr rfl
      · cases hRest

end Codec

namespace Archive

/-- An archive has the status of a mode if it is open in it. -/
theorem status_eq_iff {a : Archive} (mode : Mode) :
    a.status = mode.status ↔ a.mode = mode ∧ a.isClosed = false := by
  unfold status
  cases a.isClosed <;> cases a.mode <;> cases mode <;> simp [Mode.status]

/-- The check of the mode does not fail in an archive that is open in it. -/
theorem ordinary_requireMode {a : Archive} (mode : Mode) (h : a.status = mode.status)
    (operation : Operation) : Ordinary (a.requireMode mode operation) := by
  obtain ⟨hMode, hOpen⟩ := (status_eq_iff mode).1 h
  obtain ⟨arena, hArena⟩ := Option.isSome_iff_exists.1 (by simpa [isClosed] using hOpen)
  rw [requireMode_eq_ok_iff.2 ⟨hMode, hArena⟩]
  exact ordinary_ok _

theorem ordinary_checkFinite (owner : Owner) (metainfo : Metainfo) :
    Ordinary (checkFinite owner metainfo) := by
  unfold checkFinite
  split
  · rintro e ⟨⟩
    rfl
  · exact ordinary_ok _

theorem ordinary_checkFiniteValue (owner : Owner) (key : String) (value : MetaValue) :
    Ordinary (checkFiniteValue owner key value) := by
  unfold checkFiniteValue
  split
  · exact ordinary_ok _
  · rintro e ⟨⟩
    rfl

/-! ## Commands -/

theorem guardedBy_registerField (a : Archive) (info : FieldInfo) :
    GuardedBy (a.requireMode .write .registerField) (a.registerField info) :=
  guardedBy_bind fun _ => (ordinary_checkFinite _ _).bind fun _ =>
    (Catalog.ordinary_register _ _).bind fun _ => ordinary_ok _

theorem guardedBy_registerSavepoint (a : Archive) (point : Savepoint) :
    GuardedBy (a.requireMode .write .registerSavepoint) (a.registerSavepoint point) := by
  refine guardedBy_bind fun _ => (ordinary_checkFinite _ _).bind fun _ => ?_
  split <;> exact ordinary_ok _

theorem guardedBy_addMetainfo (a : Archive) (key : String) (value : MetaValue) :
    GuardedBy (a.requireMode .write .addGlobalMetainfo) (a.addMetainfo key value) :=
  guardedBy_bind fun _ => (ordinary_checkFiniteValue _ _ _).bind fun _ => ordinary_ok _

theorem guardedBy_addFieldMetainfo (a : Archive) (field key : String) (value : MetaValue) :
    GuardedBy (a.requireMode .write .addFieldMetainfo) (a.addFieldMetainfo field key value) :=
  guardedBy_bind fun _ => (ordinary_checkFiniteValue _ _ _).bind fun _ =>
    (Catalog.ordinary_addMetainfo _ _ _ _).bind fun _ => ordinary_ok _

theorem guardedBy_checkAppend (a : Archive) (point : Savepoint) (field : String)
    (bytes : List UInt8) :
    GuardedBy (a.requireMode .write .writeField) (a.checkAppend point field bytes) := by
  refine guardedBy_bind fun _ => (ordinary_checkFinite _ _).bind fun _ => ?_
  split
  · rintro e ⟨⟩
    rfl
  · split
    · rintro e ⟨⟩
      rfl
    · exact ordinary_ok _

theorem guardedBy_readBytes (a : Archive) (d : Disk) (point : Savepoint) (field : String) :
    GuardedBy (a.requireMode .read .readField) (a.readBytes d point field) := by
  refine guardedBy_bind fun arena => Ordinary.bind ?_ fun record => ?_
  · intro e hMiss
    rw [OffsetTable.eq_of_lookup_eq_error hMiss]
    split <;> rfl
  · unfold Arena.readRange
    split
    · rintro e ⟨⟩
      rfl
    · split
      · rintro e ⟨⟩
        rfl
      · split
        · exact ordinary_ok _
        · rintro e ⟨⟩
          rfl

end Archive
end FieldArchive

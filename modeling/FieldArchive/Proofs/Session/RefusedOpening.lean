import FieldArchive.Proofs.Archive.Refusing
import FieldArchive.Proofs.Session.Progress

/-!
# Sessions that are not opened

A session that is refused leaves every file as it was (`refused_open_leaves_files`).
Configuration, stem and reference are checked before the primary archive is looked at,
and an archive that cannot be written under the settings of the session, for which
`Archive.Unfit` lists the reasons, is refused before its data file is opened.

What can be left of a refused opening is a directory: a path with `..` may lead through
one that has to be made to an archive that is there.
-/

namespace FieldArchive

/-- A file that was read is there. -/
theorem Disk.exists?_of_readText {d : Disk} {path text : String} (h : d.readText path = .ok text) :
    d.exists? path = true := by
  unfold Disk.readText Disk.readBytes at h
  unfold Disk.exists?
  cases hFind : d.find path with
  | ok id => rfl
  | error e =>
      rw [hFind] at h
      cases h

namespace Archive

/-- The metadata file at a layout is there, but a session cannot write its archive. -/
inductive Unfit (l : Layout) (s : Settings) (d : Disk) : Prop
  /-- The metadata is no document of the current version. -/
  | unreadable {cause : Corruption}
      (hLoad : Document.load d l.metadata = .error (.corruptMetadata cause))
  /-- The archive declares other settings. -/
  | settings {doc : Document} (hLoad : Document.load d l.metadata = .ok doc)
      (hOther : doc.settings ≠ s)
  /-- The metadata contradicts itself. -/
  | inconsistent {doc : Document} {e : Error} (hLoad : Document.load d l.metadata = .ok doc)
      (hTables : doc.tables = .error e)
  /-- The metadata records bytes of a data file that is not there. -/
  | missing {doc : Document} (hLoad : Document.load d l.metadata = .ok doc)
      (hMissing : d.exists? l.data = false) (hLength : doc.dataLength ≠ 0)
  /-- The data file is shorter than the metadata records. -/
  | short {doc : Document} {id : NodeId} {bytes : List UInt8}
      (hLoad : Document.load d l.metadata = .ok doc) (hFind : d.find l.data = .ok id)
      (hNode : d.nodes[id]? = some (.file bytes)) (hShort : bytes.length < doc.dataLength)

variable {l : Layout} {s : Settings} {m : Machine}

theorem Unfit.exists_metadata {d : Disk} (h : Unfit l s d) : d.exists? l.metadata = true := by
  cases hText : d.readText l.metadata with
  | ok text => exact Disk.exists?_of_readText hText
  | error e =>
      have hLoad : Document.load d l.metadata = .error (.io e) := by
        simp only [Document.load, hText]
      cases h with
      | unreadable h => rw [hLoad] at h; cases h
      | settings h => rw [hLoad] at h; cases h
      | inconsistent h => rw [hLoad] at h; cases h
      | missing h => rw [hLoad] at h; cases h
      | short h => rw [hLoad] at h; cases h

/-- An archive is refused at once, if its data file is refused whenever its metadata is
not. -/
theorem reopenForWrite_of_load {doc : Document} (sync : Bool)
    (hLoad : Document.load m.disk l.metadata = .ok doc)
    (hData : doc.settings = s → (∃ tables, doc.tables = .ok tables) →
      ∃ cause, openData l doc.dataLength m = .error (.corruptMetadata cause) m) :
    ∃ e, reopenForWrite l s sync m = .error e m ∧ e.isRefusal = true := by
  rw [reopenForWrite_eq, hLoad]
  dsimp only
  cases hMatches : s.checkMatches doc.settings with
  | error difference => exact ⟨_, rfl, rfl⟩
  | ok _ =>
      dsimp only
      cases hTables : doc.tables with
      | error e =>
          obtain ⟨cause, rfl⟩ := Error.isCorrupt_iff.1 (Document.isCorrupt_of_tables hTables)
          exact ⟨_, rfl, rfl⟩
      | ok tables =>
          obtain ⟨cause, hError⟩ :=
            hData (Settings.checkMatches_eq_ok_iff.1 hMatches).symm ⟨tables, hTables⟩
          rw [hError]
          exact ⟨_, rfl, rfl⟩

theorem reopenForWrite_of_unfit (h : Unfit l s m.disk) (sync : Bool) :
    ∃ e, reopenForWrite l s sync m = .error e m ∧ e.isRefusal = true := by
  cases h with
  | unreadable hLoad =>
      rw [reopenForWrite_eq, hLoad]
      exact ⟨_, rfl, rfl⟩
  | settings hLoad hOther =>
      exact reopenForWrite_of_load sync hLoad fun hSame => absurd hSame hOther
  | inconsistent hLoad hTables =>
      refine reopenForWrite_of_load sync hLoad ?_
      rintro - ⟨tables, hOk⟩
      rw [hTables] at hOk
      cases hOk
  | missing hLoad hMissing hLength =>
      refine reopenForWrite_of_load sync hLoad fun _ _ => ?_
      rw [openData, hMissing, if_neg (by simp), if_neg hLength]
      exact ⟨_, rfl⟩
  | @short doc id bytes hLoad hFind hNode hShort =>
      refine reopenForWrite_of_load sync hLoad fun _ _ => ?_
      have hExists : m.disk.exists? l.data = true := by
        rw [Disk.exists?, hFind]
        rfl
      have hWritable : Effect.ofWriteCall l.data (Machine.openWritable l.data) m = .ok id m :=
        Effect.ofWriteCall_ok.2 (Machine.openWritable_of_file hFind hNode)
      refine ⟨.shortData l.data bytes.length doc.dataLength, ?_⟩
      rw [openData, if_pos hExists, Arena.openAppend, bind_of_ok hWritable, get_bind]
      dsimp only
      rw [Effect.ofExcept_bind, Arena.checkPhysical, Disk.size_of_file hNode, if_pos hShort]

/-- Where a metadata file is there is no directory to make. -/
theorem openForWrite_of_exists (hPlain : l.HasPlainNames)
    (hExists : m.disk.exists? l.metadata = true) (sync : Bool) :
    l.createDirectory m = .ok () m ∧
      openForWrite l s sync m = reopenForWrite l s sync m := by
  cases hFind : m.disk.find l.metadata with
  | error e =>
      rw [Disk.exists?, hFind] at hExists
      cases hExists
  | ok id =>
      obtain ⟨hName, dir, hLeads, -⟩ := (l.find_join_ok_iff hPlain.metadata).1 hFind
      have hDirectory := l.createDirectory_of_leadsTo hName hLeads
      refine ⟨hDirectory, ?_⟩
      rw [openForWrite, bind_of_ok hDirectory, get_bind, if_pos hExists]

end Archive

namespace Session

variable {directory stem : String} {mode : Mode} {reference : Option String} {config : Config}
  {l : Layout} {s : Settings} {m m' : Machine} {e : Error}

/-- The reference is only looked at. -/
theorem looks_openReference (l : Layout) (reference : Option String) :
    Effect.Looks (openReference l reference) := by
  cases reference with
  | none => exact Effect.looks_pure _
  | some stem =>
      rw [openReference]
      split
      · exact Effect.looks_throw _
      · refine (Effect.looks_ofExcept _).bind fun sibling => ?_
        exact (Archive.looks_openForRead sibling).bind fun _ => Effect.looks_pure _

/-- An opening that fails leaves the machine as it is, unless it is the primary archive
that cannot be written. -/
theorem openWith_error (h : openWith directory stem mode reference config m = .error e m') :
    m' = m ∨ mode = .write ∧ ∃ l settings, Layout.make directory stem = .ok l ∧
      config.settings = .ok settings ∧
      Archive.openForWrite l settings config.syncData m = .error e m' := by
  unfold openWith at h
  rcases bind_eq_error h with hFirst | ⟨settings, m₁, hFirst, h₁⟩
  · exact Or.inl (Effect.ofExcept_error hFirst).2
  obtain ⟨hSettings, rfl⟩ := Effect.ofExcept_ok hFirst
  rcases bind_eq_error h₁ with hSecond | ⟨durability, m₂, hSecond, h₂⟩
  · exact Or.inl (Effect.ofExcept_error hSecond).2
  obtain ⟨-, rfl⟩ := Effect.ofExcept_ok hSecond
  rcases bind_eq_error h₂ with hThird | ⟨l, m₃, hThird, h₃⟩
  · exact Or.inl (Effect.ofExcept_error hThird).2
  obtain ⟨hMade, rfl⟩ := Effect.ofExcept_ok hThird
  have hLayout : Layout.make directory stem = .ok l := mapError_eq_ok_iff.1 hMade
  rcases bind_eq_error h₃ with hReference | ⟨other, m₄, hReference, h₄⟩
  · exact Or.inl ((looks_openReference l reference).error hReference)
  obtain rfl := (looks_openReference l reference).ok hReference
  cases mode with
  | read =>
      have hLooks : Effect.Looks (do
          let primary ← Archive.openForRead l
          return ofArchives primary other durability) :=
        (Archive.looks_openForRead l).bind fun _ => Effect.looks_pure _
      exact Or.inl (hLooks.error h₄)
  | write =>
      rcases bind_eq_error h₄ with hOpen | ⟨a, m₅, -, h₅⟩
      · exact Or.inr ⟨rfl, l, settings, hLayout, hSettings, hOpen⟩
      · cases h₅

theorem isRefusal_of_durabilitySetting (h : config.durabilitySetting = .error e) :
    e.isRefusal = true := by
  unfold Config.durabilitySetting at h
  split at h <;> cases h
  rfl

/-- With settings and a layout, opening a session is left to its archives. -/
theorem openWith_of_layout (hLayout : Layout.make directory stem = .ok l)
    (hSettings : config.settings = .ok s) :
    openWith directory stem mode reference config m =
      match config.durabilitySetting with
      | .error e => .error e m
      | .ok durability => (do
          let other ← openReference l reference
          let primary ← match mode with
            | .write => Archive.openForWrite l s config.syncData
            | .read => Archive.openForRead l
          return ofArchives primary other durability : Effect Session) m := by
  have hMade : ∀ f : Layout → Effect Session,
      (Effect.ofExcept ((Layout.make directory stem).mapError .invalidArgument) >>= f) m =
        f l m := by
    intro f
    simp only [hLayout, Except.mapError, Effect.ofExcept_bind]
  unfold openWith
  rw [hSettings, Effect.ofExcept_bind]
  dsimp only
  rw [Effect.ofExcept_bind]
  cases config.durabilitySetting with
  | error e => rfl
  | ok durability => exact hMade _

/-- A session is not opened if its reference is not. -/
theorem openWith_of_openReference_error (hLayout : Layout.make directory stem = .ok l)
    (hReference : openReference l reference m = .error e m') :
    ∃ e', openWith directory stem mode reference config m = .error e' m := by
  have hSame := (looks_openReference l reference).error hReference
  subst hSame
  cases hSettings : config.settings with
  | error e₁ => exact ⟨e₁, by rw [openWith, hSettings, Effect.ofExcept_bind]⟩
  | ok s =>
      rw [openWith_of_layout hLayout hSettings]
      cases config.durabilitySetting with
      | error e₁ => exact ⟨e₁, rfl⟩
      | ok durability => exact ⟨e, bind_of_error hReference⟩

/-- A session is not opened for writing if its primary archive is not. -/
theorem openWith_of_openForWrite_error (reference : Option String)
    (hLayout : Layout.make directory stem = .ok l)
    (hSettings : config.settings = .ok s)
    (hOpen : Archive.openForWrite l s config.syncData m = .error e m) :
    ∃ e', openWith directory stem .write reference config m = .error e' m ∧
      (reference = none → e.isRefusal = true → e'.isRefusal = true) := by
  rw [openWith_of_layout hLayout hSettings]
  cases hDurability : config.durabilitySetting with
  | error e₁ => exact ⟨e₁, rfl, fun _ _ => isRefusal_of_durabilitySetting hDurability⟩
  | ok durability =>
      cases hReference : openReference l reference m with
      | error e₁ m₁ =>
          have hSame := (looks_openReference l reference).error hReference
          subst hSame
          refine ⟨e₁, bind_of_error hReference, ?_⟩
          rintro rfl
          cases hReference
      | ok other m₁ =>
          have hSame := (looks_openReference l reference).ok hReference
          subst hSame
          refine ⟨e, ?_, fun _ h => h⟩
          dsimp only
          rw [bind_of_ok hReference, bind_of_error hOpen]

/-- A session that is not opened because of its configuration, an argument, a missing
archive or corrupt metadata leaves all files as they were, whatever the file system
does.  If it was opened for reading, or its primary archive was there, nothing at all
has happened.

A session whose reference cannot be opened, and one that cannot write the archive that
is there, is not opened, and nothing has happened. -/
theorem refused_open_leaves_files (directory stem : String) (mode : Mode)
    (reference : Option String) (config : Config) (m : Machine) :
    (∀ e m', openWith directory stem mode reference config m = .error e m' →
      e.isRefusal = true →
      m.disk.SameFiles m'.disk ∧ (mode = .read → m' = m) ∧
        ∀ l, Layout.make directory stem = .ok l → m.disk.exists? l.metadata = true → m' = m) ∧
    (∀ l e m', Layout.make directory stem = .ok l → openReference l reference m = .error e m' →
      ∃ e', openWith directory stem mode reference config m = .error e' m) ∧
    ∀ l s, Layout.make directory stem = .ok l → config.settings = .ok s →
      Archive.Unfit l s m.disk →
      ∃ e, openWith directory stem .write reference config m = .error e m ∧
        (reference = none → e.isRefusal = true) := by
  refine ⟨fun e m' hOpen hRefused => ?_, fun l e m' hLayout hReference => ?_,
    fun l s hLayout hSettings hUnfit => ?_⟩
  · rcases openWith_error hOpen with rfl | ⟨rfl, l, settings, hLayout, -, hPrimary⟩
    · exact ⟨.refl _, fun _ => rfl, fun _ _ _ => rfl⟩
    · obtain ⟨hDirectory, -⟩ := Archive.openForWrite_refused hPrimary hRefused
      refine ⟨Layout.sameFiles_of_createDirectory hDirectory, nofun, fun l' hLayout' hExists => ?_⟩
      obtain rfl : l = l' := Except.ok.inj (hLayout.symm.trans hLayout')
      obtain ⟨hNothing, -⟩ := Archive.openForWrite_of_exists (s := settings)
        (Layout.hasPlainNames_of_make hLayout) hExists config.syncData
      rw [hNothing] at hDirectory
      cases hDirectory
      rfl
  · exact openWith_of_openReference_error hLayout hReference
  · obtain ⟨e, hError, hRefused⟩ := Archive.reopenForWrite_of_unfit hUnfit config.syncData
    obtain ⟨-, hReopen⟩ := Archive.openForWrite_of_exists (s := s)
      (Layout.hasPlainNames_of_make hLayout) hUnfit.exists_metadata config.syncData
    obtain ⟨e', hOpen, hSame⟩ :=
      openWith_of_openForWrite_error reference hLayout hSettings (hReopen.trans hError)
    exact ⟨e', hOpen, fun hNone => hSame hNone hRefused⟩

/-- A machine with a metadata file that is no document beside a data file. -/
def Sample.torn : Machine :=
  .start ⟨fun _ => "", fun _ => default, fun _ => none⟩
    { entries := ⟨[(⟨Disk.root, "a.json"⟩, 1), (⟨Disk.root, "a.dat"⟩, 2)]⟩
      nodes := [.directory, .file (Disk.textBytes "\x7b"), .file [1, 2, 3]] }

/-- The torn archive is refused, and on a new machine a session without its reference is;
either way the data file holds what it held. -/
theorem refused_open_leaves_files_sample :
    (∃ e, openWith "" "a" .write none Sample.config Sample.torn = .error e Sample.torn ∧
      e.isRefusal = true) ∧
    ∃ e, openWith "" "a" .write (some "b") Sample.config Sample.start = .error e Sample.start := by
  obtain ⟨-, -, hUnfit⟩ :=
    refused_open_leaves_files "" "a" .write none Sample.config Sample.torn
  obtain ⟨-, hReference, -⟩ :=
    refused_open_leaves_files "" "a" .write (some "b") Sample.config Sample.start
  have hLoad : Document.load Sample.torn.disk Sample.layout.metadata =
      .error (.corruptMetadata (.unreadable Sample.layout.metadata)) := by rfl
  obtain ⟨e, hOpen, hRefused⟩ := hUnfit Sample.layout Sample.settings Sample.layout_eq
    Sample.settings_eq (.unreadable hLoad)
  refine ⟨⟨e, hOpen, hRefused rfl⟩, ?_⟩
  have hMissing : ∃ e m', openReference Sample.layout (some "b") Sample.start = .error e m' :=
    ⟨_, _, rfl⟩
  obtain ⟨e', m', hFails⟩ := hMissing
  exact hReference Sample.layout e' m' Sample.layout_eq hFails

end Session
end FieldArchive

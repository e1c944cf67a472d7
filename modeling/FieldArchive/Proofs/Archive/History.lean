import FieldArchive.Proofs.Archive.Resuming

/-!
# The history of an archive

Programs may work on an archive one after the other: each opens it for writing, gives
it commands, and stops, after all that it does or in the middle of it.  A history is
what they change on the disk, from the first to the last.

Whatever document is on the disk at some moment of a history is continued by those on
it at later moments, and the bytes it vouches for stay (`Archive.append_only`).  So an
archive that was opened for reading gives the same bytes from then on, although it only
knows its own document and later writers know nothing of it.  Nothing is said about the
metainfo of fields, which may be changed.
-/

namespace FieldArchive

/-! ## Programs that stop -/

namespace Disk

variable {d : Disk} {changes : List Change}

/-- The changes that a program has made which stops after `count` of them, and with
`part` inside the next one after that number of bytes. -/
def cutTo (changes : List Change) (count : Nat) (part : Option Nat) : List Change :=
  changes.take count ++
    (part.bind fun bytes => (changes[count]?).bind fun c => c.cut bytes).toList

theorem cutTo_of_le {count : Nat} (h : changes.length ≤ count) (part : Option Nat) :
    cutTo changes count part = changes := by
  rw [cutTo, List.take_of_length_le h, List.getElem?_eq_none h]
  cases part <;> simp

theorem Change.cut_cut {c c' : Change} {bytes : Nat} (h : c.cut bytes = some c') (bytes' : Nat) :
    c'.cut bytes' = c.cut (min bytes' bytes) := by
  cases c with
  | write id offset contents =>
      cases h
      simp only [cut, List.take_take]
  | makeDirectory slot => cases h
  | makeEmpty slot => cases h
  | resize id length => cases h
  | rename source target => cases h

/-- A stop in what a program has made is a stop in what it would have made. -/
theorem exists_stopped_cutTo (d : Disk) (changes : List Change) (stop : Nat) (part : Option Nat)
    (count : Nat) (part' : Option Nat) : ∃ part'',
      d.stopped (cutTo changes stop part) count part' =
        d.stopped changes (min count stop) part'' := by
  by_cases hInside : count < (changes.take stop).length
  · have hLt : count < stop := by
      rw [List.length_take] at hInside
      omega
    refine ⟨part', ?_⟩
    rw [cutTo, stopped_append_left _ _ _ hInside, Nat.min_eq_left hLt.le,
      ← stopped_append_left d (changes.take stop) (changes.drop stop) hInside,
      List.take_append_drop]
  rw [cutTo, stopped_append_right _ _ _ (Nat.le_of_not_lt hInside)]
  cases hLast : part.bind fun bytes => (changes[stop]?).bind fun c => c.cut bytes with
  | none =>
      refine ⟨none, ?_⟩
      rw [Option.toList_none, stopped_nil]
      show d.after (changes.take stop) = d.after (changes.take (min count stop))
      by_cases hLe : stop ≤ count
      · rw [Nat.min_eq_right hLe]
      · -- there are no more changes than were asked for
        rw [List.length_take] at hInside
        rw [List.take_of_length_le (by omega), List.take_of_length_le (by omega)]
  | some last =>
      obtain ⟨bytes, hPart, hCut⟩ := Option.bind_eq_some_iff.1 hLast
      obtain ⟨c, hGet, hLast⟩ := Option.bind_eq_some_iff.1 hCut
      obtain ⟨hLt, -⟩ := List.getElem?_eq_some_iff.1 hGet
      have hLength : (changes.take stop).length = stop := by
        rw [List.length_take]
        omega
      rw [hLength] at hInside ⊢
      rw [Nat.min_eq_right (Nat.le_of_not_lt hInside)]
      -- the stop is before the last part, inside it or after it
      cases count - stop with
      | zero =>
          cases part' with
          | none => exact ⟨none, rfl⟩
          | some bytes' =>
              refine ⟨some (min bytes' bytes), ?_⟩
              simp only [stopped, Option.toList_some, Option.bind_some, List.getElem?_cons_zero,
                hGet,
                Change.cut_cut hLast, List.take_zero]
              rfl
      | succ n =>
          refine ⟨some bytes, ?_⟩
          simp [stopped, hGet, hLast, after]

end Disk

/-- Programs that stop continue an archive as those do that go on. -/
theorem Layout.Passes.cutTo {l : Layout} {d : Disk} {changes : List Disk.Change}
    (h : l.Passes d changes) (stop : Nat) (part : Option Nat) :
    l.Passes d (Disk.cutTo changes stop part) := by
  intro count before
  obtain ⟨part₀, hBefore⟩ := Disk.exists_stopped_cutTo d changes stop part count before
  rw [hBefore]
  refine ⟨(h _ _).1, fun count' later hLe => ?_⟩
  obtain ⟨part₁, hLater⟩ := Disk.exists_stopped_cutTo d changes stop part count' later
  rw [hLater]
  exact (h _ _).2 _ _ (by omega)

/-! ## What stays on a disk -/

/-- Ranges within the first bytes of a file are read the same where these are the same. -/
theorem Disk.readRange_congr {d d' : Disk} {id : NodeId} {length offset count : Nat}
    (h : (d'.nodes[id]?).map (Node.take length) = (d.nodes[id]?).map (Node.take length))
    (hLe : offset + count ≤ length) :
    d'.readRange id offset count = d.readRange id offset count := by
  -- a range within the first bytes of a file is a range of these
  have hRange : ∀ bytes : List UInt8,
      ((bytes.take length).drop offset).take count = (bytes.drop offset).take count := by
    intro bytes
    rw [List.drop_take, List.take_take, Nat.min_eq_left (by omega)]
  unfold readRange
  cases hOld : d.nodes[id]? with
  | none =>
      rw [hOld] at h
      rw [Option.map_eq_none_iff.1 h]
  | some node =>
      rw [hOld] at h
      obtain ⟨node', hNew, hSame⟩ := Option.map_eq_some_iff.1 h
      rw [hNew]
      cases node with
      | directory =>
          cases node' with
          | directory => rfl
          | file bytes' => cases hSame
      | file bytes =>
          cases node' with
          | directory => cases hSame
          | file bytes' =>
              have hBytes : bytes'.take length = bytes.take length := Node.file.inj hSame
              have hEqual : (bytes'.drop offset).take count = (bytes.drop offset).take count := by
                rw [← hRange bytes', hBytes, hRange bytes]
              simp only [hEqual]

theorem Arena.readRange_congr {arena : Arena} {d d' : Disk}
    (h : (d'.nodes[arena.file]?).map (Node.take arena.length) =
      (d.nodes[arena.file]?).map (Node.take arena.length)) (extent : Extent) :
    arena.readRange d' extent = arena.readRange d extent := by
  unfold readRange Extent.stop?
  split
  · rfl
  · next stop hStop =>
      split
      · rfl
      · next hInside =>
          split at hStop
          · cases hStop
            rw [Disk.readRange_congr h (by omega)]
          · cases hStop

/-- The recorded bytes begin the data file on both disks. -/
theorem Layout.Grows.readBytes {l : Layout} {d d' : Disk} (h : l.Grows d d') {doc : Document}
    (hLoad : Document.load d l.metadata = .ok doc) {data : List UInt8}
    (hData : d.readBytes l.data = .ok data) : ∃ data', d'.readBytes l.data = .ok data' ∧
      data'.take doc.dataLength = data.take doc.dataLength := by
  unfold Disk.readBytes at hData ⊢
  cases hFind : d.find l.data with
  | error e => simp [hFind] at hData
  | ok id =>
      obtain ⟨hFind', hSame⟩ := (h doc hLoad).2 id hFind
      rw [hFind] at hData
      rw [hFind']
      dsimp only at hData ⊢
      split at hData
      · next bytes hNode =>
          cases hData
          rw [hNode] at hSame
          obtain ⟨node, hNode', hTake⟩ := Option.map_eq_some_iff.1 hSame
          cases node with
          | directory => cases hTake
          | file bytes' =>
              rw [hNode']
              exact ⟨bytes', rfl, Node.file.inj hTake⟩
      · cases hData

namespace Archive

/-! ## Sittings -/

/-- A program works on an archive, and stops. -/
structure Sitting where
  environment : Environment
  settings : Settings
  sync : Bool
  commands : List Command
  /-- The number of changes to the disk that are made as a whole. -/
  stop : Nat
  /-- How many bytes the next change has written, if it is a write that was begun. -/
  part : Option Nat

/-- The machine after the sitting, if the program does not stop before. -/
def Sitting.left (x : Sitting) (l : Layout) (d : Disk) : Machine :=
  match openForWrite l x.settings x.sync (.start x.environment d) with
  | .ok a m => (afterRun x.commands a m).2
  | .error _ m => m

/-- What is changed on the disk in a sitting. -/
def Sitting.changes (x : Sitting) (l : Layout) (d : Disk) : List Disk.Change :=
  Disk.cutTo (x.left l d).trace x.stop x.part

/-- What is changed on a disk in sittings, of which each finds what the others left. -/
def history (l : Layout) : List Sitting → Disk → List Disk.Change
  | [], _ => []
  | x :: rest, d => x.changes l d ++ history l rest (d.after (x.changes l d))

variable {l : Layout} {d d' : Disk} {m m' : Machine} {reader : Archive}

theorem Sitting.passes (hPlain : l.HasPlainNames) (h : d.ReadsBack l) {x : Sitting}
    (hKept : ∀ c ∈ x.commands, c.IsKept) : l.Passes d (x.changes l d) := by
  have hAll : Machine.Passes l (.start x.environment d) (x.left l d) := by
    have hOpen := continues_openForWrite (m := .start x.environment d) hPlain h x.settings x.sync
    have hPasses := hOpen.passes
    unfold left
    cases hResult : openForWrite l x.settings x.sync (.start x.environment d) with
    | error e m =>
        rw [hResult] at hPasses
        exact hPasses
    | ok a m =>
        rw [hResult] at hPasses
        have hWriter := (hOpen.reaches a m hResult).isWriter
        exact hPasses.trans (hWriter.run hPlain hKept).1
  obtain ⟨changes, hTrace, -, hPasses⟩ := hAll
  have hChanges : (x.left l d).trace = changes := hTrace
  rw [Sitting.changes, hChanges]
  exact hPasses.cutTo x.stop x.part

/-- A history continues the archive from each moment to the later ones. -/
theorem history_passes (hPlain : l.HasPlainNames) (h : d.ReadsBack l) {sittings : List Sitting}
    (hKept : ∀ x ∈ sittings, ∀ c ∈ x.commands, c.IsKept) : l.Passes d (history l sittings d) := by
  induction sittings generalizing d with
  | nil => exact .nil h
  | cons x rest ih =>
      have hFirst := Sitting.passes hPlain h (hKept x List.mem_cons_self)
      exact hFirst.append (ih hFirst.last fun y hy => hKept y (List.mem_cons_of_mem _ hy))

/-! ## Readers -/

/-- An archive that was opened for reading gives the same on disks that continue the
archive it was opened from. -/
theorem readBytes_of_grows (hOpen : openForRead l m = .ok reader m') (h : l.Grows m.disk d)
    (point : Savepoint) (field : String) :
    reader.readBytes d point field = reader.readBytes m.disk point field := by
  obtain ⟨rfl, -, doc, tables, file, hLoad, -, hFind, -, rfl⟩ := openForRead_eq_ok_iff.1 hOpen
  obtain ⟨-, hSame⟩ := (h doc hLoad).2 file hFind
  set arena : Arena := ⟨l.data, file, doc.dataLength, false⟩ with hArena
  have hRead : ∀ disk : Disk,
      (ofDocument l .read doc tables arena false).readBytes disk point field =
      tables.offsets.lookup point field >>= fun record => arena.readRange disk record.extent :=
    fun _ => rfl
  rw [hRead, hRead]
  cases tables.offsets.lookup point field with
  | error e => rfl
  | ok record => exact Arena.readRange_congr hSame record.extent

/-- The history of an archive is append-only, and readers are not disturbed by it.  If at
some moment of it the metadata file holds a document, at every later moment it holds one
that begins with its savepoints, entries and fields and records no fewer bytes, the data
file begins with the same recorded bytes, and an archive opened for reading in between
gives for every key what it gave at first. -/
theorem append_only {directory stem : String} (hLayout : Layout.make directory stem = .ok l)
    (hStart : d.ReadsBack l) {sittings : List Sitting}
    (hKept : ∀ x ∈ sittings, ∀ c ∈ x.commands, c.IsKept) {count count' : Nat}
    (hLe : count ≤ count') (part part' : Option Nat) :
    let before := d.stopped (history l sittings d) count part
    let later := d.stopped (history l sittings d) count' part'
    (∀ doc, Document.load before l.metadata = .ok doc →
      (∃ doc', Document.load later l.metadata = .ok doc' ∧ doc.Precedes doc') ∧
      ∀ data, before.readBytes l.data = .ok data → ∃ data', later.readBytes l.data = .ok data' ∧
        data'.take doc.dataLength = data.take doc.dataLength) ∧
    ∀ (m m' : Machine) (reader : Archive), m.disk = before → openForRead l m = .ok reader m' →
      ∀ point field, reader.readBytes later point field = reader.readBytes before point field := by
  intro before later
  have hPlain := Layout.hasPlainNames_of_make hLayout
  have hGrows : l.Grows before later :=
    (history_passes hPlain hStart hKept count part).2 count' part' hLe
  refine ⟨fun doc hLoad => ⟨(hGrows doc hLoad).1, fun data hData => ?_⟩, ?_⟩
  · exact hGrows.readBytes hLoad hData
  · intro m m' reader hDisk hOpen point field
    rw [← hDisk] at hGrows ⊢
    exact readBytes_of_grows hOpen hGrows point field

namespace Sample

/-- The archive is created. -/
def creation : Sitting :=
  ⟨Session.Sample.start.environment, Session.Sample.settings, true, [], 16, none⟩

/-- After the creation a sitting stops before it has stored its bytes, and one stores
bytes at two savepoints. -/
def sittings : List Sitting :=
  [creation,
    ⟨Session.Sample.start.environment, Session.Sample.settings, true, [register, store], 2, some 3⟩,
    ⟨Session.Sample.start.environment, Session.Sample.settings, false,
      [register, store, .store .standard { blob with point := Session.Sample.step 1 }, .close], 16,
      none⟩]

theorem isKept_sittings : ∀ x ∈ sittings, ∀ c ∈ x.commands, c.IsKept := by
  have hRegister : register.IsKept := fun _ => by decide +kernel
  have hStore : store.IsKept := fun _ => by decide +kernel
  have hLast : (Command.store .standard { blob with point := Session.Sample.step 1 }).IsKept :=
    fun _ => by decide +kernel
  intro x hx c hc
  simp only [sittings, List.mem_cons, List.not_mem_nil, or_false] at hx
  rcases hx with rfl | rfl | rfl
  · cases hc
  · simp only [List.mem_cons, List.not_mem_nil, or_false] at hc
    rcases hc with rfl | rfl
    · exact hRegister
    · exact hStore
  · simp only [List.mem_cons, List.not_mem_nil, or_false] at hc
    rcases hc with rfl | rfl | rfl | rfl
    · exact hRegister
    · exact hStore
    · exact hLast
    · trivial

theorem exists_short_create : ∃ a m, create = .ok a m ∧ m.trace.length ≤ 16 := by
  decide +kernel

/-- There is a document after the first sitting, and from then on it is continued. -/
theorem append_only_sample : ∃ n doc,
    Document.load (Disk.empty.stopped (history Session.Sample.layout sittings .empty) n none)
      Session.Sample.layout.metadata = .ok doc ∧
    ∀ count part, n ≤ count → ∃ doc',
      Document.load (Disk.empty.stopped (history Session.Sample.layout sittings .empty) count part)
        Session.Sample.layout.metadata = .ok doc' ∧ doc.Precedes doc' := by
  obtain ⟨a, m, hCreate, hLength⟩ := exists_short_create
  have hPlain := Layout.hasPlainNames_of_make Session.Sample.layout_eq
  have hOpen := continues_openForWrite (m := Session.Sample.start) hPlain (Disk.readsBack_empty _)
    Session.Sample.settings true
  have hCreated : openForWrite Session.Sample.layout Session.Sample.settings true
      Session.Sample.start = .ok a m := hCreate
  have hPasses := hOpen.passes
  rw [hCreated] at hPasses
  obtain ⟨changes, hTrace, hDisk, -⟩ := hPasses
  have hChanges : m.trace = changes := hTrace
  have hAfter : m.disk = Disk.empty.after changes := hDisk
  obtain ⟨dir, doc, file, front, hPublishing⟩ := hOpen.reaches a m hCreated
  -- the creation makes all of its changes
  have hCreation : creation.changes Session.Sample.layout .empty = changes := by
    have hLeft : creation.left Session.Sample.layout .empty = m := by
      have hSame : openForWrite Session.Sample.layout creation.settings creation.sync
          (.start creation.environment .empty) = .ok a m := hCreated
      simp only [Sitting.left, hSame]
      rfl
    have hStop : m.trace.length ≤ creation.stop := by simpa [creation] using hLength
    rw [Sitting.changes, hLeft, Disk.cutTo_of_le hStop, hChanges]
  have hStopped : Disk.empty.stopped (history Session.Sample.layout sittings .empty)
      changes.length none = m.disk := by
    rw [hAfter, sittings, history, hCreation, Disk.stopped_append_right _ _ _ (Nat.le_refl _),
      Nat.sub_self]
    rfl
  have hLoad := hPublishing.disk.load
  rw [← hStopped] at hLoad
  refine ⟨changes.length, doc, hLoad, fun count part hLe => ?_⟩
  exact ((append_only Session.Sample.layout_eq (Disk.readsBack_empty _) isKept_sittings hLe none
    part).1 doc hLoad).1

end Sample
end Archive
end FieldArchive

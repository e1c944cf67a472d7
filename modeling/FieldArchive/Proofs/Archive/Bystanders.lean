import FieldArchive.Proofs.Archive.Refusing
import FieldArchive.Proofs.Sparing

/-!
# Readers beside a writer

Files are read by the place of their name and by their node, and a disk that spares all but
the files of one archive has the same node at every other place.  So whoever opens another
archive of the directory gets the same answer before, during and after, errors included, and
so does whoever reads from it.

This needs the directory to be there before.  A text with `..` may lead through a directory
that the writer has to make, to an archive that nobody found until then.
-/

namespace FieldArchive

/-! ## Answers -/

namespace Effect

variable {α β : Type} {x : Effect α} {f : α → Effect β} {m : Machine}

/-- What an action answers on a machine. -/
def answer (x : Effect α) (m : Machine) : Except Error α :=
  match x m with
  | .ok a _ => .ok a
  | .error e _ => .error e

theorem Looks.answer_eq_ok_iff (h : Looks x) {a : α} : answer x m = .ok a ↔ x m = .ok a m := by
  have hLeft := h m
  unfold answer
  cases hx : x m with
  | ok b m₁ =>
      rw [hx] at hLeft
      obtain rfl : m₁ = m := hLeft
      simp
  | error e m₁ => simp

theorem answer_ofExcept_bind (check : Except Error α) (f : α → Effect β) (m : Machine) :
    answer (ofExcept check >>= f) m = check >>= fun a => answer (f a) m := by
  cases check <;> rfl

theorem Looks.answer_bind (h : Looks x) (f : α → Effect β) :
    answer (x >>= f) m = answer x m >>= fun a => answer (f a) m := by
  cases hx : x m with
  | ok a m₁ =>
      obtain rfl := h.ok hx
      rw [answer, answer, bind_of_ok hx, hx]
      rfl
  | error e m₁ =>
      rw [answer, answer, bind_of_error hx, hx]
      rfl

end Effect

/-! ## Finding files -/

namespace Layout

variable {l r : Layout} {dir : NodeId} {d d' : Disk} {name : String} {id : NodeId}

/-- Where the text of a directory leads to a node, that of a name in it fails only if no
text like it may be given to the file system. -/
theorem locate_join_eq (hLeads : l.LeadsTo d dir) (hPlain : Path.IsPlain name) :
    d.locate (Path.join l.directory name) =
      (Disk.namesOf (Path.join l.directory name)).map fun _ => .slot ⟨dir, name⟩ := by
  obtain ⟨trail, hWalk, rfl⟩ := hLeads
  unfold Disk.locate
  cases hNames : Disk.namesOf (Path.join l.directory name) with
  | error e => rfl
  | ok names =>
      obtain rfl := Disk.eq_names_of_namesOf hNames
      simp only [Path.names_join hPlain, targetOf_concat hPlain, hWalk, Except.map]

namespace Spares

variable (h : l.Spares d d') (hLeads : l.LeadsTo d dir) (hPlain : Path.IsPlain name)
  (hName : name ∉ l.fileNames)

include h hLeads hPlain hName

/-- The name of no file of the archive leads where it led, and finds the same node there. -/
theorem find_eq : d'.find (Path.join l.directory name) = d.find (Path.join l.directory name) ∧
    ∀ id, d.find (Path.join l.directory name) = .ok id → d'.nodes[id]? = d.nodes[id]? := by
  have hSame : Disk.SameAt d d' ⟨dir, name⟩ := h.sameAt hLeads fun hOwn => hName hOwn.2
  have hNode : ∀ id, d.entries.get? ⟨dir, name⟩ = some id → d'.nodes[id]? = d.nodes[id]? := by
    intro id hEntry
    have hNodes := hSame.node
    rwa [Disk.nodeAt?, Disk.nodeAt?, hSame.entry, hEntry, Option.bind_some, Option.bind_some]
      at hNodes
  constructor
  · have hLookup : d'.lookup ⟨dir, name⟩ = d.lookup ⟨dir, name⟩ := by
      simp only [Disk.lookup, hSame.entry]
    unfold Disk.find
    rw [locate_join_eq hLeads hPlain, locate_join_eq (hLeads.mono h.directories) hPlain]
    cases Disk.namesOf (Path.join l.directory name) with
    | error e => rfl
    | ok names =>
        simp only [Except.map, hLookup]
        cases hFound : d.lookup ⟨dir, name⟩ with
        | error e => rfl
        | ok id => simp only [hNode id (Disk.entry_of_lookup hFound)]
  · intro id hFind
    obtain ⟨-, dir', hLeads', hEntry⟩ := (l.find_join_ok_iff hPlain).1 hFind
    obtain rfl := hLeads.unique hLeads'
    exact hNode id hEntry

theorem exists?_eq :
    d'.exists? (Path.join l.directory name) = d.exists? (Path.join l.directory name) := by
  rw [Disk.exists?, Disk.exists?, (h.find_eq hLeads hPlain hName).1]

theorem readBytes_eq :
    d'.readBytes (Path.join l.directory name) = d.readBytes (Path.join l.directory name) := by
  obtain ⟨hFind, hNode⟩ := h.find_eq hLeads hPlain hName
  unfold Disk.readBytes
  rw [hFind]
  cases hFound : d.find (Path.join l.directory name) with
  | error e => rfl
  | ok id => simp only [hNode id hFound]

theorem load_eq : Document.load d' (Path.join l.directory name) =
    Document.load d (Path.join l.directory name) := by
  unfold Document.load Disk.readText
  rw [h.readBytes_eq hLeads hPlain hName]

end Spares

/-- A file of another archive of the directory keeps its bytes. -/
theorem Spares.readBytes_of_mem (h : l.Spares d d') (hBeside : l.IsBeside r) {path : String}
    (hPath : path ∈ r.paths) {bytes : List UInt8} (hRead : d.readBytes path = .ok bytes) :
    d'.readBytes path = .ok bytes := by
  rw [paths_eq, List.mem_map] at hPath
  obtain ⟨name, hName, rfl⟩ := hPath
  have hPlain := hBeside.plain.isPlain hName
  obtain ⟨-, dir, id, hLeads, -⟩ := readBytes_join_ok hPlain hRead
  rw [hBeside.directory] at hRead ⊢
  rw [h.readBytes_eq (hBeside.leadsTo_iff.1 hLeads) hPlain (not_mem_fileNames hBeside.stem hName),
    hRead]

end Layout

/-! ## Archives -/

theorem Arena.answer_openRead (path : String) (valid : Nat) (m : Machine) :
    Effect.answer (openRead path valid) m =
      match m.disk.find path with
      | .error .notFound => .error (.archiveNotFound path)
      | .error e => .error (.io e)
      | .ok file => checkPhysical path (m.disk.size file) valid >>= fun _ =>
          .ok ⟨path, file, valid, false⟩ := by
  show Effect.answer (match m.disk.find path with
    | .error .notFound => throw (.archiveNotFound path)
    | .error e => throw (.io e)
    | .ok file => get >>= fun m => Effect.ofExcept (checkPhysical path (m.disk.size file) valid) >>=
        fun _ => pure ⟨path, file, valid, false⟩ : Effect Arena) m = _
  cases m.disk.find path with
  | ok file => exact Effect.answer_ofExcept_bind _ _ m
  | error e => cases e <;> rfl

namespace Archive

variable {l r : Layout} {dir : NodeId} {m m' : Machine} {a : Archive}

theorem answer_openForRead (r : Layout) (m : Machine) :
    Effect.answer (openForRead r) m = (do
      r.checkReadable m.disk
      let doc ← Document.load m.disk r.metadata
      let tables ← doc.tables
      let arena ← Effect.answer (Arena.openRead r.data doc.dataLength) m
      return ofDocument r .read doc tables arena false) := by
  refine (Effect.answer_ofExcept_bind _ _ m).trans (bind_congr fun _ => ?_)
  refine (Effect.answer_ofExcept_bind _ _ m).trans (bind_congr fun doc => ?_)
  refine (Effect.answer_ofExcept_bind _ _ m).trans (bind_congr fun tables => ?_)
  exact (Arena.looks_openRead _ _).answer_bind _

/-- The directory is there if an archive in it can be opened. -/
theorem exists_leadsTo_of_openForRead (hPlain : r.HasPlainNames)
    (hOpen : openForRead r m = .ok a m') : ∃ dir, r.LeadsTo m.disk dir := by
  obtain ⟨-, -, doc, tables, file, -, -, hFind, -⟩ := openForRead_eq_ok_iff.1 hOpen
  obtain ⟨-, dir, hLeads, -⟩ := (r.find_join_ok_iff hPlain.data).1 hFind
  exact ⟨dir, hLeads⟩

/-- Reading looks at no more of a disk than the node of the data file. -/
theorem readBytes_congr {d d' : Disk}
    (h : ∀ arena, a.arena = some arena → d'.nodes[arena.file]? = d.nodes[arena.file]?)
    (point : Savepoint) (name : String) : a.readBytes d' point name = a.readBytes d point name := by
  unfold readBytes
  cases hMode : a.requireMode .read .readField with
  | error e => rfl
  | ok arena =>
      have hNode := h arena (requireMode_eq_ok_iff.1 hMode).2
      have hRange : ∀ extent, arena.readRange d' extent = arena.readRange d extent := by
        intro extent
        simp only [Arena.readRange, Disk.readRange, hNode]
      show (a.tables.offsets.lookup point name >>= fun record =>
        arena.readRange d' record.extent) = _
      simp only [hRange]
      rfl

section Spared

variable (h : l.Spares m.disk m'.disk) (hLeads : l.LeadsTo m.disk dir) (hBeside : l.IsBeside r)

include h hLeads hBeside

/-- The data file of another archive is the same file, and has the same node. -/
theorem find_data_eq : m'.disk.find r.data = m.disk.find r.data ∧
    ∀ id, m.disk.find r.data = .ok id → m'.disk.nodes[id]? = m.disk.nodes[id]? := by
  rw [show r.data = Path.join l.directory r.dataName from hBeside.directory ▸ rfl]
  exact h.find_eq hLeads hBeside.plain.data
    (Layout.not_mem_fileNames hBeside.stem r.mem_fileNames_data)

/-- Opening another archive of the directory for reading has the same answer. -/
theorem answer_openForRead_eq :
    Effect.answer (openForRead r) m' = Effect.answer (openForRead r) m := by
  have hName := Layout.not_mem_fileNames hBeside.stem r.mem_fileNames_metadata
  have hMetadata : m'.disk.exists? r.metadata = m.disk.exists? r.metadata ∧
      Document.load m'.disk r.metadata = Document.load m.disk r.metadata := by
    rw [show r.metadata = Path.join l.directory r.metadataName from hBeside.directory ▸ rfl]
    exact ⟨h.exists?_eq hLeads hBeside.plain.metadata hName,
      h.load_eq hLeads hBeside.plain.metadata hName⟩
  obtain ⟨hFind, hNode⟩ := find_data_eq h hLeads hBeside
  have hData : m'.disk.exists? r.data = m.disk.exists? r.data := by
    rw [Disk.exists?, Disk.exists?, hFind]
  have hReadable : r.checkReadable m'.disk = r.checkReadable m.disk := by
    rw [Layout.checkReadable, Layout.checkReadable, hMetadata.1, hData]
  have hArena : ∀ valid, Effect.answer (Arena.openRead r.data valid) m' =
      Effect.answer (Arena.openRead r.data valid) m := by
    intro valid
    rw [Arena.answer_openRead, Arena.answer_openRead, hFind]
    cases hFound : m.disk.find r.data with
    | error e => cases e <;> rfl
    | ok file => simp only [Disk.size, hNode file hFound]
  rw [answer_openForRead, answer_openForRead, hReadable, hMetadata.2]
  simp only [hArena]

/-- Whoever has another archive of the directory open reads the same bytes from it. -/
theorem readBytes_eq_of_openForRead (hOpen : openForRead r m = .ok a m) (point : Savepoint)
    (name : String) : a.readBytes m'.disk point name = a.readBytes m.disk point name := by
  obtain ⟨-, -, doc, tables, file, -, -, hFind, -, rfl⟩ := openForRead_eq_ok_iff.1 hOpen
  refine readBytes_congr ?_ point name
  rintro _ ⟨⟩
  exact (find_data_eq h hLeads hBeside).2 file hFind

end Spared
end Archive
end FieldArchive

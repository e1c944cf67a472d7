import FieldArchive.Proofs.Archive.Coherence
import FieldArchive.Proofs.Directories

/-!
# Archives that grow

A disk grows for an archive if whatever document its metadata file holds is followed
by one that continues it, while the bytes that the document vouches for stay where
they are.  Nothing is asked of a disk without such a document, so that creating an
archive is growing too.

`Layout.Passes` says of changes to a disk that the disks at which a program can stop
between or inside them grow one after the other; `Machine.Passes` says it of a stretch
of calls.  Stretches compose, and so do programs that run one after the other.
-/

namespace FieldArchive

/-! ## Documents -/

namespace Document

/-- The bytes of a metadata file hold a document. -/
structure IsOf (bytes : List UInt8) (doc : Document) : Prop where
  text : ∃ text, String.fromUTF8? ⟨bytes.toArray⟩ = some text ∧ parse? text = some doc
  version : doc.formatVersion = currentVersion

/-- The second document continues the first: no savepoint, entry, field or recorded byte
is missing or in another place.  Metainfo of fields may differ. -/
structure Precedes (doc later : Document) : Prop where
  savepoints : doc.savepoints <+: later.savepoints
  offsets : doc.offsets <+: later.offsets
  fields : doc.fields.map FieldInfo.bare <+: later.fields.map FieldInfo.bare
  dataLength : doc.dataLength ≤ later.dataLength

variable {doc doc' doc'' : Document} {bytes : List UInt8} {d : Disk} {path : String}

theorem IsOf.unique (h : doc.IsOf bytes) (h' : doc'.IsOf bytes) : doc = doc' := by
  obtain ⟨text, hText, hParse⟩ := h.text
  obtain ⟨text', hText', hParse'⟩ := h'.text
  obtain rfl := Option.some.inj (hText.symm.trans hText')
  exact Option.some.inj (hParse.symm.trans hParse')

/-- A metadata file is loaded if and only if its bytes hold a document. -/
theorem load_eq_ok_iff :
    load d path = .ok doc ↔ ∃ bytes, d.readBytes path = .ok bytes ∧ doc.IsOf bytes := by
  constructor
  · intro h
    unfold load Disk.readText at h
    cases hBytes : d.readBytes path with
    | error e => simp [hBytes] at h
    | ok bytes =>
        simp only [hBytes] at h
        cases hText : String.fromUTF8? ⟨bytes.toArray⟩ with
        | none => simp [hText] at h
        | some text =>
            simp only [hText] at h
            cases hParse : parse? text with
            | none => simp [hParse] at h
            | some read =>
                simp only [hParse] at h
                split at h
                · cases h
                · next hVersion =>
                    cases h
                    exact ⟨bytes, rfl, ⟨text, hText, hParse⟩, by simpa using hVersion⟩
  · rintro ⟨bytes, hBytes, ⟨text, hText, hParse⟩, hVersion⟩
    simp [load, Disk.readText, hBytes, hText, hParse, hVersion]

/-- The text of a document holds the document, if its numbers and its metainfo are
given back. -/
theorem isOf_text (hBounded : doc.IsBounded) (hReads : doc.readsBack = true)
    (hVersion : doc.formatVersion = currentVersion) : doc.IsOf (Disk.textBytes doc.text) where
  text := ⟨doc.text, Disk.fromUTF8?_textBytes _, by
    rw [parse?_text hBounded, reread?_of_readsBack hReads]⟩
  version := hVersion

theorem IsOf.dataLength_lt (h : doc.IsOf bytes) : doc.dataLength < wordBound := by
  obtain ⟨text, -, hParse⟩ := h.text
  exact dataLength_lt_of_parse? hParse

theorem Precedes.refl (doc : Document) : doc.Precedes doc :=
  ⟨List.prefix_refl _, List.prefix_refl _, List.prefix_refl _, Nat.le_refl _⟩

theorem Precedes.trans (h : doc.Precedes doc') (h' : doc'.Precedes doc'') : doc.Precedes doc'' :=
  ⟨h.savepoints.trans h'.savepoints, h.offsets.trans h'.offsets, h.fields.trans h'.fields,
    h.dataLength.trans h'.dataLength⟩

end Document

/-- A node with the first bytes of its contents. -/
def Node.take (count : Nat) : Node → Node
  | .file bytes => .file (bytes.take count)
  | .directory => .directory

theorem Node.take_take {count more : Nat} (h : count ≤ more) (node : Node) :
    (node.take more).take count = node.take count := by
  cases node with
  | directory => rfl
  | file bytes => simp [take, List.take_take, Nat.min_eq_left h]

/-! ## Disks -/

/-- Under the name of a metadata file the directories of a well-formed disk hold only
documents whose metainfo is given back. -/
structure Disk.ReadsBack (l : Layout) (d : Disk) : Prop where
  wellFormed : d.WellFormed
  readsBack : ∀ dir bytes (doc : Document), d.nodeAt? (l.metadataSlot dir) = some (.file bytes) →
    doc.IsOf bytes → doc.readsBack = true

/-- The archive on the second disk continues that on the first, if there is one. -/
def Layout.Grows (l : Layout) (d d' : Disk) : Prop :=
  ∀ doc, Document.load d l.metadata = .ok doc →
    (∃ doc', Document.load d' l.metadata = .ok doc' ∧ doc.Precedes doc') ∧
    ∀ id, d.find l.data = .ok id → d'.find l.data = .ok id ∧
      (d'.nodes[id]?).map (Node.take doc.dataLength) =
        (d.nodes[id]?).map (Node.take doc.dataLength)

variable {l : Layout} {dir : NodeId} {d d' d'' : Disk} {m m' m'' : Machine} {P Q : Disk → Prop}
  {changes front back : List Disk.Change}

theorem Disk.readsBack_empty (l : Layout) : Disk.empty.ReadsBack l := by
  refine ⟨Disk.wellFormed_empty, fun dir bytes doc hNode _ => ?_⟩
  cases hNode

theorem Disk.ReadsBack.of_nodeAt? (h : d.ReadsBack l) (hWell : d'.WellFormed)
    (hSame : ∀ dir, d'.nodeAt? (l.metadataSlot dir) = d.nodeAt? (l.metadataSlot dir)) :
    d'.ReadsBack l :=
  ⟨hWell, fun dir bytes doc hNode hDoc => h.readsBack dir bytes doc (hSame dir ▸ hNode) hDoc⟩

/-- A new directory holds no metadata. -/
theorem Disk.ReadsBack.addDirectory (h : d.ReadsBack l) (slot : Slot) :
    (d.addNode slot .directory).ReadsBack l := by
  refine ⟨h.wellFormed.addNode _ _, fun dir bytes doc hNode hDoc => ?_⟩
  rw [Disk.nodeAt?_addNode h.wellFormed] at hNode
  split at hNode
  · cases hNode
  · exact h.readsBack dir bytes doc hNode hDoc

theorem Disk.ReadsBack.makeEmpty (h : d.ReadsBack l) {slot : Slot}
    (hName : slot.name ≠ l.metadataName) : (d.apply (.makeEmpty slot)).ReadsBack l := by
  refine h.of_nodeAt? (h.wellFormed.makeEmpty slot) fun dir => ?_
  refine Disk.nodeAt?_makeEmpty_ne h.wellFormed ?_
  rintro rfl
  exact hName rfl

theorem Disk.ReadsBack.edit (h : d.ReadsBack l) {slot : Slot} {node : NodeId}
    {bytes : List UInt8} (hFile : d.HasFile slot node bytes) (hName : slot.name ≠ l.metadataName)
    (f : List UInt8 → List UInt8) : (d.edit node f).ReadsBack l := by
  refine h.of_nodeAt? (h.wellFormed.edit _ _) fun dir => ?_
  refine Disk.nodeAt?_edit_ne h.wellFormed hFile ?_ f
  rintro rfl
  exact hName rfl

/-- The document that takes the place of another one is given back too. -/
theorem Disk.ReadsBack.rename (h : d.ReadsBack l) {node : NodeId} {bytes : List UInt8}
    {doc : Document} (hFile : d.HasFile (l.temporarySlot dir) node bytes)
    (hDoc : doc.IsOf bytes) (hReads : doc.readsBack = true) :
    (d.apply (.rename (l.temporarySlot dir) (l.metadataSlot dir))).ReadsBack l := by
  refine ⟨h.wellFormed.rename _ _, fun dir' bytes' doc' hNode hDoc' => ?_⟩
  rw [Disk.nodeAt?_rename h.wellFormed hFile.entry] at hNode
  split at hNode
  · rw [hFile.node] at hNode
    cases hNode
    rw [hDoc'.unique hDoc]
    exact hReads
  · split at hNode
    · cases hNode
    · exact h.readsBack dir' bytes' doc' hNode hDoc'

namespace Layout

theorem Grows.refl (l : Layout) (d : Disk) : l.Grows d d :=
  fun doc hLoad => ⟨⟨doc, hLoad, .refl doc⟩, fun _ hFind => ⟨hFind, rfl⟩⟩

theorem Grows.trans (h : l.Grows d d') (h' : l.Grows d' d'') : l.Grows d d'' := by
  intro doc hLoad
  obtain ⟨⟨doc', hLoad', hPrecedes⟩, hData⟩ := h doc hLoad
  obtain ⟨⟨doc'', hLoad'', hPrecedes'⟩, hData'⟩ := h' doc' hLoad'
  refine ⟨⟨doc'', hLoad'', hPrecedes.trans hPrecedes'⟩, fun id hFind => ?_⟩
  obtain ⟨hFind', hSame⟩ := hData id hFind
  obtain ⟨hFind'', hSame'⟩ := hData' id hFind'
  refine ⟨hFind'', ?_⟩
  -- the first bytes of what both documents vouch for
  have hShort := congrArg (Option.map (Node.take doc.dataLength)) hSame'
  simp only [Option.map_map, Function.comp_def, Node.take_take hPrecedes.dataLength] at hShort
  exact hShort.trans hSame

/-- Anything may be made of a disk whose metadata file is not there. -/
theorem Grows.of_missing (h : d.exists? l.metadata = false) (d' : Disk) : l.Grows d d' := by
  intro doc hLoad
  obtain ⟨bytes, hBytes, -⟩ := Document.load_eq_ok_iff.1 hLoad
  unfold Disk.readBytes at hBytes
  unfold Disk.exists? at h
  cases hFind : d.find l.metadata with
  | error e => simp [hFind] at hBytes
  | ok id => simp [hFind, Except.isOk, Except.toBool] at h

/-- A new node in a free place changes nothing for an archive. -/
theorem Grows.addNode (hPlain : l.HasPlainNames) (hWell : d.WellFormed) {slot : Slot}
    (hFree : d.entries.get? slot = none) (node : Node) : l.Grows d (d.addNode slot node) := by
  have hDirectories := Disk.keepsDirectories_addNode hFree node
  -- the names of the archive that lead somewhere are taken, and lead there still
  have hKept : ∀ {name id}, Path.IsPlain name → d.find (Path.join l.directory name) = .ok id →
      (d.addNode slot node).find (Path.join l.directory name) = .ok id ∧
        (d.addNode slot node).nodes[id]? = d.nodes[id]? := by
    intro name id hName hFind
    obtain ⟨hAdmits, dir, hLeads, hEntry⟩ := (l.find_join_ok_iff hName).1 hFind
    have hNe : slot ≠ ⟨dir, name⟩ := by
      rintro rfl
      rw [hFree] at hEntry
      cases hEntry
    constructor
    · refine (l.find_join_ok_iff hName).2 ⟨hAdmits, dir, hLeads.mono hDirectories, ?_⟩
      simp [Disk.addNode, Index.get?_insert, hNe, hEntry]
    · exact List.getElem?_append_left (hWell.id_lt hEntry)
  intro doc hLoad
  obtain ⟨bytes, hBytes, hDoc⟩ := Document.load_eq_ok_iff.1 hLoad
  refine ⟨⟨doc, ?_, .refl doc⟩, fun id hFind => ?_⟩
  · refine Document.load_eq_ok_iff.2 ⟨bytes, ?_, hDoc⟩
    unfold Disk.readBytes at hBytes ⊢
    cases hFind : d.find l.metadata with
    | error e => simp [hFind] at hBytes
    | ok id =>
        obtain ⟨hFind', hNode⟩ := hKept hPlain.metadata hFind
        rw [hFind] at hBytes
        rw [show (d.addNode slot node).find l.metadata = .ok id from hFind']
        dsimp only at hBytes ⊢
        rw [hNode]
        exact hBytes
  · obtain ⟨hFind', hNode⟩ := hKept hPlain.data hFind
    exact ⟨hFind', by rw [hNode]⟩

/-! ## Changes -/

/-- Wherever a program stops that makes some changes to a disk, documents are given back
and the archive continues what it was at any earlier stop. -/
def Passes (l : Layout) (d : Disk) (changes : List Disk.Change) : Prop :=
  ∀ count part, (d.stopped changes count part).ReadsBack l ∧
    ∀ count' part', count ≤ count' →
      l.Grows (d.stopped changes count part) (d.stopped changes count' part')

theorem Passes.nil (h : d.ReadsBack l) : l.Passes d [] := by
  intro count part
  simp only [Disk.stopped_nil]
  exact ⟨h, fun _ _ _ => .refl l d⟩

theorem Passes.last (h : l.Passes d changes) : (d.after changes).ReadsBack l := by
  rw [← Disk.stopped_length]
  exact (h changes.length none).1

theorem Passes.append (h : l.Passes d front) (h' : l.Passes (d.after front) back) :
    l.Passes d (front ++ back) := by
  -- a stop is in the front, or in the back
  have hFront : ∀ {count part}, count < front.length →
      d.stopped (front ++ back) count part = d.stopped front count part :=
    fun hLt => Disk.stopped_append_left _ _ _ hLt _
  have hBack : ∀ {count part}, front.length ≤ count →
      d.stopped (front ++ back) count part =
        (d.after front).stopped back (count - front.length) part :=
    fun hLe => Disk.stopped_append_right _ _ _ hLe _
  intro count part
  by_cases hLt : count < front.length
  · rw [hFront hLt]
    refine ⟨(h count part).1, fun count' part' hLe => ?_⟩
    by_cases hLt' : count' < front.length
    · rw [hFront hLt']
      exact (h count part).2 count' part' hLe
    · rw [hBack (by omega)]
      have hTo := (h count part).2 front.length none (by omega)
      have hFrom := (h' 0 none).2 (count' - front.length) part' (Nat.zero_le _)
      rw [Disk.stopped_length] at hTo
      exact hTo.trans hFrom
  · rw [hBack (by omega)]
    refine ⟨(h' _ part).1, fun count' part' hLe => ?_⟩
    rw [hBack (by omega)]
    exact (h' _ part).2 _ part' (by omega)

end Layout

/-! ## Calls -/

namespace Machine

/-- From the first machine to the second an archive is continued. -/
def Passes (l : Layout) (m m' : Machine) : Prop :=
  ∃ changes, m'.trace = m.trace ++ changes ∧ m'.disk = m.disk.after changes ∧
    l.Passes m.disk changes

theorem Passes.of_disk_eq (h : m.disk.ReadsBack l) (hTrace : m'.trace = m.trace)
    (hDisk : m'.disk = m.disk) : Passes l m m' :=
  ⟨[], by simp [hTrace], hDisk, .nil h⟩

theorem Passes.refl (h : m.disk.ReadsBack l) : Passes l m m := .of_disk_eq h rfl rfl

theorem Passes.tick (h : m.disk.ReadsBack l) : Passes l m m.tick := .of_disk_eq h rfl rfl

theorem Passes.last (h : Passes l m m') : m'.disk.ReadsBack l := by
  obtain ⟨changes, -, hDisk, hPasses⟩ := h
  rw [hDisk]
  exact hPasses.last

theorem Passes.trans (h : Passes l m m') (h' : Passes l m' m'') : Passes l m m'' := by
  obtain ⟨changes, hTrace, hDisk, hPasses⟩ := h
  obtain ⟨changes', hTrace', hDisk', hPasses'⟩ := h'
  refine ⟨changes ++ changes', ?_, ?_, ?_⟩
  · rw [hTrace', hTrace, List.append_assoc]
  · rw [hDisk', hDisk, Disk.after_append]
  · rw [hDisk] at hPasses'
    exact hPasses.append hPasses'

/-- One change that is made as a whole. -/
theorem Passes.record {c : Disk.Change} (hCut : ∀ count, c.cut count = none)
    (h : m.disk.ReadsBack l) (hAfter : (m.disk.apply c).ReadsBack l)
    (hGrows : l.Grows m.disk (m.disk.apply c)) : Passes l m (m.tick.record c) := by
  have hStart : ∀ part, m.disk.stopped [c] 0 part = m.disk := by
    intro part
    cases part <;> simp [Disk.stopped, Disk.after, hCut]
  have hEnd : ∀ count part, m.disk.stopped [c] (count + 1) part = m.disk.apply c := by
    intro count part
    cases part <;> simp [Disk.stopped, Disk.after]
  -- a stop is before the change or after it
  refine ⟨[c], rfl, rfl, fun count part => ?_⟩
  cases count with
  | zero =>
      rw [hStart]
      refine ⟨h, fun count' part' _ => ?_⟩
      cases count' with
      | zero =>
          rw [hStart]
          exact .refl l _
      | succ count' =>
          rw [hEnd]
          exact hGrows
  | succ count =>
      rw [hEnd]
      refine ⟨hAfter, fun count' part' hLe => ?_⟩
      cases count' with
      | zero => omega
      | succ count' =>
          rw [hEnd]
          exact .refl l _

/-- A property that fixes the archive on a disk. -/
structure Fixes (l : Layout) (P : Disk → Prop) : Prop where
  readsBack : ∀ d, P d → d.ReadsBack l
  grows : ∀ d d', P d → P d' → l.Grows d d'

theorem Proceeds.passes (h : Proceeds P m m') (hFixes : Fixes l P) : Passes l m m' := by
  obtain ⟨-, changes, hTrace, hDisk, -, hStops⟩ := h
  refine ⟨changes, hTrace, hDisk, fun count part => ⟨hFixes.readsBack _ (hStops count part), ?_⟩⟩
  intro count' part' _
  exact hFixes.grows _ _ (hStops count part) (hStops count' part')

/-- A renaming continues the archive if the new document continues the old one. -/
theorem Replaces.passes (h : Replaces l dir P Q m m') (hP : Fixes l P) (hQ : Fixes l Q)
    (hGrows : ∀ d d', P d → Q d' → l.Grows d d') : Passes l m m' := by
  obtain ⟨m₁, hTo, hFrom⟩ := h
  have hBefore := hTo.passes hP
  have hAfter := hFrom.passes hQ
  have hRename : Passes l m₁
      (m₁.tick.record (.rename (l.temporarySlot dir) (l.metadataSlot dir))) := by
    have hRenamed := hFrom.first
    exact .record (fun _ => rfl) hBefore.last (hQ.readsBack _ hRenamed)
      (hGrows _ _ hTo.last hRenamed)
  exact (hBefore.trans hRename).trans hAfter

/-! ## Actions -/

section Actions

variable {ε α β : Type} {x : EStateM ε Machine α} {f : α → EStateM ε Machine β}
  {post post' : α → Machine → Prop} {last : β → Machine → Prop}

/-- An action continues an archive, also if it fails, and reaches something if it
succeeds. -/
structure Continues (l : Layout) (m : Machine) (x : EStateM ε Machine α)
    (post : α → Machine → Prop) : Prop where
  passes : Passes l m (left (x m))
  reaches : ∀ a m', x m = .ok a m' → post a m'

theorem continues_iff : Continues l m x post ↔ Relates (Passes l) m x post :=
  ⟨fun h => ⟨h.passes, h.reaches⟩, fun h => ⟨h.related, h.reaches⟩⟩

theorem Continues.bind (h : Continues l m x post)
    (hNext : ∀ a m₁, m₁.disk.ReadsBack l → post a m₁ → Continues l m₁ (f a) last) :
    Continues l m (x >>= f) last := by
  refine continues_iff.2 ((continues_iff.1 h).bind Passes.trans fun a m₁ hPasses hPost => ?_)
  exact continues_iff.1 (hNext a m₁ hPasses.last hPost)

theorem Continues.get_bind {f : Machine → EStateM ε Machine β} (h : Continues l m (f m) last) :
    Continues l m (get >>= f) last :=
  ⟨h.passes, h.reaches⟩

theorem Continues.mono (h : Continues l m x post) (hImp : ∀ a m', post a m' → post' a m') :
    Continues l m x post' :=
  ⟨h.passes, fun a m' hDone => hImp a m' (h.reaches a m' hDone)⟩

theorem continues_pure (h : m.disk.ReadsBack l) {a : α} (hPost : post a m) :
    Continues l m (pure a : EStateM ε Machine α) post :=
  continues_iff.2 (relates_pure (.refl h) hPost)

theorem continues_throw (h : m.disk.ReadsBack l) (e : ε) :
    Continues l m (throw e : EStateM ε Machine α) post :=
  continues_iff.2 (relates_throw (.refl h) e)

theorem Continues.adaptExcept {ε' : Type} (h : Continues l m x post) (g : ε → ε') :
    Continues l m (x.adaptExcept g) post :=
  continues_iff.2 ((continues_iff.1 h).adaptExcept g)

theorem continues_ofExcept (h : m.disk.ReadsBack l) (check : Except Error α) :
    Continues l m (Effect.ofExcept check) fun a m' => check = .ok a ∧ m' = m :=
  continues_iff.2 (relates_ofExcept (.refl h) check)

theorem continues_inspect (h : m.disk.ReadsBack l) (f : Disk → Except IoError α) :
    Continues l m (inspect f) fun a m' => f m.disk = .ok a ∧ m' = m :=
  continues_iff.2 (relates_inspect (.refl h) f)

theorem continues_sync (h : m.disk.ReadsBack l) :
    Continues l m sync fun _ m' => m' = m.tick :=
  continues_iff.2 (relates_sync (.tick h))

/-- A change that is made as a whole or not at all. -/
theorem continues_commit {c : Disk.Change} (hCut : ∀ count, c.cut count = none)
    (h : m.disk.ReadsBack l) (hAfter : (m.disk.apply c).ReadsBack l)
    (hGrows : l.Grows m.disk (m.disk.apply c)) :
    Continues l m (commit c) fun _ m' => m' = m.tick.record c := by
  refine continues_iff.2 (relates_commit (.tick h) (.record hCut h hAfter hGrows) ?_)
  intro count c' hPart
  rw [hCut count] at hPart
  cases hPart

end Actions

end Machine

/-! ## Directories -/

theorem Layout.allowsDirectories_passes (hPlain : l.HasPlainNames) :
    l.AllowsDirectories (Machine.Passes l) where
  trans := Machine.Passes.trans
  last h := .refl h.last
  tick h := .tick h.last
  make h hFree _ := by
    have hReads := h.last
    exact .record (fun _ => rfl) hReads (hReads.addDirectory _)
      (.addNode hPlain hReads.wellFormed hFree .directory)

theorem Layout.continues_createDirectory (hPlain : l.HasPlainNames) (h : m.disk.ReadsBack l) :
    Machine.Continues l m l.createDirectory fun _ _ => True :=
  Machine.continues_iff.2 (relates_createDirectory (allowsDirectories_passes hPlain) (.refl h))

end FieldArchive

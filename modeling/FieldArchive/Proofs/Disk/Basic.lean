import FieldArchive.Disk.Basic
import FieldArchive.Proofs.Index
import Mathlib.Data.List.Infix

/-!
# What changes do to a disk

A disk is well-formed if its entries name nodes that are there and no file has
two names; all changes keep disks so.  The lemmas say which files a change
affects, and that it keeps what the other places hold.  A text that led to a
directory leads there as long as directories are kept (`walk_mono`).
-/

namespace FieldArchive.Disk

/-- Entries name nodes that are there, each by one name. -/
structure WellFormed (d : Disk) : Prop where
  keys : d.entries.keys.Nodup
  id_lt : ∀ {slot id}, d.entries.get? slot = some id → id < d.nodes.length
  single : ∀ {slot slot' id}, d.entries.get? slot = some id → d.entries.get? slot' = some id →
    slot = slot'

/-- A file with its contents is at a place. -/
structure HasFile (d : Disk) (slot : Slot) (id : NodeId) (bytes : List UInt8) : Prop where
  entry : d.entries.get? slot = some id
  node : d.nodes[id]? = some (.file bytes)

/-- The second disk has the directories of the first, where they were. -/
def KeepsDirectories (d d' : Disk) : Prop :=
  ∀ slot id, d.entries.get? slot = some id → d.nodes[id]? = some .directory →
    d'.entries.get? slot = some id ∧ d'.nodes[id]? = some .directory

variable {d d' : Disk} {slot slot' : Slot} {id id' : NodeId} {bytes : List UInt8}

theorem wellFormed_empty : WellFormed empty where
  keys := List.nodup_nil
  id_lt h := by cases h
  single h := by cases h

theorem KeepsDirectories.refl (d : Disk) : KeepsDirectories d d := fun _ _ h h' => ⟨h, h'⟩

theorem KeepsDirectories.trans {d'' : Disk} (h : KeepsDirectories d d')
    (h' : KeepsDirectories d' d'') : KeepsDirectories d d'' := by
  intro slot id hEntry hNode
  obtain ⟨hEntry', hNode'⟩ := h slot id hEntry hNode
  exact h' slot id hEntry' hNode'

/-! ## Walking -/

theorem entry_of_lookup (h : d.lookup slot = .ok id) : d.entries.get? slot = some id := by
  unfold lookup at h
  split at h
  · cases h
  · split at h
    · next hEntry =>
        cases h
        exact hEntry
    · cases h

theorem enter_mono (h : KeepsDirectories d d') {trail next : Trail} {name : String}
    (hEnter : d.enter trail name = .ok next) : d'.enter trail name = .ok next := by
  unfold enter at hEnter ⊢
  split at hEnter
  · rwa [if_pos ‹_›]
  · rw [if_neg ‹_›]
    split at hEnter
    · rwa [if_pos ‹_›]
    · rw [if_neg ‹_›]
      unfold lookup at hEnter ⊢
      by_cases hLong : maxNameLength < name.utf8ByteSize
      · simp [hLong] at hEnter
      · simp only [hLong, if_false] at hEnter ⊢
        cases hEntry : d.entries.get? ⟨here trail, name⟩ with
        | none => simp [hEntry] at hEnter
        | some id =>
            simp only [hEntry] at hEnter
            split at hEnter
            · next hNode =>
                obtain ⟨hEntry', hNode'⟩ := h _ id hEntry hNode
                simp only [hEntry', hNode']
                exact hEnter
            · cases hEnter

/-- Where directories are kept, names lead where they led. -/
theorem walk_mono (h : KeepsDirectories d d') {trail last : Trail} {names : List String}
    (hWalk : d.walk trail names = .ok last) : d'.walk trail names = .ok last := by
  induction names generalizing trail with
  | nil => exact hWalk
  | cons name names ih =>
      unfold walk at hWalk ⊢
      cases hEnter : d.enter trail name with
      | error e => simp [hEnter] at hWalk
      | ok next =>
          rw [hEnter] at hWalk
          rw [enter_mono h hEnter]
          exact ih hWalk

theorem eq_names_of_namesOf {text : String} {names : List String}
    (h : namesOf text = .ok names) : names = Path.names text := by
  unfold namesOf at h
  split at h
  · cases h
  · split at h
    · cases h
    · split at h
      · cases h
      · exact (Except.ok.inj h).symm

/-! ## Editing a file -/

@[simp] theorem edit_entries (d : Disk) (id : NodeId) (f : List UInt8 → List UInt8) :
    (d.edit id f).entries = d.entries := rfl

theorem edit_node (h : d.nodes[id]? = some (.file bytes)) (f : List UInt8 → List UInt8) :
    (d.edit id f).nodes[id]? = some (.file (f bytes)) := by
  simp [edit, h]

theorem edit_node_ne (h : id ≠ id') (f : List UInt8 → List UInt8) :
    (d.edit id f).nodes[id']? = d.nodes[id']? := by
  simp [edit, h]

theorem WellFormed.edit (h : d.WellFormed) (id : NodeId) (f : List UInt8 → List UInt8) :
    (d.edit id f).WellFormed where
  keys := h.keys
  id_lt hEntry := by
    simp only [Disk.edit, List.length_modify]
    exact h.id_lt hEntry
  single := h.single

theorem HasFile.edit (h : d.HasFile slot id bytes) (f : List UInt8 → List UInt8) :
    (d.edit id f).HasFile slot id (f bytes) where
  entry := h.entry
  node := edit_node h.node f

theorem HasFile.edit_ne (h : d.HasFile slot id bytes) (hNe : id' ≠ id)
    (f : List UInt8 → List UInt8) : (d.edit id' f).HasFile slot id bytes where
  entry := h.entry
  node := by rw [edit_node_ne hNe, h.node]

theorem HasFile.exists_edit (h : d.HasFile slot id bytes) (id' : NodeId)
    (f : List UInt8 → List UInt8) : ∃ bytes', (d.edit id' f).HasFile slot id bytes' := by
  by_cases hNe : id' = id
  · subst hNe
    exact ⟨f bytes, h.edit f⟩
  · exact ⟨bytes, h.edit_ne hNe f⟩

theorem keepsDirectories_edit (d : Disk) (id : NodeId) (f : List UInt8 → List UInt8) :
    KeepsDirectories d (d.edit id f) := by
  intro slot id' hEntry hNode
  refine ⟨hEntry, ?_⟩
  by_cases hSame : id = id'
  · subst hSame
    simp [edit, hNode]
  · rw [edit_node_ne hSame, hNode]

/-- Files at different places are different files. -/
theorem HasFile.id_ne (hWell : d.WellFormed) (h : d.HasFile slot id bytes)
    {bytes' : List UInt8} (h' : d.HasFile slot' id' bytes') (hNe : slot ≠ slot') : id ≠ id' := by
  rintro rfl
  exact hNe (hWell.single h.entry h'.entry)

/-! ## Adding a node -/

theorem WellFormed.addNode (h : d.WellFormed) (slot : Slot) (node : Node) :
    (d.addNode slot node).WellFormed where
  keys := Index.nodup_keys_insert h.keys slot d.nodes.length
  id_lt {slot' id} hEntry := by
    simp only [Disk.addNode, Index.get?_insert, List.length_append, List.length_singleton]
      at hEntry ⊢
    split at hEntry
    · cases hEntry
      exact Nat.lt_succ_self _
    · exact Nat.lt_succ_of_lt (h.id_lt hEntry)
  single {slot₁ slot₂ id} h₁ h₂ := by
    simp only [Disk.addNode, Index.get?_insert] at h₁ h₂
    -- the new node has a number that no entry has
    split at h₁ <;> split at h₂
    · next hSame hSame' => exact (eq_of_beq hSame).symm.trans (eq_of_beq hSame')
    · cases h₁
      exact absurd (h.id_lt h₂) (Nat.lt_irrefl _)
    · cases h₂
      exact absurd (h.id_lt h₁) (Nat.lt_irrefl _)
    · exact h.single h₁ h₂

theorem HasFile.addNode_ne (h : d.HasFile slot id bytes) (hNe : slot' ≠ slot) (node : Node) :
    (d.addNode slot' node).HasFile slot id bytes where
  entry := by simp [addNode, Index.get?_insert, hNe, h.entry]
  node := by
    have hLt : id < d.nodes.length := (List.getElem?_eq_some_iff.1 h.node).1
    simp only [addNode]
    rw [List.getElem?_append_left hLt, h.node]

theorem keepsDirectories_addNode (hFree : d.entries.get? slot = none) (node : Node) :
    KeepsDirectories d (d.addNode slot node) := by
  intro slot' id hEntry hNode
  have hNe : slot ≠ slot' := by
    rintro rfl
    rw [hFree] at hEntry
    cases hEntry
  have hLt : id < d.nodes.length := (List.getElem?_eq_some_iff.1 hNode).1
  refine ⟨by simp [addNode, Index.get?_insert, hNe, hEntry], ?_⟩
  simp only [addNode]
  rw [List.getElem?_append_left hLt, hNode]

/-! ## Emptying a file -/

theorem WellFormed.makeEmpty (h : d.WellFormed) (slot : Slot) :
    (d.apply (.makeEmpty slot)).WellFormed := by
  simp only [apply]
  split
  · exact h.edit _ _
  · exact h.addNode _ _

/-- An empty file is at the place afterwards. -/
theorem WellFormed.hasFile_makeEmpty (h : d.WellFormed)
    (hNode : d.nodeAt? slot ≠ some .directory) :
    ∃ id, (d.apply (.makeEmpty slot)).HasFile slot id [] := by
  cases hEntry : d.entries.get? slot with
  | some id =>
      have hLt := h.id_lt hEntry
      refine ⟨id, by simp [apply, hEntry], ?_⟩
      simp only [nodeAt?, hEntry, Option.bind_some, List.getElem?_eq_getElem hLt] at hNode
      cases hFile : d.nodes[id] with
      | directory => simp [hFile] at hNode
      | file bytes => simp [apply, hEntry, Disk.edit, List.getElem?_eq_getElem hLt, hFile]
  | none =>
      refine ⟨d.nodes.length, ?_, ?_⟩
      · simp [apply, hEntry, Disk.addNode, Index.get?_insert]
      · simp [apply, hEntry, Disk.addNode]

theorem HasFile.makeEmpty_ne (hWell : d.WellFormed) (h : d.HasFile slot id bytes)
    (hNe : slot' ≠ slot) : (d.apply (.makeEmpty slot')).HasFile slot id bytes := by
  simp only [apply]
  split
  · next id' hEntry =>
      refine h.edit_ne ?_ _
      rintro rfl
      exact hNe (hWell.single hEntry h.entry)
  · exact h.addNode_ne hNe _

theorem HasFile.exists_makeEmpty (hWell : d.WellFormed) (h : d.HasFile slot id bytes)
    (slot' : Slot) : ∃ bytes', (d.apply (.makeEmpty slot')).HasFile slot id bytes' := by
  by_cases hNe : slot' = slot
  · subst hNe
    refine ⟨[], ?_⟩
    simp only [apply, h.entry]
    exact h.edit _
  · exact ⟨bytes, h.makeEmpty_ne hWell hNe⟩

theorem entries_makeEmpty_ne (hNe : slot' ≠ slot) :
    (d.apply (.makeEmpty slot')).entries.get? slot = d.entries.get? slot := by
  simp only [apply]
  split
  · rfl
  · simp [addNode, Index.get?_insert, hNe]

theorem keepsDirectories_makeEmpty (d : Disk) (slot : Slot) :
    KeepsDirectories d (d.apply (.makeEmpty slot)) := by
  simp only [apply]
  split
  · exact keepsDirectories_edit d _ _
  · next hFree => exact keepsDirectories_addNode hFree _

/-! ## Renaming -/

variable {source target : Slot}

theorem WellFormed.rename (h : d.WellFormed) (source target : Slot) :
    (d.apply (.rename source target)).WellFormed := by
  simp only [apply]
  cases hSource : d.entries.get? source with
  | none => exact h
  | some id =>
      -- an entry after the renaming is the moved one, or an old one at another place
      have hEntry : ∀ {slot id'},
          ((d.entries.erase source).insert target id).get? slot = some id' →
          (target = slot ∧ id' = id) ∨ (source ≠ slot ∧ d.entries.get? slot = some id') := by
        intro slot id' hGet
        rw [Index.get?_insert] at hGet
        split at hGet
        · next hSame => exact Or.inl ⟨eq_of_beq hSame, (Option.some.inj hGet).symm⟩
        · rw [Index.get?_erase h.keys] at hGet
          split at hGet
          · cases hGet
          · next hOther => exact Or.inr ⟨by simpa using hOther, hGet⟩
      refine ⟨?_, ?_, ?_⟩
      · exact Index.nodup_keys_insert (Index.nodup_keys_erase h.keys source) target id
      · intro slot id' hGet
        rcases hEntry hGet with ⟨-, rfl⟩ | ⟨-, hOld⟩
        · exact h.id_lt hSource
        · exact h.id_lt hOld
      · intro slot slot' id' hGet hGet'
        rcases hEntry hGet with ⟨rfl, rfl⟩ | ⟨hNe, hOld⟩
        · rcases hEntry hGet' with ⟨hSame, -⟩ | ⟨hNe, hOld⟩
          · exact hSame
          · exact absurd (h.single hSource hOld) hNe
        · rcases hEntry hGet' with ⟨rfl, rfl⟩ | ⟨-, hOld'⟩
          · exact absurd (h.single hSource hOld) hNe
          · exact h.single hOld hOld'

theorem entries_rename (hWell : d.WellFormed) (hSource : d.entries.get? source = some id)
    (slot : Slot) : (d.apply (.rename source target)).entries.get? slot =
      if target = slot then some id else if source = slot then none else d.entries.get? slot := by
  simp only [apply, hSource, Index.get?_insert, Index.get?_erase hWell.keys, beq_iff_eq]

theorem nodes_rename (d : Disk) (source target : Slot) :
    (d.apply (.rename source target)).nodes = d.nodes := by
  simp only [apply]
  split <;> rfl

/-- The file goes to the target. -/
theorem HasFile.rename (hWell : d.WellFormed) (h : d.HasFile source id bytes) (target : Slot) :
    (d.apply (.rename source target)).HasFile target id bytes where
  entry := by rw [entries_rename hWell h.entry, if_pos rfl]
  node := by rw [nodes_rename, h.node]

theorem HasFile.rename_ne (hWell : d.WellFormed) (hSource : d.entries.get? source = some id')
    (h : d.HasFile slot id bytes) (hNeSource : source ≠ slot) (hNeTarget : target ≠ slot) :
    (d.apply (.rename source target)).HasFile slot id bytes where
  entry := by rw [entries_rename hWell hSource, if_neg hNeTarget, if_neg hNeSource, h.entry]
  node := by rw [nodes_rename, h.node]

theorem keepsDirectories_rename (hWell : d.WellFormed)
    (hSource : d.nodeAt? source ≠ some .directory)
    (hTarget : d.nodeAt? target ≠ some .directory) :
    KeepsDirectories d (d.apply (.rename source target)) := by
  intro slot id hEntry hNode
  have hHere : d.nodeAt? slot = some .directory := by simp [nodeAt?, hEntry, hNode]
  have hNeSource : source ≠ slot := by
    rintro rfl
    exact hSource hHere
  have hNeTarget : target ≠ slot := by
    rintro rfl
    exact hTarget hHere
  rw [nodes_rename]
  refine ⟨?_, hNode⟩
  cases hGet : d.entries.get? source with
  | none => simpa [apply, hGet] using hEntry
  | some id' => rw [entries_rename hWell hGet, if_neg hNeTarget, if_neg hNeSource, hEntry]

/-! ## Other places -/

theorem HasFile.nodeAt?_eq (h : d.HasFile slot id bytes) : d.nodeAt? slot = some (.file bytes) := by
  rw [nodeAt?, h.entry, Option.bind_some, h.node]

/-- Editing a file leaves all other places. -/
theorem nodeAt?_edit_ne (hWell : d.WellFormed) (h : d.HasFile slot' id bytes) (hNe : slot' ≠ slot)
    (f : List UInt8 → List UInt8) : (d.edit id f).nodeAt? slot = d.nodeAt? slot := by
  simp only [nodeAt?, edit_entries]
  cases hEntry : d.entries.get? slot with
  | none => rfl
  | some other =>
      have hOther : id ≠ other := by
        rintro rfl
        exact hNe (hWell.single h.entry hEntry)
      simp only [Option.bind_some, edit_node_ne hOther]

theorem nodeAt?_addNode (hWell : d.WellFormed) (slot slot' : Slot) (node : Node) :
    (d.addNode slot' node).nodeAt? slot = if slot' = slot then some node else d.nodeAt? slot := by
  simp only [nodeAt?, addNode, Index.get?_insert, beq_iff_eq]
  split
  · simp
  · cases hEntry : d.entries.get? slot with
    | none => rfl
    | some other =>
        simp only [Option.bind_some]
        exact List.getElem?_append_left (hWell.id_lt hEntry)

/-- Emptying a file leaves all other places. -/
theorem nodeAt?_makeEmpty_ne (hWell : d.WellFormed) (hNe : slot' ≠ slot) :
    (d.apply (.makeEmpty slot')).nodeAt? slot = d.nodeAt? slot := by
  simp only [apply]
  split
  · next other hOther =>
      simp only [nodeAt?, edit_entries]
      cases hEntry : d.entries.get? slot with
      | none => rfl
      | some mine =>
          have hDiffer : other ≠ mine := by
            rintro rfl
            exact hNe (hWell.single hOther hEntry)
          simp only [Option.bind_some, edit_node_ne hDiffer]
  · rw [nodeAt?_addNode hWell, if_neg hNe]

theorem nodeAt?_rename (hWell : d.WellFormed) (hSource : d.entries.get? source = some id)
    (slot : Slot) : (d.apply (.rename source target)).nodeAt? slot =
      if target = slot then d.nodes[id]? else if source = slot then none else d.nodeAt? slot := by
  rw [nodeAt?, entries_rename hWell hSource, nodes_rename]
  split
  · rfl
  · split <;> rfl

/-- The same node, with the same contents, is at a place on two disks, or none is. -/
structure SameAt (d d' : Disk) (slot : Slot) : Prop where
  entry : d'.entries.get? slot = d.entries.get? slot
  node : d'.nodeAt? slot = d.nodeAt? slot

theorem hasFile_iff : d.HasFile slot id bytes ↔
    d.entries.get? slot = some id ∧ d.nodeAt? slot = some (.file bytes) := by
  constructor
  · exact fun h => ⟨h.entry, h.nodeAt?_eq⟩
  · rintro ⟨hEntry, hNode⟩
    rw [nodeAt?, hEntry, Option.bind_some] at hNode
    exact ⟨hEntry, hNode⟩

theorem SameAt.refl (d : Disk) (slot : Slot) : SameAt d d slot := ⟨rfl, rfl⟩

theorem SameAt.trans {d'' : Disk} (h : SameAt d d' slot) (h' : SameAt d' d'' slot) :
    SameAt d d'' slot :=
  ⟨h'.entry.trans h.entry, h'.node.trans h.node⟩

theorem SameAt.hasFile_iff (h : SameAt d d' slot) :
    d'.HasFile slot id bytes ↔ d.HasFile slot id bytes := by
  rw [Disk.hasFile_iff, Disk.hasFile_iff, h.entry, h.node]

theorem sameAt_edit (hWell : d.WellFormed) (h : d.HasFile slot' id bytes) (hNe : slot' ≠ slot)
    (f : List UInt8 → List UInt8) : SameAt d (d.edit id f) slot :=
  ⟨rfl, nodeAt?_edit_ne hWell h hNe f⟩

theorem sameAt_makeEmpty (hWell : d.WellFormed) (hNe : slot' ≠ slot) :
    SameAt d (d.apply (.makeEmpty slot')) slot :=
  ⟨entries_makeEmpty_ne hNe, nodeAt?_makeEmpty_ne hWell hNe⟩

theorem sameAt_rename (hWell : d.WellFormed) (hSource : d.entries.get? source = some id)
    (hNeSource : source ≠ slot) (hNeTarget : target ≠ slot) :
    SameAt d (d.apply (.rename source target)) slot where
  entry := by rw [entries_rename hWell hSource, if_neg hNeTarget, if_neg hNeSource]
  node := by rw [nodeAt?_rename hWell hSource, if_neg hNeTarget, if_neg hNeSource]

theorem sameAt_addNode (hWell : d.WellFormed) (hNe : slot' ≠ slot) (node : Node) :
    SameAt d (d.addNode slot' node) slot where
  entry := by simp [addNode, Index.get?_insert, hNe]
  node := by rw [nodeAt?_addNode hWell, if_neg hNe]

/-! ## Contents -/

theorem size_of_file (h : d.nodes[id]? = some (.file bytes)) : d.size id = bytes.length := by
  simp only [size, h]

/-- Bytes written after a front leave the front. -/
theorem overwrite_append (front junk bytes : List UInt8) :
    overwrite (front ++ junk) front.length bytes = front ++ bytes ++ junk.drop bytes.length := by
  unfold overwrite
  cases bytes with
  | nil => simp
  | cons b bytes =>
      have hGap : front.length - (front ++ junk).length = 0 := by simp
      simp only [List.isEmpty_cons, Bool.false_eq_true, if_false, List.take_left, hGap,
        List.replicate_zero, List.append_nil, List.drop_append, List.append_assoc]
      simp

theorem overwrite_nil (bytes : List UInt8) : overwrite [] 0 bytes = bytes := by
  have h := overwrite_append [] [] bytes
  simpa using h

/-- Cutting contents leaves their front. -/
theorem resize_of_le {contents : List UInt8} {length : Nat} (h : length ≤ contents.length) :
    resize contents length = contents.take length := by
  rw [resize, Nat.sub_eq_zero_of_le h, List.replicate_zero, List.append_nil]

theorem resize_append (front junk : List UInt8) :
    resize (front ++ junk) front.length = front := by
  rw [resize_of_le (by simp), List.take_left]

end FieldArchive.Disk

import FieldArchive.Proofs.Archive.Writing

/-!
# Progress without failures

On a machine whose file system fails no more, an archive that follows a ledger can
be closed, as long as its metadata is not longer than a file can be.  What has failed
before makes no difference.
-/

namespace FieldArchive

namespace Machine

/-- The file system does not fail. -/
def IsCalm (m : Machine) : Prop := ∀ n, m.environment.fault n = none

/-- The file system does not fail from now on. -/
def StaysCalm (m : Machine) : Prop := ∀ n, m.calls ≤ n → m.environment.fault n = none

variable {m m' : Machine} {id : NodeId} {bytes : List UInt8} {text : String}

theorem IsCalm.stays (h : m.IsCalm) : m.StaysCalm := fun n _ => h n

theorem StaysCalm.commit_eq (h : m.StaysCalm) (c : Disk.Change) :
    commit c m = .ok () (m.tick.record c) := by
  simp only [commit, h m.calls (Nat.le_refl _)]

theorem StaysCalm.sync_eq (h : m.StaysCalm) : sync m = .ok () m.tick := by
  simp only [sync, h m.calls (Nat.le_refl _)]

theorem StaysCalm.tick (h : m.StaysCalm) : m.tick.StaysCalm :=
  fun n hLe => h n (Nat.le_of_succ_le hLe)

theorem StaysCalm.record (h : m.StaysCalm) (c : Disk.Change) : (m.record c).StaysCalm := h

theorem StaysCalm.openEmpty_eq (h : m.StaysCalm) {slot : Slot}
    (hSlot : m.disk.locateFile text = .ok slot)
    (hFind : (m.disk.apply (.makeEmpty slot)).find text = .ok id) :
    openEmpty text m = .ok id (m.tick.record (.makeEmpty slot)) := by
  unfold openEmpty
  rw [bind_of_ok (inspect_of_ok hSlot), bind_of_ok (h.commit_eq _)]
  exact inspect_of_ok hFind

theorem StaysCalm.write_ok (h : m.StaysCalm) (id : NodeId) {offset : Nat}
    (hLength : offset + bytes.length ≤ Disk.maxFileLength) :
    ∃ m', write id offset bytes m = .ok () m' ∧ m'.StaysCalm := by
  by_cases hNone : bytes = []
  · exact ⟨m, by simp [write, hNone]; rfl, h⟩
  · have hFits : ¬ Disk.maxFileLength < offset + bytes.length := by omega
    refine ⟨m.tick.record (.write id offset bytes), ?_, h.tick.record _⟩
    simp only [write, List.isEmpty_iff, hNone, if_false, hFits]
    exact h.commit_eq _

theorem StaysCalm.rename_eq (h : m.StaysCalm) {source target : String} {slot slot' : Slot}
    (hSource : m.disk.locateFile source = .ok slot)
    (hTarget : m.disk.locateFile target = .ok slot')
    (hEntry : m.disk.entries.get? slot = some id) :
    rename source target m = .ok () (m.tick.record (.rename slot slot')) := by
  unfold rename
  rw [bind_of_ok (inspect_of_ok (a := (slot, slot')) ?_)]
  · exact h.commit_eq _
  · simp only [hSource, hTarget, hEntry, bind, Except.bind]

end Machine

variable {l : Layout} {s : Settings} {dir : NodeId} {saved live : Ledger} {file : NodeId}
  {data : List UInt8} {m : Machine}

/-- The metadata file is replaced, unless its text is too long or a directory has
the name of the temporary file. -/
theorem Document.persist_of_staysCalm (doc : Document) (hUsable : l.IsUsable)
    (hCalm : m.StaysCalm)
    (h : m.disk.KeepsLedger l s dir saved file data) {slot : Slot}
    (hSlot : m.disk.locateFile l.temporary = .ok slot)
    (hLength : (Disk.textBytes doc.text).length ≤ Disk.maxFileLength) :
    ∃ m', doc.persist l.metadata l.temporary m = .ok () m' := by
  obtain ⟨rfl, hNode⟩ := l.locateFile_join_of_leadsTo h.leadsTo hUsable.temporary hSlot
  obtain ⟨node, hEmpty⟩ := h.wellFormed.hasFile_makeEmpty hNode
  have hOpen : Machine.openEmpty l.temporary m =
      .ok node (m.tick.record (.makeEmpty (l.temporarySlot dir))) := hCalm.openEmpty_eq hSlot
    (l.find_of_hasFile h.makeEmpty_temporary.leadsTo hUsable.temporary hEmpty)
  obtain ⟨m₂, hWrite, hCalm₂⟩ :=
    (hCalm.tick.record (.makeEmpty (l.temporarySlot dir))).write_ok node
      (by rw [Nat.zero_add]; exact hLength)
  obtain ⟨-, hFile⟩ := hasFile_of_write_ok hEmpty hWrite
  have hKeeps : m₂.tick.disk.KeepsLedger l s dir saved file data :=
    ((write_temporary (m := m.tick.record (.makeEmpty (l.temporarySlot dir)))
      (Disk.KeepsLedger.isStable l s dir saved file data) h.makeEmpty_temporary hEmpty 0 _).1 ()
      hWrite).last
  obtain ⟨metadata, _, _, _, hMetadata⟩ := hKeeps.metadata
  have hSource : m₂.tick.disk.locateFile l.temporary = .ok (l.temporarySlot dir) :=
    l.locateFile_of_hasFile hKeeps.leadsTo hUsable.temporary hFile
  have hTarget : m₂.tick.disk.locateFile l.metadata = .ok (l.metadataSlot dir) :=
    l.locateFile_of_hasFile hKeeps.leadsTo hUsable.metadata hMetadata
  have hRename := hCalm₂.tick.rename_eq hSource hTarget hFile.entry
  have hSync := (hCalm₂.tick.tick.record
    (.rename (l.temporarySlot dir) (l.metadataSlot dir))).sync_eq
  refine ⟨_, Effect.ofCall_ok.2 (Eq.trans ?_ hSync)⟩
  rw [bind_of_ok hOpen, bind_of_ok hWrite, bind_of_ok hCalm₂.sync_eq, bind_of_ok hRename]

/-- A character takes at most four bytes. -/
theorem Document.length_textBytes_le (doc : Document) :
    (Disk.textBytes doc.text).length ≤ 4 * (Json.render .pretty 0 doc.toJson).length := by
  change (Disk.textBytes (String.ofList (Json.render .pretty 0 doc.toJson))).length ≤ _
  rw [Disk.textBytes_ofList]
  induction Json.render .pretty 0 doc.toJson with
  | nil => exact Nat.zero_le _
  | cons c cs ih =>
      have hSize := c.utf8Size_le_four
      rw [List.flatMap_cons, List.length_append, String.length_utf8EncodeChar, List.length_cons]
      omega

/-- A short document fits into a file. -/
theorem Document.length_textBytes_le_max {doc : Document}
    (h : (Json.render .pretty 0 doc.toJson).length ≤ 4096) :
    (Disk.textBytes doc.text).length ≤ Disk.maxFileLength := by
  have hText := doc.length_textBytes_le
  have hMax : 4 * 4096 ≤ Disk.maxFileLength := by decide
  omega

/-- An archive can be flushed. -/
theorem Archive.FollowsLedger.flush_of_staysCalm {exact intact : Prop} {a : Archive}
    (h : FollowsLedger l s dir exact intact live saved a m) (hCalm : m.StaysCalm) {slot : Slot}
    (hSlot : m.disk.locateFile l.temporary = .ok slot)
    (hLength : ∀ n, (Disk.textBytes (a.document (m.environment.clock n)).text).length ≤
      Disk.maxFileLength) : ∃ a' m', flush (a, m) = .ok () (a', m') := by
  obtain ⟨arena, data, hArena, hWritable, -, hKeeps, -⟩ := h.arena
  have hLayout := h.layout
  have hPersist : ∀ {m₁ : Machine}, m₁.environment = m.environment → m₁.disk = m.disk →
      m₁.StaysCalm → ∃ a' m', persist (a, m₁) = .ok () (a', m') := by
    intro m₁ hWorld hDisk hCalm₁
    rw [← hDisk] at hSlot hKeeps
    rw [← hWorld] at hLength
    obtain ⟨m', hDone⟩ := Document.persist_of_staysCalm (a.document (m₁.environment.clock m₁.calls))
      h.usable hCalm₁.tick hKeeps hSlot (hLength _)
    rw [← hLayout] at hDone
    rw [persist_eq, hDone]
    exact ⟨_, m', rfl⟩
  rw [flush_eq h.mode hArena]
  by_cases hNeeds : a.needsFlush = true
  · rw [if_pos hNeeds]
    cases hSync : a.syncData with
    | false => exact hPersist rfl rfl hCalm
    | true =>
        obtain ⟨a', m', hDone⟩ : ∃ a' m', persist (a, m.tick) = .ok () (a', m') :=
          hPersist rfl rfl hCalm.tick
        have hBeside : Effect.beside arena.sync (a, m) = .ok () (a, m.tick) := by
          simp only [Effect.beside, Arena.sync, hWritable, if_true, Effect.ofCall,
            EStateM.adaptExcept, hCalm.sync_eq]
        refine ⟨a', m', ?_⟩
        rw [← hDone]
        exact bind_of_ok hBeside
  · rw [if_neg hNeeds]
    exact ⟨a, m, rfl⟩

/-- An archive can be closed. -/
theorem Archive.FollowsLedger.close_of_staysCalm {exact intact : Prop} {a : Archive}
    (h : FollowsLedger l s dir exact intact live saved a m) (hCalm : m.StaysCalm) {slot : Slot}
    (hSlot : m.disk.locateFile l.temporary = .ok slot)
    (hLength : ∀ n, (Disk.textBytes (a.document (m.environment.clock n)).text).length ≤
      Disk.maxFileLength) : ∃ a' m', close (a, m) = .ok () (a', m') := by
  obtain ⟨arena, -, hArena, -⟩ := h.arena
  have hOpen : a.isClosed = false := by simp [isClosed, hArena]
  obtain ⟨a', m', hDone⟩ := h.flush_of_staysCalm hCalm hSlot hLength
  exact ⟨{ a' with arena := none }, m', by simp [close, hOpen, hDone]⟩

end FieldArchive

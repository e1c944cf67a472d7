import FieldArchive.Arena
import FieldArchive.Proofs.Disk.Machine

/-!
# The data file as an arena

A data file is opened with some bytes, and blobs are appended to it.  A write that fails may
leave any number of its bytes behind the logical end, and the next one, which may be shorter,
covers them only in part.  So the file is not its logical contents, but begins with them.

* `Arena.Holds`: what a data file logically contains, as an invariant;
* `Arena.Holds.append_ok` and `Arena.Holds.append_error`: one append keeps it, and adds its blob
  or nothing;
* `Arena.Holds.appendAll`: so does any sequence of appends;
* `Arena.appends_exact`: lengths, offsets and ranges after such a sequence.

Which writes fail, and after how many bytes, is up to the environment of the machine.
-/

namespace FieldArchive.Arena

variable {a : Arena} {path : String} {valid : Nat} {m m' : Machine} {d : Disk}
  {original content bytes : List UInt8}

/-! ## Single calls -/

theorem create_ok (h : create path m = .ok a m') :
    ∃ file, Machine.openEmpty path m = .ok file m' ∧ a = ⟨path, file, 0, true⟩ := by
  obtain ⟨file, m₁, hOpen, hDone⟩ := bind_eq_ok h
  cases hDone
  exact ⟨file, Effect.ofWriteCall_ok.1 hOpen, rfl⟩

theorem checkPhysical_eq_ok_iff {physical : Nat} :
    checkPhysical path physical valid = .ok () ↔ valid ≤ physical := by
  unfold checkPhysical
  split
  · simpa using ‹physical < valid›
  · simpa using ‹¬ physical < valid›

/-- A data file that was opened for appending was long enough, and has been cut to the valid
bytes. -/
theorem openAppend_ok (h : openAppend path valid m = .ok a m') :
    ∃ file data, m.disk.find path = .ok file ∧ m.disk.nodes[file]? = some (.file data) ∧
      valid ≤ data.length ∧ a = ⟨path, file, valid, true⟩ ∧
      m'.disk.nodes[file]? = some (.file (data.take valid)) := by
  obtain ⟨file, m₁, hOpen, hFound⟩ := bind_eq_ok h
  have hWritable := Machine.relates_openWritable (R := fun _ _ => True) (m := m) trivial path
  obtain ⟨rfl, hFind, data, hNode⟩ := hWritable.reaches file m₁ (Effect.ofWriteCall_ok.1 hOpen)
  rw [get_bind, Disk.size_of_file hNode] at hFound
  obtain ⟨_, m₂, hCheck, hLong⟩ := bind_eq_ok hFound
  obtain ⟨hChecked, rfl⟩ := Effect.ofExcept_ok hCheck
  have hLe : valid ≤ data.length := checkPhysical_eq_ok_iff.1 hChecked
  refine ⟨file, data, hFind, hNode, hLe, ?_⟩
  split at hLong
  · -- the file is cut, and the system asked to make this durable
    obtain ⟨_, m₃, hCut, hSynced⟩ := bind_eq_ok hLong
    obtain ⟨_, m₄, hSync, hDone⟩ := bind_eq_ok hSynced
    obtain rfl := Machine.commit_ok (Effect.ofCall_ok.1 hCut)
    obtain rfl := Machine.sync_ok (Effect.ofCall_ok.1 hSync)
    cases hDone
    refine ⟨rfl, ?_⟩
    rw [← Disk.resize_of_le hLe]
    exact Disk.edit_node hNode _
  · next hShort =>
      cases hLong
      have hAll : data.length ≤ valid := by omega
      rw [List.take_of_length_le hAll]
      exact ⟨rfl, hNode⟩

/-- Appending to a data file that may be written is a write at the logical end. -/
theorem append_eq (h : a.writable = true) :
    append bytes (a, m) =
      match Machine.write a.file a.length bytes m with
      | .ok _ m' => .ok a.length ({ a with length := a.length + bytes.length }, m')
      | .error e m' => .error (.io e) (a, m') := by
  simp only [append, h, Bool.not_true, Bool.false_eq_true, if_false, Effect.ofCall,
    EStateM.adaptExcept]
  cases Machine.write a.file a.length bytes m <;> rfl

theorem write_of_append_ok {a' : Arena} {offset : Nat}
    (h : append bytes (a, m) = .ok offset (a', m')) :
    Machine.write a.file a.length bytes m = .ok () m' := by
  simp only [append] at h
  split at h
  · cases h
  · split at h
    · next hCall =>
        cases h
        exact Effect.ofCall_ok.1 hCall
    · cases h

/-! ## Reading -/

/-- A range within the logical length is read from a data file that is as long. -/
theorem readRange_of_le {data : List UInt8} {extent : Extent}
    (hNode : d.nodes[a.file]? = some (.file data)) (hLong : a.length ≤ data.length)
    (hWord : extent.offset + extent.length < wordBound)
    (hLe : extent.offset + extent.length ≤ a.length) :
    a.readRange d extent = .ok ((data.drop extent.offset).take extent.length) := by
  have hStop : extent.stop? = some (extent.offset + extent.length) := by
    simp only [Extent.stop?, hWord, if_true]
  have hInside : ¬ a.length < extent.offset + extent.length := by omega
  have hLength : ((data.drop extent.offset).take extent.length).length = extent.length := by
    rw [List.length_take, List.length_drop]
    omega
  have hRead : d.readRange a.file extent.offset extent.length =
      .ok ((data.drop extent.offset).take extent.length) := by
    by_cases hEmpty : extent.length = 0
    · simp only [Disk.readRange, hEmpty, if_true, List.take_zero]
    · simp only [Disk.readRange, hEmpty, if_false, hNode, hLength, if_true]
  simp only [readRange, hStop, hInside, if_false, hRead]

/-- What is behind the contents in the file does not show in a range of them. -/
theorem readRange_of_append {junk : List UInt8} {extent : Extent}
    (hNode : d.nodes[a.file]? = some (.file (content ++ junk)))
    (hLength : a.length = content.length) (hWord : content.length < wordBound)
    (hLe : extent.offset + extent.length ≤ content.length) :
    a.readRange d extent = .ok ((content.drop extent.offset).take extent.length) := by
  have hLong : a.length ≤ (content ++ junk).length := by
    rw [hLength, List.length_append]
    omega
  have hInside : extent.length ≤ (content.drop extent.offset).length := by
    rw [List.length_drop]
    omega
  rw [readRange_of_le hNode hLong (by omega) (by omega),
    List.drop_append_of_le_length (by omega), List.take_append_of_le_length hInside]

/-- A range that ends behind the logical length is refused, whatever the file holds there. -/
theorem readRange_of_lt (d : Disk) {extent : Extent}
    (h : a.length < extent.offset + extent.length) :
    a.readRange d extent = .error (.corruptMetadata
      (if extent.offset + extent.length < wordBound then .outsideData extent a.path a.length
        else .overflowingRange extent)) := by
  unfold readRange Extent.stop?
  by_cases hWord : extent.offset + extent.length < wordBound
  · simp only [hWord, if_true, h]
  · simp only [hWord, if_false]

/-! ## Logical contents -/

/-- A data file that may be written holds some contents: it begins with them, and its logical
length is theirs. -/
structure Holds (a : Arena) (d : Disk) (content : List UInt8) : Prop where
  writable : a.writable = true
  length_eq : a.length = content.length
  length_lt : content.length < wordBound
  data : ∃ junk, d.nodes[a.file]? = some (.file (content ++ junk))

/-- The file is at least as long as its logical contents, which it begins with. -/
theorem Holds.exists_data (h : a.Holds d content) :
    ∃ data, d.nodes[a.file]? = some (.file data) ∧ a.length ≤ data.length ∧
      data.take a.length = content := by
  obtain ⟨junk, hNode⟩ := h.data
  refine ⟨content ++ junk, hNode, ?_, ?_⟩
  · rw [h.length_eq, List.length_append]
    omega
  · rw [h.length_eq, List.take_left]

theorem Holds.readRange_eq (h : a.Holds d content) {extent : Extent}
    (hLe : extent.offset + extent.length ≤ a.length) :
    a.readRange d extent = .ok ((content.drop extent.offset).take extent.length) := by
  obtain ⟨junk, hNode⟩ := h.data
  rw [h.length_eq] at hLe
  exact readRange_of_append hNode h.length_eq h.length_lt hLe

/-- Bytes that are written at the logical end stand behind the contents, before what is left of
earlier writes. -/
theorem Holds.write (h : a.Holds d content) (part : List UInt8) :
    ∃ junk, (d.apply (.write a.file a.length part)).nodes[a.file]? =
      some (.file (content ++ part ++ junk)) := by
  obtain ⟨junk, hNode⟩ := h.data
  refine ⟨junk.drop part.length, ?_⟩
  rw [h.length_eq, ← Disk.overwrite_append]
  exact Disk.edit_node hNode _

/-- An append that fails adds nothing, wherever its write stopped. -/
theorem Holds.append_error (h : a.Holds m.disk content) {e : Error} {state : Arena × Machine}
    (hError : append bytes (a, m) = .error e state) :
    state.1 = a ∧ a.Holds state.2.disk content := by
  rw [append_eq h.writable] at hError
  split at hError
  · cases hError
  · next hWrite =>
      cases hError
      refine ⟨rfl, h.writable, h.length_eq, h.length_lt, ?_⟩
      -- nothing was written, or a part of the bytes that now stands behind the logical end
      rcases Machine.write_error hWrite with rfl | rfl | ⟨count, rfl⟩
      · exact h.data
      · exact h.data
      · obtain ⟨junk, hNode⟩ := h.write (bytes.take count)
        rw [List.append_assoc] at hNode
        exact ⟨_, hNode⟩

/-- An append that succeeds adds its bytes, and returns where they begin. -/
theorem Holds.append_ok (h : a.Holds m.disk content) {offset : Nat} {state : Arena × Machine}
    (hOk : append bytes (a, m) = .ok offset state) :
    offset = content.length ∧ state.1 = { a with length := a.length + bytes.length } ∧
      state.1.Holds state.2.disk (content ++ bytes) := by
  rw [append_eq h.writable] at hOk
  split at hOk
  · next hWrite =>
      cases hOk
      have hLength : a.length + bytes.length = (content ++ bytes).length := by
        rw [List.length_append, h.length_eq]
      have hBound : Disk.maxFileLength < wordBound := by decide
      refine ⟨h.length_eq, rfl, ?_⟩
      rcases Machine.write_ok hWrite with ⟨rfl, rfl⟩ | ⟨hFits, rfl⟩
      · rw [List.append_nil]
        exact h
      · have hLt : (content ++ bytes).length < wordBound := by omega
        exact ⟨h.writable, hLength, hLt, h.write bytes⟩
  · cases hOk

/-! ## Sequences of appends -/

/-- Append blobs one after the other, whether or not those before succeed.  The result has each
blob with its answer. -/
def appendAll : List (List UInt8) → Arena × Machine →
    List (List UInt8 × Except Error Nat) × (Arena × Machine)
  | [], state => ([], state)
  | blob :: rest, state =>
      match append blob state with
      | .ok offset next =>
          ((blob, .ok offset) :: (appendAll rest next).1, (appendAll rest next).2)
      | .error e next =>
          ((blob, .error e) :: (appendAll rest next).1, (appendAll rest next).2)

/-- The blobs whose append succeeded. -/
def stored : List (List UInt8 × Except Error Nat) → List (List UInt8)
  | [] => []
  | (blob, .ok _) :: calls => blob :: stored calls
  | (_, .error _) :: calls => stored calls

theorem stored_append (front back : List (List UInt8 × Except Error Nat)) :
    stored (front ++ back) = stored front ++ stored back := by
  induction front with
  | nil => rfl
  | cons call front ih =>
      obtain ⟨blob, offset | e⟩ := call
      all_goals simp [stored, ih]

/-- Every blob that was stored begins where the bytes before it end. -/
def Placed : Nat → List (List UInt8 × Except Error Nat) → Prop
  | _, [] => True
  | start, (blob, .ok offset) :: calls => offset = start ∧ Placed (start + blob.length) calls
  | start, (_, .error _) :: calls => Placed start calls

theorem Placed.offset_eq {start : Nat} {front back : List (List UInt8 × Except Error Nat)}
    {blob : List UInt8} {offset : Nat} (h : Placed start (front ++ (blob, .ok offset) :: back)) :
    offset = start + (stored front).flatten.length := by
  induction front generalizing start with
  | nil => exact h.1
  | cons call front ih =>
      obtain ⟨earlier, e | n⟩ := call
      · exact ih h
      · have hLater := ih h.2
        simp only [stored, List.flatten_cons, List.length_append]
        omega

/-- Appends add the blobs that they store, each where the bytes before it end. -/
theorem Holds.appendAll (h : a.Holds m.disk content) (blobs : List (List UInt8)) :
    let last := appendAll blobs (a, m)
    last.1.map Prod.fst = blobs ∧ Placed content.length last.1 ∧
      last.2.1.path = a.path ∧ last.2.1.file = a.file ∧
      last.2.1.Holds last.2.2.disk (content ++ (stored last.1).flatten) := by
  -- the other blobs are appended to the contents that the first one leaves
  induction blobs generalizing a m content with
  | nil => exact ⟨rfl, trivial, rfl, rfl, by simpa [Arena.appendAll, stored] using h⟩
  | cons blob rest ih =>
      cases hAppend : append blob (a, m) with
      | ok offset next =>
          obtain ⟨next, m₁⟩ := next
          obtain ⟨hOffset, rfl, hNext⟩ := h.append_ok hAppend
          obtain ⟨hBlobs, hPlaced, hPath, hFile, hHolds⟩ := ih hNext
          rw [List.length_append] at hPlaced
          rw [List.append_assoc, ← List.flatten_cons] at hHolds
          simp only [Arena.appendAll, hAppend, List.map_cons, hBlobs, stored, Placed]
          exact ⟨trivial, ⟨hOffset, hPlaced⟩, hPath, hFile, hHolds⟩
      | error e next =>
          obtain ⟨next, m₁⟩ := next
          obtain ⟨rfl, hNext⟩ := h.append_error hAppend
          obtain ⟨hBlobs, hPlaced, hPath, hFile, hHolds⟩ := ih hNext
          simp only [Arena.appendAll, hAppend, List.map_cons, hBlobs, stored, Placed]
          exact ⟨trivial, hPlaced, hPath, hFile, hHolds⟩

/-! ## Data files that were opened -/

/-- A data file was opened for appending after `valid` bytes: it is new, or it was there with
these bytes and perhaps more. -/
inductive Opened (path : String) (m : Machine) (a : Arena) (m' : Machine) :
    Nat → List UInt8 → Prop
  | created (hDisk : m.disk.WellFormed) (hOpen : create path m = .ok a m') :
      Opened path m a m' 0 []
  | reopened {valid : Nat} {bytes : List UInt8} (hWord : valid < wordBound)
      (hBytes : m.disk.readBytes path = .ok bytes) (hOpen : openAppend path valid m = .ok a m') :
      Opened path m a m' valid (bytes.take valid)

/-- What is opened holds the valid bytes. -/
theorem Opened.holds (h : Opened path m a m' valid original) :
    original.length = valid ∧ a.path = path ∧ a.Holds m'.disk original := by
  cases h with
  | created hDisk hOpen =>
      obtain ⟨file, hEmpty, rfl⟩ := create_ok hOpen
      obtain ⟨slot, -, hFile, -⟩ := Machine.hasFile_of_openEmpty hDisk hEmpty
      exact ⟨rfl, rfl, rfl, rfl, by decide, [], hFile.node⟩
  | @reopened _ bytes hWord hBytes hOpen =>
      -- the bytes of the path are those of the node that was opened
      obtain ⟨file, data, hFind, hNode, hLe, rfl, hCut⟩ := openAppend_ok hOpen
      have hSame : bytes = data := by
        simp only [Disk.readBytes, hFind, hNode] at hBytes
        exact (Except.ok.inj hBytes).symm
      subst hSame
      have hLength : (bytes.take valid).length = valid := List.length_take_of_le hLe
      refine ⟨hLength, rfl, rfl, hLength.symm, by omega, [], ?_⟩
      rw [List.append_nil]
      exact hCut

/-- After any appends to a data file that was opened after `valid` bytes:

* its logical length is that of the valid bytes and of all blobs that were stored, and the file
  is at least as long;
* its first bytes are the valid ones, followed by the stored blobs in order;
* each blob that was stored stands where its append said;
* a range within the logical length is read as what stands there, and every other is refused,
  also if its end does not fit in 64 bits. -/
theorem appends_exact (h : Opened path m a m' valid original) (blobs : List (List UInt8)) :
    let calls := (appendAll blobs (a, m')).1
    let arena := (appendAll blobs (a, m')).2.1
    let disk := (appendAll blobs (a, m')).2.2.disk
    let content := original ++ (stored calls).flatten
    calls.map Prod.fst = blobs ∧
    original.length = valid ∧
    arena.length = valid + (stored calls).flatten.length ∧
    (∃ data, disk.nodes[arena.file]? = some (.file data) ∧ arena.length ≤ data.length ∧
      data.take arena.length = content) ∧
    (∀ front blob offset back, calls = front ++ (blob, .ok offset) :: back →
      offset = valid + (stored front).flatten.length ∧
      (content.drop offset).take blob.length = blob) ∧
    (∀ extent, extent.offset + extent.length ≤ arena.length →
      arena.readRange disk extent = .ok ((content.drop extent.offset).take extent.length)) ∧
    ∀ extent, arena.length < extent.offset + extent.length →
      arena.readRange disk extent = .error (.corruptMetadata
        (if extent.offset + extent.length < wordBound then .outsideData extent path arena.length
          else .overflowingRange extent)) := by
  intro calls arena disk content
  obtain ⟨hValid, hPath, hHolds⟩ := h.holds
  obtain ⟨hBlobs, hPlaced, hLastPath, -, hLast⟩ := hHolds.appendAll blobs
  refine ⟨hBlobs, hValid, ?_, hLast.exists_data, ?_, fun _ => hLast.readRange_eq, ?_⟩
  · show arena.length = _
    rw [hLast.length_eq, List.length_append, hValid]
  · intro front blob offset back hCalls
    have hPlacedIn : Placed original.length calls := hPlaced
    rw [hCalls] at hPlacedIn
    have hOffset : offset = original.length + (stored front).flatten.length := hPlacedIn.offset_eq
    -- the blob stands between the blobs that were stored before it and after it
    have hContent : content =
        (original ++ (stored front).flatten) ++ (blob ++ (stored back).flatten) := by
      show original ++ (stored calls).flatten = _
      rw [hCalls, stored_append, List.flatten_append, ← List.append_assoc]
      rfl
    constructor
    · rw [hOffset, hValid]
    · rw [hContent, hOffset, ← List.length_append, List.drop_left, List.take_left]
  · intro extent hLt
    have hArenaPath : arena.path = path := hLastPath.trans hPath
    rw [readRange_of_lt disk hLt, hArenaPath]

namespace Sample

/-- A new machine on which the write of call 2 fails after three bytes. -/
def start : Machine :=
  .start ⟨fun _ => "", fun _ => default,
    fun call => if call = 2 then some ⟨.storageFull, 3⟩ else none⟩ .empty

def opened : Arena := ⟨"a.dat", 1, 0, true⟩

/-- The machine after the data file was created. -/
def made : Machine := start.tick.record (.makeEmpty ⟨Disk.root, "a.dat"⟩)

def blobs : List (List UInt8) := [[1, 2, 3], [4, 5, 6, 7], [8], []]

theorem create_start : create "a.dat" start = .ok opened made := by rfl

theorem stored_blobs : stored (appendAll blobs (opened, made)).1 = [[1, 2, 3], [8], []] := by rfl

end Sample

open Sample in
/-- The second blob is lost, and leaves two bytes behind the third, which no range shows. -/
theorem appends_exact_sample :
    let last := appendAll blobs (opened, made)
    Opened "a.dat" start opened made 0 [] ∧
      stored last.1 = [[1, 2, 3], [8], []] ∧ last.2.1.length = 4 ∧
      last.2.2.disk.contents 1 = [1, 2, 3, 8, 5, 6] ∧
      last.2.1.readRange last.2.2.disk ⟨2, 2⟩ = .ok [3, 8] ∧
      last.2.1.readRange last.2.2.disk ⟨3, 2⟩ =
        .error (.corruptMetadata (.outsideData ⟨3, 2⟩ "a.dat" 4)) := by
  intro last
  have hOpened : Opened "a.dat" start opened made 0 [] :=
    .created Disk.wellFormed_empty create_start
  obtain ⟨-, -, hLength, -, -, hInside, hOutside⟩ := appends_exact hOpened blobs
  rw [stored_blobs] at hLength hInside
  have hFour : last.2.1.length = 4 := hLength
  refine ⟨hOpened, stored_blobs, hFour, rfl, hInside ⟨2, 2⟩ (by rw [hLength]; decide), ?_⟩
  have hRefused := hOutside ⟨3, 2⟩ (by rw [hLength]; decide)
  rw [hLength] at hRefused
  exact hRefused

end FieldArchive.Arena

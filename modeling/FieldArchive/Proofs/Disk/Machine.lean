import FieldArchive.Layout
import FieldArchive.Proofs.Disk.Locating

/-!
# Calls and where they can stop

A program that changes a disk may stop after any of its changes, and inside a
write after any of its bytes.  `Disk.stopped` is the disk that it leaves then.
`Machine.Proceeds P` says of a stretch of calls that it renames nothing and that
every disk at which it can stop has the property `P`; stretches compose.

For each call one lemma says what it has done when it succeeds and one what it
may have done when it fails.  `Machine.Relates` says it of a whole action, by what holds
between the machines before and after.
-/

namespace FieldArchive

/-! ## Sequences of actions -/

section Sequences

variable {ε σ α β : Type} {x : EStateM ε σ α} {f : α → EStateM ε σ β} {s s' : σ}

theorem bind_eq_ok {b : β} (h : (x >>= f) s = .ok b s') :
    ∃ a s₁, x s = .ok a s₁ ∧ f a s₁ = .ok b s' := by
  simp only [bind, EStateM.bind] at h
  cases hx : x s with
  | ok a s₁ =>
      rw [hx] at h
      exact ⟨a, s₁, rfl, h⟩
  | error e s₁ =>
      rw [hx] at h
      cases h

theorem bind_eq_error {e : ε} (h : (x >>= f) s = .error e s') :
    x s = .error e s' ∨ ∃ a s₁, x s = .ok a s₁ ∧ f a s₁ = .error e s' := by
  simp only [bind, EStateM.bind] at h
  cases hx : x s with
  | ok a s₁ =>
      rw [hx] at h
      exact Or.inr ⟨a, s₁, rfl, h⟩
  | error e' s₁ =>
      rw [hx] at h
      cases h
      exact Or.inl rfl

theorem bind_of_ok {a : α} {s₁ : σ} (h : x s = .ok a s₁) : (x >>= f) s = f a s₁ := by
  simp only [bind, EStateM.bind, h]

theorem bind_of_error {e : ε} {s₁ : σ} (h : x s = .error e s₁) :
    (x >>= f) s = .error e s₁ := by
  simp only [bind, EStateM.bind, h]

theorem get_bind {f : σ → EStateM ε σ β} : (get >>= f) s = f s s := rfl

/-- Whether an action has succeeded, with what is asked of it, can be decided. -/
instance decidableExistsOk {P : α → σ → Prop} [∀ a s, Decidable (P a s)] :
    (result : EStateM.Result ε σ α) → Decidable (∃ a s, result = .ok a s ∧ P a s)
  | .ok a s => decidable_of_iff (P a s)
      ⟨fun h => ⟨a, s, rfl, h⟩, fun ⟨_, _, hSame, h⟩ => by cases hSame; exact h⟩
  | .error _ _ => isFalse nofun

end Sequences

namespace Effect

variable {α : Type} {m m' : Machine}

theorem ofCall_ok {call : Machine.Call α} {a : α} :
    ofCall call m = .ok a m' ↔ call m = .ok a m' := by
  simp only [ofCall, EStateM.adaptExcept]
  cases call m <;> simp

theorem ofCall_error {call : Machine.Call α} {e : Error} (h : ofCall call m = .error e m') :
    ∃ cause, e = .io cause ∧ call m = .error cause m' := by
  simp only [ofCall, EStateM.adaptExcept] at h
  cases hCall : call m with
  | ok a m₁ =>
      rw [hCall] at h
      cases h
  | error cause m₁ =>
      rw [hCall] at h
      cases h
      exact ⟨cause, rfl, rfl⟩

theorem ofCall_of_error {call : Machine.Call α} {cause : IoError} (h : call m = .error cause m') :
    ofCall call m = .error (.io cause) m' := by
  simp only [ofCall, EStateM.adaptExcept, h]

theorem ofWriteCall_ok {path : String} {call : Machine.Call α} {a : α} :
    ofWriteCall path call m = .ok a m' ↔ call m = .ok a m' := by
  simp only [ofWriteCall, EStateM.adaptExcept]
  cases call m <;> simp

theorem ofExcept_ok {σ : Type} {check : Except Error α} {a : α} {s s' : σ}
    (h : ofExcept check s = .ok a s') : check = .ok a ∧ s' = s := by
  cases check with
  | ok b =>
      cases h
      exact ⟨rfl, rfl⟩
  | error e => cases h

theorem ofExcept_bind {σ β : Type} (check : Except Error α) (f : α → EStateM Error σ β) (s : σ) :
    (ofExcept check >>= f) s =
      match check with
      | .ok a => f a s
      | .error e => .error e s := by
  cases check <;> rfl

theorem ofExcept_error {σ : Type} {check : Except Error α} {e : Error} {s s' : σ}
    (h : ofExcept check s = .error e s') : check = .error e ∧ s' = s := by
  cases check with
  | ok b => cases h
  | error e =>
      cases h
      exact ⟨rfl, rfl⟩

end Effect

/-! ## Stops -/

namespace Disk

/-- The disk after some changes. -/
def after (d : Disk) (changes : List Change) : Disk := changes.foldl apply d

/-- The disk that a program leaves which stops after `count` of its changes, and
with `part` inside the next one after that number of bytes. -/
def stopped (d : Disk) (changes : List Change) (count : Nat) (part : Option Nat) : Disk :=
  match part.bind fun bytes => (changes[count]?).bind fun c => c.cut bytes with
  | some c => (d.after (changes.take count)).apply c
  | none => d.after (changes.take count)

/-- True for a change of names. -/
def Change.isRename : Change → Bool
  | .rename _ _ => true
  | _ => false

theorem after_append (d : Disk) (front back : List Change) :
    d.after (front ++ back) = (d.after front).after back :=
  List.foldl_append

theorem stopped_append_left (d : Disk) (front back : List Change) {count : Nat}
    (h : count < front.length) (part : Option Nat) :
    d.stopped (front ++ back) count part = d.stopped front count part := by
  simp only [stopped, List.getElem?_append_left h, List.take_append_of_le_length h.le]

theorem stopped_append_right (d : Disk) (front back : List Change) {count : Nat}
    (h : front.length ≤ count) (part : Option Nat) :
    d.stopped (front ++ back) count part =
      (d.after front).stopped back (count - front.length) part := by
  simp only [stopped, List.getElem?_append_right h, List.take_append, List.take_of_length_le h,
    after_append]

theorem stopped_nil (d : Disk) (count : Nat) (part : Option Nat) :
    d.stopped [] count part = d := by
  cases part <;> simp [stopped, after]

theorem stopped_length (d : Disk) (changes : List Change) :
    d.stopped changes changes.length none = d.after changes := by
  simp [stopped]

end Disk

namespace Machine

/-- From the first machine to the second nothing was renamed, and every disk at
which the program could stop on the way has a property. -/
def Proceeds (P : Disk → Prop) (m m' : Machine) : Prop :=
  m'.environment = m.environment ∧ ∃ changes,
    m'.trace = m.trace ++ changes ∧ m'.disk = m.disk.after changes ∧
      (∀ c ∈ changes, c.isRename = false) ∧
      ∀ count part, P (m.disk.stopped changes count part)

variable {P Q : Disk → Prop} {m m' m'' : Machine}

theorem Proceeds.first (h : Proceeds P m m') : P m.disk := by
  obtain ⟨-, changes, -, -, -, hStops⟩ := h
  exact hStops 0 none

theorem Proceeds.last (h : Proceeds P m m') : P m'.disk := by
  obtain ⟨-, changes, -, hDisk, -, hStops⟩ := h
  have hEnd := hStops changes.length none
  rwa [Disk.stopped_length, ← hDisk] at hEnd

theorem Proceeds.of_disk_eq (h : P m.disk) (hEnvironment : m'.environment = m.environment)
    (hTrace : m'.trace = m.trace) (hDisk : m'.disk = m.disk) : Proceeds P m m' := by
  refine ⟨hEnvironment, [], by simp [hTrace], hDisk, by simp, ?_⟩
  intro count part
  rwa [Disk.stopped_nil]

theorem Proceeds.refl (h : P m.disk) : Proceeds P m m := .of_disk_eq h rfl rfl rfl

theorem Proceeds.tick (h : P m.disk) : Proceeds P m m.tick := .of_disk_eq h rfl rfl rfl

theorem Proceeds.trans (h : Proceeds P m m') (h' : Proceeds P m' m'') : Proceeds P m m'' := by
  obtain ⟨hEnvironment, changes, hTrace, hDisk, hNames, hStops⟩ := h
  obtain ⟨hEnvironment', changes', hTrace', hDisk', hNames', hStops'⟩ := h'
  refine ⟨hEnvironment'.trans hEnvironment, changes ++ changes', ?_, ?_, ?_, ?_⟩
  · rw [hTrace', hTrace, List.append_assoc]
  · rw [hDisk', hDisk, Disk.after_append]
  · intro c hc
    rcases List.mem_append.1 hc with hLeft | hRight
    · exact hNames c hLeft
    · exact hNames' c hRight
  · intro count part
    by_cases hLt : count < changes.length
    · rw [Disk.stopped_append_left _ _ _ hLt]
      exact hStops count part
    · rw [Disk.stopped_append_right _ _ _ (by omega), ← hDisk]
      exact hStops' _ part

theorem Proceeds.mono (h : Proceeds P m m') (hPQ : ∀ d, P d → Q d) : Proceeds Q m m' := by
  obtain ⟨hEnvironment, changes, hTrace, hDisk, hNames, hStops⟩ := h
  exact ⟨hEnvironment, changes, hTrace, hDisk, hNames,
    fun count part => hPQ _ (hStops count part)⟩

/-- One change, of which a part may be made. -/
theorem Proceeds.record {c : Disk.Change} (hRename : c.isRename = false) (hBefore : P m.disk)
    (hAfter : P (m.disk.apply c))
    (hPart : ∀ count c', c.cut count = some c' → P (m.disk.apply c')) :
    Proceeds P m (m.tick.record c) := by
  refine ⟨rfl, [c], rfl, rfl, by simpa using hRename, ?_⟩
  intro count part
  cases count with
  | zero =>
      cases part with
      | none => exact hBefore
      | some bytes =>
          cases hCut : c.cut bytes with
          | none => simpa [Disk.stopped, hCut, Disk.after] using hBefore
          | some c' => simpa [Disk.stopped, hCut, Disk.after] using hPart bytes c' hCut
  | succ count => cases part <;> simpa [Disk.stopped, Disk.after] using hAfter

/-! ## Calls -/

variable {e : IoError} {id : NodeId} {offset : Nat} {bytes : List UInt8} {text : String}

theorem commit_ok {c : Disk.Change} (h : commit c m = .ok () m') : m' = m.tick.record c := by
  unfold commit at h
  split at h
  · cases h
    rfl
  · split at h <;> cases h

theorem commit_error {c : Disk.Change} (h : commit c m = .error e m') :
    m' = m.tick ∨ ∃ count c', c.cut count = some c' ∧ m' = m.tick.record c' := by
  unfold commit at h
  split at h
  · cases h
  · next fault _ =>
      split at h
      · next part hCut =>
          cases h
          exact Or.inr ⟨fault.kept, part, hCut, rfl⟩
      · cases h
        exact Or.inl rfl

theorem sync_ok (h : sync m = .ok () m') : m' = m.tick := by
  unfold sync at h
  split at h <;> cases h
  rfl

theorem sync_error (h : sync m = .error e m') : m' = m.tick := by
  unfold sync at h
  split at h <;> cases h
  rfl

theorem inspect_ok {α : Type} {f : Disk → Except IoError α} {a : α}
    (h : inspect f m = .ok a m') : f m.disk = .ok a ∧ m' = m := by
  unfold inspect at h
  split at h
  · cases h
    exact ⟨‹_›, rfl⟩
  · cases h

theorem inspect_error {α : Type} {f : Disk → Except IoError α}
    (h : inspect f m = .error e m') : f m.disk = .error e ∧ m' = m := by
  unfold inspect at h
  split at h
  · cases h
  · cases h
    exact ⟨‹_›, rfl⟩

theorem inspect_of_ok {α : Type} {f : Disk → Except IoError α} {a : α}
    (h : f m.disk = .ok a) : inspect f m = .ok a m := by
  simp only [inspect, h]

/-- An emptied file is found at the place at which it was located. -/
theorem openEmpty_ok (h : openEmpty text m = .ok id m') :
    ∃ slot, m.disk.locateFile text = .ok slot ∧ m' = m.tick.record (.makeEmpty slot) ∧
      m'.disk.find text = .ok id := by
  unfold openEmpty at h
  obtain ⟨slot, m₁, hLocate, hRest⟩ := bind_eq_ok h
  obtain ⟨hSlot, rfl⟩ := inspect_ok hLocate
  obtain ⟨_, m₂, hCommit, hInspect⟩ := bind_eq_ok hRest
  obtain ⟨hFind, rfl⟩ := inspect_ok hInspect
  exact ⟨slot, hSlot, commit_ok hCommit, hFind⟩

/-- A file that was opened empty is at the place to which its text leads. -/
theorem hasFile_of_openEmpty (hWell : m.disk.WellFormed)
    (hOk : openEmpty text m = .ok id m') :
    ∃ slot, m.disk.locateFile text = .ok slot ∧ m'.disk.HasFile slot id [] ∧
      m'.disk.WellFormed ∧ Disk.KeepsDirectories m.disk m'.disk := by
  obtain ⟨slot, hSlot, rfl, hFind⟩ := openEmpty_ok hOk
  have hNode := (Disk.locateFile_ok_iff.1 hSlot).2.2.2
  have hKeep := Disk.keepsDirectories_makeEmpty m.disk slot
  obtain ⟨node, hFile⟩ := hWell.hasFile_makeEmpty hNode
  have hSame := Disk.find_of_locateFile (Disk.locateFile_mono hKeep hSlot hFile.nodeAt?_ne) hFile
  obtain rfl : node = id := Except.ok.inj (hSame.symm.trans hFind)
  exact ⟨slot, hSlot, hFile, hWell.makeEmpty _, hKeep⟩

theorem openEmpty_error (h : openEmpty text m = .error e m') :
    m' = m ∨ m' = m.tick ∨
      ∃ slot, m.disk.locateFile text = .ok slot ∧ m' = m.tick.record (.makeEmpty slot) := by
  unfold openEmpty at h
  rcases bind_eq_error h with hInspect | ⟨slot, m₁, hLocate, hRest⟩
  · exact Or.inl (inspect_error hInspect).2
  · obtain ⟨hSlot, rfl⟩ := inspect_ok hLocate
    rcases bind_eq_error hRest with hCommit | ⟨_, m₂, hCommit, hInspect⟩
    · rcases commit_error hCommit with rfl | ⟨count, c', hCut, -⟩
      · exact Or.inr (Or.inl rfl)
      · cases hCut
    · obtain ⟨-, rfl⟩ := inspect_error hInspect
      exact Or.inr (Or.inr ⟨slot, hSlot, commit_ok hCommit⟩)

/-- A file that is found is opened for writing. -/
theorem openWritable_of_file (hFind : m.disk.find text = .ok id)
    (hNode : m.disk.nodes[id]? = some (.file bytes)) : openWritable text m = .ok id m := by
  refine inspect_of_ok ?_
  simp only [hFind, bind, Except.bind, hNode]

theorem write_ok (h : write id offset bytes m = .ok () m') :
    (bytes = [] ∧ m' = m) ∨
      (offset + bytes.length ≤ Disk.maxFileLength ∧
        m' = m.tick.record (.write id offset bytes)) := by
  unfold write at h
  split at h
  · next hEmpty =>
      cases h
      exact Or.inl ⟨by simpa using hEmpty, rfl⟩
  · split at h
    · cases h
    · next hFits => exact Or.inr ⟨by omega, commit_ok h⟩

theorem write_error (h : write id offset bytes m = .error e m') :
    m' = m ∨ m' = m.tick ∨
      ∃ count, m' = m.tick.record (.write id offset (bytes.take count)) := by
  unfold write at h
  split at h
  · cases h
  · split at h
    · cases h
      exact Or.inl rfl
    · rcases commit_error h with rfl | ⟨count, c', hCut, rfl⟩
      · exact Or.inr (Or.inl rfl)
      · cases hCut
        exact Or.inr (Or.inr ⟨count, rfl⟩)

/-- A write proceeds if every part of it keeps the property. -/
theorem write_proceeds (hBefore : P m.disk)
    (hPart : ∀ part, part <+: bytes → P (m.disk.apply (.write id offset part))) :
    (∀ u, write id offset bytes m = .ok u m' → Proceeds P m m') ∧
      ∀ e, write id offset bytes m = .error e m' → Proceeds P m m' := by
  have hCut : ∀ part, part <+: bytes → ∀ count c',
      (Disk.Change.write id offset part).cut count = some c' → P (m.disk.apply c') := by
    intro part hPrefix count c' hSome
    cases hSome
    exact hPart _ ((List.take_prefix _ _).trans hPrefix)
  constructor
  · intro u h
    rcases write_ok h with ⟨-, rfl⟩ | ⟨-, rfl⟩
    · exact .refl hBefore
    · exact .record rfl hBefore (hPart bytes (List.prefix_refl _)) (hCut bytes (List.prefix_refl _))
  · intro e h
    rcases write_error h with rfl | rfl | ⟨count, rfl⟩
    · exact .refl hBefore
    · exact .tick hBefore
    · exact .record rfl hBefore (hPart _ (List.take_prefix _ _)) (hCut _ (List.take_prefix _ _))

theorem rename_ok {source target : String} (h : rename source target m = .ok () m') :
    ∃ source' target' id, m.disk.locateFile source = .ok source' ∧
      m.disk.locateFile target = .ok target' ∧ m.disk.entries.get? source' = some id ∧
      m' = m.tick.record (.rename source' target') := by
  unfold rename at h
  obtain ⟨⟨source', target'⟩, m₁, hCall, hCommit⟩ := bind_eq_ok h
  obtain ⟨hInspect, rfl⟩ := inspect_ok hCall
  cases hSource : m₁.disk.locateFile source with
  | error e => simp [hSource, bind, Except.bind] at hInspect
  | ok slot =>
      cases hTarget : m₁.disk.locateFile target with
      | error e => simp [hSource, hTarget, bind, Except.bind] at hInspect
      | ok slot' =>
          cases hEntry : m₁.disk.entries.get? slot with
          | none => simp [hSource, hTarget, hEntry, bind, Except.bind] at hInspect
          | some id =>
              simp only [hSource, hTarget, hEntry, bind, Except.bind, Except.ok.injEq,
                Prod.mk.injEq] at hInspect
              obtain ⟨rfl, rfl⟩ := hInspect
              exact ⟨slot, slot', id, rfl, rfl, hEntry, commit_ok hCommit⟩

theorem rename_error {source target : String} (h : rename source target m = .error e m') :
    m' = m ∨ m' = m.tick := by
  unfold rename at h
  rcases bind_eq_error h with hInspect | ⟨⟨source', target'⟩, m₁, hInspect, hCommit⟩
  · exact Or.inl (inspect_error hInspect).2
  · obtain ⟨-, rfl⟩ := inspect_ok hInspect
    rcases commit_error hCommit with rfl | ⟨count, c', hCut, -⟩
    · exact Or.inr rfl
    · cases hCut

/-! ## Actions -/

section Actions

variable {ε α β : Type} {x : EStateM ε Machine α} {f : α → EStateM ε Machine β}
  {R : Machine → Machine → Prop} {post : α → Machine → Prop} {last : β → Machine → Prop}

/-- The machine that an action leaves, whether it succeeds or fails. -/
def left : EStateM.Result ε Machine α → Machine
  | .ok _ m => m
  | .error _ m => m

/-- The machine that an action finds is related to the one that it leaves, also if it fails,
and the action reaches something if it succeeds. -/
structure Relates (R : Machine → Machine → Prop) (m : Machine) (x : EStateM ε Machine α)
    (post : α → Machine → Prop) : Prop where
  related : R m (left (x m))
  reaches : ∀ a m', x m = .ok a m' → post a m'

theorem Relates.bind (h : Relates R m x post)
    (hTrans : ∀ {m₁ m₂ m₃}, R m₁ m₂ → R m₂ m₃ → R m₁ m₃)
    (hNext : ∀ a m₁, R m m₁ → post a m₁ → Relates R m₁ (f a) last) :
    Relates R m (x >>= f) last := by
  have hRelated := h.related
  cases hx : x m with
  | error e m₁ =>
      rw [hx] at hRelated
      constructor
      · rw [bind_of_error hx]
        exact hRelated
      · intro b m' hDone
        rw [bind_of_error hx] at hDone
        cases hDone
  | ok a m₁ =>
      rw [hx] at hRelated
      have hLast := hNext a m₁ hRelated (h.reaches a m₁ hx)
      constructor
      · rw [bind_of_ok hx]
        exact hTrans hRelated hLast.related
      · intro b m' hDone
        rw [bind_of_ok hx] at hDone
        exact hLast.reaches b m' hDone

theorem Relates.get_bind {f : Machine → EStateM ε Machine β} (h : Relates R m (f m) last) :
    Relates R m (get >>= f) last :=
  ⟨h.related, h.reaches⟩

/-- Other errors make no difference. -/
theorem Relates.adaptExcept {ε' : Type} (h : Relates R m x post) (g : ε → ε') :
    Relates R m (x.adaptExcept g) post := by
  obtain ⟨hRelated, hReaches⟩ := h
  constructor <;> simp only [EStateM.adaptExcept]
  · cases hx : x m <;> rw [hx] at hRelated <;> exact hRelated
  · intro a m' hDone
    cases hx : x m with
    | ok b m₁ =>
        rw [hx] at hDone
        cases hDone
        exact hReaches a m' hx
    | error e m₁ =>
        rw [hx] at hDone
        cases hDone

theorem relates_pure (h : R m m) {a : α} (hPost : post a m) :
    Relates R m (pure a : EStateM ε Machine α) post := by
  refine ⟨h, ?_⟩
  rintro b m' ⟨⟩
  exact hPost

theorem relates_throw (h : R m m) (e : ε) : Relates R m (throw e : EStateM ε Machine α) post := by
  refine ⟨h, ?_⟩
  rintro b m' ⟨⟩

theorem relates_ofExcept (h : R m m) (check : Except Error α) :
    Relates R m (Effect.ofExcept check) fun a m' => check = .ok a ∧ m' = m := by
  cases check with
  | ok a => exact relates_pure h ⟨rfl, rfl⟩
  | error e => exact relates_throw h e

theorem relates_inspect (h : R m m) (f : Disk → Except IoError α) :
    Relates R m (inspect f) fun a m' => f m.disk = .ok a ∧ m' = m := by
  constructor
  · unfold inspect
    split <;> exact h
  · intro a m' hDone
    exact inspect_ok hDone

theorem relates_openWritable (h : R m m) (text : String) :
    Relates R m (openWritable text) fun id m' => m' = m ∧ m.disk.find text = .ok id ∧
      ∃ data, m.disk.nodes[id]? = some (.file data) := by
  refine ⟨(relates_inspect h _).related, fun id m' hDone => ?_⟩
  obtain ⟨hOpen, rfl⟩ := inspect_ok hDone
  refine ⟨rfl, ?_⟩
  cases hFind : m'.disk.find text with
  | error e => simp [hFind, bind, Except.bind] at hOpen
  | ok found =>
      simp only [hFind, bind, Except.bind] at hOpen
      split at hOpen
      · next data hNode =>
          cases hOpen
          exact ⟨rfl, data, hNode⟩
      · cases hOpen

theorem relates_sync (h : R m m.tick) : Relates R m sync fun _ m' => m' = m.tick := by
  constructor
  · unfold sync
    split <;> exact h
  · intro u m' hDone
    exact sync_ok hDone

/-- A change is made, or not at all, or in part. -/
theorem relates_commit {c : Disk.Change} (h : R m m.tick) (hAll : R m (m.tick.record c))
    (hPart : ∀ count c', c.cut count = some c' → R m (m.tick.record c')) :
    Relates R m (commit c) fun _ m' => m' = m.tick.record c := by
  constructor
  · cases hCommit : commit c m with
    | ok u m' =>
        rw [commit_ok hCommit]
        exact hAll
    | error e m' =>
        rcases commit_error hCommit with rfl | ⟨count, c', hCut, rfl⟩
        · exact h
        · exact hPart count c' hCut
  · intro u m' hDone
    exact commit_ok hDone

end Actions

end Machine
end FieldArchive

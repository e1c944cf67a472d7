import FieldArchive.Proofs.Archive.Reading
import FieldArchive.Proofs.Session.Run

/-!
# Ledgers and logs

A ledger accounts for a log if its stored snapshots are those that were reported,
in order, perhaps with some between them whose request failed in the file system.
Answers are exact if they say what the snapshots before them make true: which
payload was stored before, where each is, and how many there are.
-/

namespace FieldArchive

namespace Ledger

/-! ## Ledgers that know more -/

/-- The second ledger knows all savepoints and fields of the first; the metainfo
of a field may differ. -/
structure Extends (l l' : Ledger) : Prop where
  savepoints : l.savepoints <+: l'.savepoints
  fields : l'.Describes l

variable {l l' : Ledger} {s : Settings} {w : Write} {x : Session.Snapshot}

theorem Extends.of_fields_eq (hSavepoints : l.savepoints <+: l'.savepoints)
    (hFields : l'.fields = l.fields) : l.Extends l' :=
  ⟨hSavepoints, describes_of_fields_eq hFields⟩

theorem Extends.refl (l : Ledger) : l.Extends l := .of_fields_eq (List.prefix_refl _) rfl

theorem extends_register (l : Ledger) (point : Savepoint) : l.Extends (l.register point) :=
  .of_fields_eq (l.savepoints_isPrefix_register point) (l.register_fields point)

theorem extends_addField (l : Ledger) (info : FieldInfo) : l.Extends (l.addField info) := by
  refine ⟨List.prefix_refl _, fun f hf => ⟨f, List.mem_append_left _ hf, rfl, ?_⟩⟩
  exact FieldInfo.agreesWith_iff.2 ⟨rfl, rfl, rfl⟩

theorem extends_setFieldMetainfo (l : Ledger) (i : Nat) (key : String) (value : MetaValue) :
    l.Extends (l.setFieldMetainfo i key value) := by
  refine ⟨List.prefix_refl _, fun f hf => ?_⟩
  obtain ⟨n, hn⟩ := List.getElem?_of_mem hf
  have hNew : (l.setFieldMetainfo i key value).fields[n]? =
      some (if i = n then { f with metainfo := f.metainfo.set key value } else f) := by
    simp [setFieldMetainfo, List.getElem?_modify, hn]
  refine ⟨_, List.mem_of_getElem? hNew, ?_, FieldInfo.agreesWith_iff.2 ?_⟩
  · split <;> rfl
  · split <;> exact ⟨rfl, rfl, rfl⟩

/-! ## Ledgers and logs -/

/-- A stored snapshot is the one that a session was given. -/
structure Stores (s : Settings) (l : Ledger) (w : Write) (x : Session.Snapshot) : Prop where
  isAt : l.IsAt w x.point
  field : w.field = x.field
  payload : w.payload = x.payload s.endianness
  described : ∃ info ∈ l.fields, info.name = x.field ∧ (Codec.ofSettings s).Encodes info x.buffer

theorem Stores.mono (h : l.Stores s w x) (hExtends : l.Extends l') : l'.Stores s w x := by
  obtain ⟨info, hInfo, hName, hEncodes⟩ := h.described
  obtain ⟨info', hInfo', hName', hAgrees⟩ := hExtends.fields info hInfo
  exact ⟨h.isAt.mono hExtends.savepoints, h.field, h.payload, info', hInfo', hName'.trans hName,
    hEncodes.congr hAgrees⟩

/-- The stored snapshots of a ledger are those of a log. -/
def Accounts (s : Settings) (l : Ledger) (log : List Session.Event) : Prop :=
  ∃ stored, List.Forall₂ (l.Stores s) l.writes stored ∧
    (Session.reported log).Sublist stored ∧ stored.Sublist (Session.attempted log)

variable {log : List Session.Event} {e : Session.Event}

theorem accounts_empty (s : Settings) : empty.Accounts s [] :=
  ⟨[], .nil, List.Sublist.refl _, List.Sublist.refl _⟩

theorem Accounts.mono (h : l.Accounts s log) (hExtends : l.Extends l')
    (hWrites : l'.writes = l.writes) : l'.Accounts s log := by
  obtain ⟨stored, hStored, hBelow, hAbove⟩ := h
  refine ⟨stored, ?_, hBelow, hAbove⟩
  rw [hWrites]
  exact hStored.imp fun _ _ hw => hw.mono hExtends

/-- A request that stores nothing. -/
theorem Accounts.next (h : l.Accounts s log) (hReported : e.reported? = none) :
    l.Accounts s (log ++ [e]) := by
  obtain ⟨stored, hStored, hBelow, hAbove⟩ := h
  refine ⟨stored, hStored, ?_, ?_⟩
  · rw [Session.reported_append, Session.reported, Session.reported,
      List.filterMap_cons_none hReported,
      List.filterMap_nil, List.append_nil]
    exact hBelow
  · rw [Session.attempted_append]
    exact hAbove.trans (List.sublist_append_left _ _)

/-- A request that stores a snapshot. -/
theorem Accounts.store (h : l.Accounts s log) (hExtends : l.Extends l')
    (hWrites : l'.writes = l.writes ++ [w]) (hStores : l'.Stores s w x)
    (hAttempted : e.attempted? = some x) (hReported : e.reported? = some x ∨ e.reported? = none) :
    l'.Accounts s (log ++ [e]) := by
  obtain ⟨stored, hStored, hBelow, hAbove⟩ := h
  refine ⟨stored ++ [x], ?_, ?_, ?_⟩
  · rw [hWrites]
    exact List.rel_append (hStored.imp fun _ _ hw => hw.mono hExtends) (.cons hStores .nil)
  · rw [Session.reported_append]
    refine List.Sublist.append hBelow ?_
    rcases hReported with hSome | hNone
    · simp [Session.reported, hSome]
    · simp [Session.reported, hNone]
  · rw [Session.attempted_append]
    refine List.Sublist.append hAbove ?_
    simp [Session.attempted, hAttempted]

/-- Savepoints without snapshots need not be known. -/
theorem Accounts.of_covers {exact : Prop} (h : l'.Accounts s log) (hCovers : l.Covers exact l')
    (hValid : l.IsValid s.checksum) : l.Accounts s log := by
  obtain ⟨stored, hStored, hBelow, hAbove⟩ := h
  refine ⟨stored, ?_, hBelow, hAbove⟩
  have hLt : ∀ w ∈ l'.writes, w.savepoint < l.savepoints.length := by
    rw [← hCovers.writes]
    exact hValid.savepoint_lt
  rw [hCovers.writes]
  refine (List.forall₂_and_left _ _ |>.2 ⟨hLt, hStored⟩).imp ?_
  rintro w x ⟨hNumber, hStores⟩
  obtain ⟨info, hInfo, hName, hEncodes⟩ := hStores.described
  obtain ⟨info', hInfo', hName', hAgrees⟩ := hCovers.describes info hInfo
  exact ⟨hStores.isAt.of_prefix hCovers.savepoints hNumber, hStores.field, hStores.payload, info',
    hInfo', hName'.trans hName, hEncodes.congr hAgrees⟩

/-- Without failures of the file system the payloads are those reported. -/
theorem Accounts.payloads_eq (h : l.Accounts s log) (hIntact : Session.IsIntact log) :
    l.payloads = Session.payloads s.endianness log := by
  obtain ⟨stored, hStored, hBelow, hAbove⟩ := h
  rw [Session.attempted_eq_reported hIntact] at hAbove
  have hSame : List.Forall₂ Eq (l.writes.map Write.payload)
      (stored.map fun x => x.payload s.endianness) := by
    rw [List.forall₂_map_left_iff, List.forall₂_map_right_iff]
    exact hStored.imp fun _ _ hw => hw.payload
  rw [List.forall₂_eq_eq_eq] at hSame
  rw [Session.payloads, hBelow.antisymm hAbove, payloads, hSame]

/-- Every stored snapshot is one that may have been stored according to the log. -/
theorem Accounts.exists_attempted (h : l.Accounts s log) (hw : w ∈ l.writes) :
    ∃ x ∈ Session.attempted log, l.Stores s w x := by
  obtain ⟨stored, hStored, -, hAbove⟩ := h
  obtain ⟨x, hx, hStores⟩ := exists_right_of_forall₂ hStored hw
  exact ⟨x, hAbove.subset hx, hStores⟩

theorem Accounts.mem_payloads (h : l.Accounts s log) {p : List UInt8} (hp : p ∈ l.payloads) :
    ∃ x ∈ Session.attempted log, p = x.payload s.endianness := by
  obtain ⟨w, hw, rfl⟩ := List.mem_map.1 hp
  obtain ⟨x, hx, hStores⟩ := h.exists_attempted hw
  exact ⟨x, hx, hStores.payload⟩

end Ledger

/-! ## Exact answers -/

namespace Session

/-- The record of a payload among those that were stored. -/
def recordIn (s : Settings) (stored : List (List UInt8)) (p : List UInt8) : OffsetRecord :=
  ⟨Checksum.compute s.checksum p, Packing.extentOf stored p⟩

/-- The answer to a request is what the requests before it make true. -/
structure Event.IsExact (s : Settings) (before : List Event) (e : Event) : Prop where
  record : ∀ x, e.reported? = some x →
    e.reply.record? = some (recordIn s (payloads s.endianness before ++ [x.payload s.endianness])
      (x.payload s.endianness))
  deduplicated : ∀ x, e.reported? = some x →
    (e.reply.isDeduplicated = true ↔ x.payload s.endianness ∈ payloads s.endianness before)
  counted : ∀ counts, e.reply = .counted counts →
    counts.entries = (reported before).length ∧
    counts.uniqueRanges = (Packing.blocks (payloads s.endianness before)).length ∧
    counts.dataBytes = (Packing.content (payloads s.endianness before)).length

/-- All answers of a log are exact. -/
def IsExact (s : Settings) (log : List Event) : Prop :=
  ∀ before e after, log = before ++ e :: after → e.IsExact s before

variable {s : Settings} {log : List Event} {e : Event}

theorem isExact_nil (s : Settings) : IsExact s [] := by
  intro before e after h
  simp at h

theorem IsExact.concat (h : IsExact s log) (he : e.IsExact s log) : IsExact s (log ++ [e]) := by
  intro before e' after hSplit
  rcases List.eq_nil_or_concat after with rfl | ⟨after', last, rfl⟩
  · obtain ⟨rfl, hLast⟩ := List.append_inj' hSplit rfl
    obtain rfl := List.singleton_inj.1 hLast
    exact he
  · refine h before e' after' ?_
    have hInit : log ++ [e] = (before ++ e' :: after') ++ [last] := by
      rw [hSplit]
      simp
    exact (List.append_inj' hInit rfl).1

/-- An answer that neither stores nor counts is exact. -/
theorem Event.isExact_of_silent (hReported : e.reported? = none)
    (hCounted : ∀ counts, e.reply ≠ .counted counts) : e.IsExact s log where
  record x hx := by
    rw [hReported] at hx
    cases hx
  deduplicated x hx := by
    rw [hReported] at hx
    cases hx
  counted counts hCounts := absurd hCounts (hCounted counts)

end Session
end FieldArchive

import FieldArchive.Proofs.Ledger.Commuting
import FieldArchive.Proofs.Session.RoundTrip
import Mathlib.Algebra.BigOperators.Group.List.Basic

/-!
# Sessions that answer alike

What a session for reading answers about a key is determined by its ledger without
regard to the order of the snapshots: a key that has bytes is found with the description
of its field, and any other key is missed, in a way that depends on whether the savepoint
is known (`Archive.ReadsLedger.locate_of_has`, `Archive.ReadsLedger.locate_of_not_has`).
So archives with ledgers that are alike read the same, and have the same counts
(`Session.answersAs_of_alike`).
-/

namespace FieldArchive

namespace Packing

variable {xs ys : List (List UInt8)}

theorem nodup_blocks (xs : List (List UInt8)) : (blocks xs).Nodup := by
  induction xs using List.reverseRecOn with
  | nil => exact List.nodup_nil
  | append_singleton xs p ih =>
      by_cases hMem : p ∈ xs
      · rw [blocks_append_of_mem hMem]
        exact ih
      · rw [blocks_append_of_not_mem hMem]
        exact List.nodup_append_comm.1 (ih.cons (mt mem_blocks.1 hMem))

theorem perm_blocks (h : xs.Perm ys) : (blocks xs).Perm (blocks ys) := by
  refine (List.perm_ext_iff_of_nodup (nodup_blocks xs) (nodup_blocks ys)).2 fun p => ?_
  rw [mem_blocks, mem_blocks, h.mem_iff]

theorem length_content_eq (h : xs.Perm ys) : (content xs).length = (content ys).length := by
  rw [length_content, length_content]
  exact ((perm_blocks h).map List.length).sum_eq

end Packing

variable {l : Layout} {s : Settings} {saved saved' : Ledger} {a a' : Archive} {d d' : Disk}
  {probe : Savepoint} {field : String} {p : List UInt8}

namespace Archive

/-! ## What an archive looks up -/

theorem ReadsLedger.savepointId?_isSome (h : ReadsLedger l s saved a d) (probe : Savepoint) :
    (a.tables.offsets.savepointId? probe).isSome = saved.knows probe := by
  have hSavepoints : a.tables.offsets.savepoints = saved.savepoints := h.tables.savepoints
  rw [OffsetTable.savepointId?, h.tables.offsets.savepointIds, hSavepoints, List.findIdx?_isSome,
    Ledger.knows]

theorem ReadsLedger.lookup_of_has (h : ReadsLedger l s saved a d) (hHas : saved.Has probe field p) :
    a.tables.offsets.lookup probe field = .ok (saved.recordOf s.checksum p) := by
  obtain ⟨w, hw, hAt, rfl, rfl⟩ := hHas
  exact h.lookup_eq hw hAt

theorem ReadsLedger.lookup_of_not_has (h : ReadsLedger l s saved a d)
    (hNone : ¬ ∃ p, saved.Has probe field p) :
    a.tables.offsets.lookup probe field =
      .error (if saved.knows probe then .fieldNotFound probe field
        else .savepointNotFound probe) := by
  cases hLookup : a.tables.offsets.lookup probe field with
  | ok record =>
      have hSavepoints : a.tables.offsets.savepoints = saved.savepoints := h.tables.savepoints
      have hEntries : a.tables.offsets.entries = saved.entries s.checksum := h.tables.entries
      obtain ⟨e, he, hField, -, known, hKnown, hSame⟩ :=
        h.tables.offsets.exists_mem_of_lookup hLookup
      rw [hEntries] at he
      obtain ⟨w, hw, rfl⟩ := Ledger.mem_entries.1 he
      rw [hSavepoints] at hKnown
      exact absurd ⟨w.payload, w, hw, ⟨known, hKnown, hSame⟩, hField, rfl⟩ hNone
  | error e => rw [OffsetTable.eq_of_lookup_eq_error hLookup, h.savepointId?_isSome]

theorem ReadsLedger.find?_eq (h : ReadsLedger l s saved a d) (name : String) :
    a.tables.catalog.find? name = saved.fields.find? fun f => f.name == name := by
  have hFields : a.tables.catalog.fields = saved.fields := h.tables.fields
  rw [h.tables.catalog.find?_eq, hFields]

/-- Bytes that are stored belong to a field that is described. -/
theorem ReadsLedger.exists_find? (h : ReadsLedger l s saved a d) (hHas : saved.Has probe field p) :
    ∃ info, (saved.fields.find? fun f => f.name == field) = some info := by
  obtain ⟨w, hw, -, rfl, -⟩ := hHas
  obtain ⟨f, hf, hName, -⟩ := h.isValid.described w hw
  exact ⟨f, (h.find?_eq w.field).symm.trans (h.tables.find?_eq_some_iff.2 ⟨hf, hName⟩)⟩

end Archive

namespace Session

open Archive (ReadsLedger)

/-- A key that has bytes is found with them. -/
theorem locate_of_has (h : ReadsLedger l s saved a d) (durability : Durability)
    (hHas : saved.Has probe field p) : ∃ info,
    (saved.fields.find? fun f => f.name == field) = some info ∧
      (ofArchives a none durability).locate d probe field = .ok ⟨a, info, p⟩ := by
  obtain ⟨info, hFind⟩ := h.exists_find? hHas
  obtain ⟨w, hw, hAt, rfl, rfl⟩ := hHas
  refine ⟨info, hFind, ?_⟩
  simp only [locate, require, ofArchives, h.mode, Mode.status, ne_eq, not_true_eq_false, if_false,
    archives, findIn, h.readBytes_eq hw hAt, h.find?_eq, hFind, bind, Except.bind, pure,
    Except.pure]

/-- Any other key is missed. -/
theorem locate_of_not_has (h : ReadsLedger l s saved a d) (durability : Durability)
    (hNone : ¬ ∃ p, saved.Has probe field p) :
    (ofArchives a none durability).locate d probe field =
      .error (if saved.knows probe then .fieldNotFound probe field
        else .savepointNotFound probe) := by
  obtain ⟨arena, -, hArena, -⟩ := h.arena
  have hLookup := h.lookup_of_not_has hNone
  have hBytes : a.readBytes d probe field = .error (if saved.knows probe then
      .fieldNotFound probe field else .savepointNotFound probe) := by
    simp only [Archive.readBytes, h.requireMode_eq hArena, hLookup, bind, Except.bind]
  have hMiss := OffsetTable.isMiss_of_lookup hLookup
  have hKnows : (ofArchives a none durability).knowsSavepoint probe = saved.knows probe := by
    simp [knowsSavepoint, archives, ofArchives, h.savepointId?_isSome]
  have hFindIn : findIn d probe field (ofArchives a none durability).archives = .ok none := by
    simp only [archives, ofArchives, Option.toList_none, findIn, hBytes, hMiss, if_true]
  have hStatus : (ofArchives a none durability).require .openForRead .readField = .ok () := by
    simp [require, ofArchives, h.mode, Mode.status]
  simp only [locate, hStatus, hFindIn, hKnows, bind, Except.bind]
  split <;> rfl

/-! ## Archives with ledgers that are alike -/

/-- Two sessions give the same answers on their disks: which fields are described and how,
which keys there are, what is stored under each, and how much is stored. -/
structure AnswersAs (session : Session) (d : Disk) (session' : Session) (d' : Disk) : Prop where
  metainfo : ∃ metainfo, session.metainfo = .ok metainfo ∧ session'.metainfo = .ok metainfo
  fieldNames : ∃ names, session.fieldNames = .ok names ∧ session'.fieldNames = .ok names
  fieldInfo : ∀ name, ∃ info,
    session.fieldInfo name = .ok info ∧ session'.fieldInfo name = .ok info
  hasField : ∀ probe field, ∃ known,
    session.hasField probe field = .ok known ∧ session'.hasField probe field = .ok known
  readField : ∀ probe field, session.readField d probe field = session'.readField d' probe field
  readRaw : ∀ probe field, session.readRaw d probe field = session'.readRaw d' probe field
  stats : ∃ counts, session.stats = .ok counts ∧ session'.stats = .ok counts

theorem locate_cases (h : ReadsLedger l s saved a d) (h' : ReadsLedger l s saved' a' d')
    (hAlike : saved.Alike saved') (durability durability' : Durability) (probe : Savepoint)
    (field : String) :
    (∃ e, (ofArchives a none durability).locate d probe field = .error e ∧
      (ofArchives a' none durability').locate d' probe field = .error e) ∨
    ∃ info p, (ofArchives a none durability).locate d probe field = .ok ⟨a, info, p⟩ ∧
      (ofArchives a' none durability').locate d' probe field = .ok ⟨a', info, p⟩ := by
  by_cases hHas : ∃ p, saved.Has probe field p
  · obtain ⟨p, hHas⟩ := hHas
    obtain ⟨info, hInfo, hFound⟩ := locate_of_has h durability hHas
    obtain ⟨info', hInfo', hFound'⟩ :=
      locate_of_has h' durability' ((hAlike.has probe field p).1 hHas)
    rw [← hAlike.fields, hInfo] at hInfo'
    obtain rfl := Option.some.inj hInfo'
    exact Or.inr ⟨info, p, hFound, hFound'⟩
  · have hNone' : ¬ ∃ p, saved'.Has probe field p := by
      simpa only [hAlike.has] using hHas
    refine Or.inl ⟨_, locate_of_not_has h durability hHas, ?_⟩
    rw [locate_of_not_has h' durability' hNone', hAlike.knows]

theorem metainfo_eq (h : ReadsLedger l s saved a d) (durability : Durability) :
    (ofArchives a none durability).metainfo = .ok saved.metainfo := by
  have hMetainfo : a.tables.metainfo = saved.metainfo := h.tables.metainfo
  simp [metainfo, requireOpen, ofArchives, h.mode, Mode.status, hMetainfo, bind, Except.bind, pure,
    Except.pure]

theorem fieldNames_eq (h : ReadsLedger l s saved a d) (durability : Durability) :
    (ofArchives a none durability).fieldNames = .ok (saved.fields.map FieldInfo.name) := by
  have hFields : a.tables.catalog.fields = saved.fields := h.tables.fields
  simp [fieldNames, requireOpen, ofArchives, h.mode, Mode.status, Catalog.names, hFields, bind,
    Except.bind, pure, Except.pure]

theorem fieldInfo_eq (h : ReadsLedger l s saved a d) (durability : Durability) (name : String) :
    (ofArchives a none durability).fieldInfo name =
      .ok (saved.fields.find? fun f => f.name == name) := by
  simp [fieldInfo, requireOpen, ofArchives, h.mode, Mode.status, archives, h.find?_eq, bind,
    Except.bind, pure, Except.pure]

theorem hasField_eq (h : ReadsLedger l s saved a d) (durability : Durability) (probe : Savepoint)
    (field : String) : ∃ known, (ofArchives a none durability).hasField probe field = .ok known ∧
      (known = true ↔ ∃ p, saved.Has probe field p) := by
  refine ⟨(a.tables.offsets.lookup probe field).isOk, ?_, ?_⟩
  · simp [hasField, requireOpen, ofArchives, h.mode, Mode.status, archives, OffsetTable.contains,
      bind, Except.bind, pure, Except.pure]
  · by_cases hHas : ∃ p, saved.Has probe field p
    · obtain ⟨p, hp⟩ := hHas
      rw [h.lookup_of_has hp]
      exact iff_of_true rfl ⟨p, hp⟩
    · rw [h.lookup_of_not_has hHas]
      exact iff_of_false Bool.false_ne_true hHas

theorem stats_eq (h : ReadsLedger l s saved a d) (durability : Durability) :
    (ofArchives a none durability).stats = .ok saved.counts := by
  obtain ⟨arena, data, hArena, hLength, -, -⟩ := h.arena
  refine stats_of_records ?_ h.tables h.isValid ?_
  · simp [ofArchives, h.mode, Mode.status]
  · simp [ofArchives, Archive.dataLength, hArena, hLength]

/-- Sessions for reading answer alike if the ledgers of their archives are alike. -/
theorem answersAs_of_alike (h : ReadsLedger l s saved a d) (h' : ReadsLedger l s saved' a' d')
    (hAlike : saved.Alike saved') (durability durability' : Durability) :
    (ofArchives a none durability).AnswersAs d (ofArchives a' none durability') d' where
  metainfo := by
    refine ⟨_, metainfo_eq h durability, ?_⟩
    rw [metainfo_eq h' durability', hAlike.metainfo]
  fieldNames := by
    refine ⟨_, fieldNames_eq h durability, ?_⟩
    rw [fieldNames_eq h' durability', hAlike.fields]
  fieldInfo name := by
    refine ⟨_, fieldInfo_eq h durability name, ?_⟩
    rw [fieldInfo_eq h' durability' name, hAlike.fields]
  hasField probe field := by
    obtain ⟨known, hKnown, hIff⟩ := hasField_eq h durability probe field
    obtain ⟨known', hKnown', hIff'⟩ := hasField_eq h' durability' probe field
    have hSame : known = known' := by
      rw [Bool.eq_iff_iff, hIff, hIff']
      exact exists_congr (hAlike.has probe field)
    exact ⟨known, hKnown, hSame ▸ hKnown'⟩
  readField probe field := by
    rcases locate_cases h h' hAlike durability durability' probe field with
      ⟨e, hLocate, hLocate'⟩ | ⟨info, p, hLocate, hLocate'⟩
    · simp only [readField, hLocate, hLocate', bind, Except.bind]
    · simp only [readField, hLocate, hLocate', h.settings, h'.settings, bind, Except.bind]
  readRaw probe field := by
    rcases locate_cases h h' hAlike durability durability' probe field with
      ⟨e, hLocate, hLocate'⟩ | ⟨info, p, hLocate, hLocate'⟩
    · simp only [readRaw, hLocate, hLocate', bind, Except.bind]
    · simp only [readRaw, hLocate, hLocate', bind, Except.bind, pure, Except.pure]
  stats := by
    refine ⟨_, stats_eq h durability, ?_⟩
    have hContent : saved.content.length = saved'.content.length :=
      Packing.length_content_eq hAlike.payloads
    rw [stats_eq h' durability', Ledger.counts, Ledger.counts, hAlike.fields, hAlike.savepoints,
      hAlike.payloads.length_eq, (Packing.perm_blocks hAlike.payloads).length_eq, hContent]

end Session
end FieldArchive

import FieldArchive.Proofs.Ledger.Tables

/-!
# Ledgers read back

A document gives back a ledger with the same snapshots, and with the same fields and
savepoints up to their metainfo.  It always gives one back, since the metainfo of a
valid ledger is finite, and it is valid again as long as its savepoints stay apart.
That is all that reading snapshots relies on: which reals the archive and its fields
are given back with does not matter to it.
-/

namespace FieldArchive.Ledger

/-- Documents give back the second ledger for the first. -/
structure Rereads (l again : Ledger) : Prop where
  metainfo : l.metainfo.reread? = some again.metainfo
  fields : l.fields.mapM FieldInfo.reread? = some again.fields
  savepoints : l.savepoints.mapM Savepoint.reread? = some again.savepoints
  writes : again.writes = l.writes

variable {algorithm : ChecksumAlgorithm} {s : Settings} {l again : Ledger} {exact : Prop}

/-! ## Documents -/

theorem Rereads.payloads_eq (h : l.Rereads again) : again.payloads = l.payloads := by
  rw [payloads, h.writes, payloads]

theorem Rereads.content_eq (h : l.Rereads again) : again.content = l.content := by
  rw [content, h.payloads_eq, content]

theorem Rereads.entries_eq (h : l.Rereads again) :
    again.entries algorithm = l.entries algorithm := by
  have hEntry : again.entryOf algorithm = l.entryOf algorithm := by
    funext w
    simp only [entryOf, recordOf, h.payloads_eq]
  rw [entries, h.writes, hEntry, entries]

/-- The document of a ledger is read as the document of the ledger that is given back. -/
theorem Rereads.reread?_document (h : l.Rereads again) (id : ArchiveId)
    (createdAt updatedAt : String) : (l.document id createdAt updatedAt s).reread? =
      some (again.document id createdAt updatedAt s) := by
  simp only [Document.reread?, document, h.metainfo, h.fields, h.savepoints, h.entries_eq,
    h.content_eq, Option.bind_eq_bind, Option.bind_some]

/-- A document that is read at all is read as that of a ledger. -/
theorem exists_rereads_of_document {id : ArchiveId} {createdAt updatedAt : String}
    {doc : Document} (h : (l.document id createdAt updatedAt s).reread? = some doc) :
    ∃ again : Ledger, l.Rereads again ∧ doc = again.document id createdAt updatedAt s := by
  obtain ⟨metainfo, fields, savepoints, hMetainfo, hFields, hSavepoints, rfl⟩ :=
    Document.reread?_eq_some h
  have hRereads : l.Rereads ⟨metainfo, fields, savepoints, l.writes⟩ :=
    ⟨hMetainfo, hFields, hSavepoints, rfl⟩
  have hDocument := hRereads.reread?_document (s := s) id createdAt updatedAt
  exact ⟨_, hRereads, Option.some.inj (h.symm.trans hDocument)⟩

/-- A ledger with finite metainfo is given back, and with finite metainfo. -/
theorem IsFinite.exists_rereads (h : l.IsFinite) :
    ∃ again : Ledger, l.Rereads again ∧ again.IsFinite := by
  obtain ⟨metainfo, hMetainfo, hFinite⟩ := Metainfo.exists_reread? h.metainfo
  obtain ⟨fields, hFields, hFields'⟩ :=
    exists_mapM fun f hf => FieldInfo.exists_reread? (h.fields f hf)
  obtain ⟨savepoints, hSavepoints, hSavepoints'⟩ :=
    exists_mapM fun p hp => Savepoint.exists_reread? (h.savepoints p hp)
  exact ⟨⟨metainfo, fields, savepoints, l.writes⟩, ⟨hMetainfo, hFields, hSavepoints, rfl⟩,
    ⟨hFinite, hFields', hSavepoints'⟩⟩

theorem Rereads.unique {other : Ledger} (h : l.Rereads again) (hOther : l.Rereads other) :
    again = other := by
  have hMetainfo := Option.some.inj (h.metainfo.symm.trans hOther.metainfo)
  have hFields := Option.some.inj (h.fields.symm.trans hOther.fields)
  have hSavepoints := Option.some.inj (h.savepoints.symm.trans hOther.savepoints)
  have hWrites := h.writes.trans hOther.writes.symm
  cases again
  cases other
  simp_all only

/-! ## Fields -/

/-- Descriptions are given back with everything but their metainfo. -/
theorem Rereads.forall₂_fields (h : l.Rereads again) :
    List.Forall₂ (fun f f' => ∃ metainfo, f' = { f with metainfo := metainfo }) l.fields
      again.fields :=
  (forall₂_of_mapM h.fields).imp fun _ _ hRead => FieldInfo.reread?_eq_some hRead

/-- What is given back for a ledger is described as the ledger is. -/
theorem Rereads.describes (h : l.Rereads again) : again.Describes l := by
  intro f hf
  obtain ⟨f', hf', metainfo, rfl⟩ := exists_right_of_forall₂ h.forall₂_fields hf
  exact ⟨_, hf', rfl, FieldInfo.agreesWith_iff.2 ⟨rfl, rfl, rfl⟩⟩

theorem Rereads.describes_self (h : l.Rereads again) : l.Describes again := by
  intro f' hf'
  obtain ⟨f, hf, metainfo, rfl⟩ := exists_left_of_forall₂ h.forall₂_fields hf'
  exact ⟨f, hf, rfl, FieldInfo.agreesWith_iff.2 ⟨rfl, rfl, rfl⟩⟩

theorem Rereads.names_eq (h : l.Rereads again) :
    again.fields.map FieldInfo.name = l.fields.map FieldInfo.name := by
  have hNames : List.Forall₂ Eq (again.fields.map FieldInfo.name)
      (l.fields.map FieldInfo.name) := by
    rw [List.forall₂_map_left_iff, List.forall₂_map_right_iff]
    refine h.forall₂_fields.flip.imp fun f' f hRead => ?_
    obtain ⟨metainfo, rfl⟩ := hRead
    rfl
  rwa [List.forall₂_eq_eq_eq] at hNames

/-! ## Validity -/

/-- What is given back for a valid ledger is valid if its savepoints stay apart. -/
theorem Rereads.isValid (h : l.Rereads again) (hValid : l.IsValid algorithm)
    (hSavepoints : again.savepoints.Pairwise fun a b => (a == b) = false) :
    again.IsValid algorithm where
  names := by
    rw [h.names_eq]
    exact hValid.names
  valid f' hf' := by
    obtain ⟨f, hf, metainfo, rfl⟩ := exists_left_of_forall₂ h.forall₂_fields hf'
    exact hValid.valid f hf
  savepoints := hSavepoints
  -- savepoints keep their places, so the numbers of writes stay in range
  savepoint_lt := by
    rw [h.writes, ← (forall₂_of_mapM h.savepoints).length_eq]
    exact hValid.savepoint_lt
  keys := by
    rw [h.writes]
    exact hValid.keys
  described w hw := by
    rw [h.writes] at hw
    obtain ⟨f, hf, hName, hSize⟩ := hValid.described w hw
    obtain ⟨f', hf', metainfo, rfl⟩ := exists_right_of_forall₂ h.forall₂_fields hf
    exact ⟨_, hf', hName, hSize⟩
  injective := by
    rw [h.payloads_eq]
    exact hValid.injective
  content_le := by
    rw [h.content_eq]
    exact hValid.content_le
  finite := by
    obtain ⟨other, hOther, hFinite⟩ := hValid.finite.exists_rereads
    rw [h.unique hOther]
    exact hFinite

/-- Savepoints that are given back as they were stay apart. -/
theorem Rereads.savepoints_eq (h : l.Rereads again)
    (hPoints : ∀ p ∈ l.savepoints, p.readsBack = true) : again.savepoints = l.savepoints := by
  have hSame := Json.mapM_eq_some_self fun p hp => Savepoint.reread?_of_readsBack (hPoints p hp)
  exact Option.some.inj (h.savepoints.symm.trans hSame)

/-- A ledger covers what is given back for it, if its savepoints are given back as they
were. -/
theorem Rereads.covers (h : l.Rereads again) (hPoints : ∀ p ∈ l.savepoints, p.readsBack = true)
    (hExact : exact → again = l) : l.Covers exact again where
  metainfo he := by rw [hExact he]
  fields he := by rw [hExact he]
  describes := h.describes_self
  savepoints := by rw [h.savepoints_eq hPoints]
  writes := h.writes.symm

theorem readsBack_iff : l.readsBack = true ↔
    l.metainfo.readsBack = true ∧ (∀ f ∈ l.fields, f.readsBack = true) ∧
      ∀ p ∈ l.savepoints, p.readsBack = true := by
  simp only [readsBack, Bool.and_eq_true, List.all_eq_true, and_assoc]

/-- Documents give back the savepoints of a ledger as they were, and all its metainfo if
`exact` holds. -/
structure ReadsBackAs (exact : Prop) (l : Ledger) : Prop where
  savepoints : ∀ p ∈ l.savepoints, p.readsBack = true
  all : exact → l.readsBack = true

/-- A ledger whose metainfo is given back as it was is given back itself. -/
theorem rereads_self (h : l.readsBack = true) : l.Rereads l := by
  obtain ⟨hMetainfo, hFields, hSavepoints⟩ := readsBack_iff.1 h
  exact ⟨Metainfo.reread?_of_readsBack hMetainfo,
    Json.mapM_eq_some_self fun f hf => FieldInfo.reread?_of_readsBack (hFields f hf),
    Json.mapM_eq_some_self fun p hp => Savepoint.reread?_of_readsBack (hSavepoints p hp), rfl⟩

end FieldArchive.Ledger

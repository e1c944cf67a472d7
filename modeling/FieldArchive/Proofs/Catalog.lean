import FieldArchive.Catalog
import FieldArchive.Proofs.Index
import Mathlib.Data.List.Nodup

/-!
# Coherent catalogs

A catalog is coherent if its index of names says what its list of descriptions
says and no name is described twice.  Registering fields, setting their metainfo
and noting their presence keep catalogs coherent.
-/

namespace FieldArchive.Catalog

/-- The index of names agrees with the descriptions, whose names are distinct. -/
structure IsCoherent (c : Catalog) : Prop where
  byName : ∀ name, c.byName.get? name = c.fields.findIdx? fun f => f.name == name
  names : (c.fields.map FieldInfo.name).Nodup

theorem isCoherent_empty : empty.IsCoherent where
  byName _ := rfl
  names := List.nodup_nil

variable {c : Catalog}

/-- The description of a name is the first in the list. -/
theorem IsCoherent.find?_eq (h : c.IsCoherent) (name : String) :
    c.find? name = c.fields.find? fun f => f.name == name := by
  rw [Catalog.find?, h.byName, List.findIdx?_eq_guard_findIdx_lt, List.find?_eq_getElem?_findIdx]
  by_cases hLt : c.fields.findIdx (fun f => f.name == name) < c.fields.length
  · simp [Option.guard, hLt]
  · simp only [Option.guard, hLt, decide_false, Bool.false_eq_true, if_false, Option.bind_none]
    exact (List.getElem?_eq_none (by omega)).symm

theorem IsCoherent.find?_eq_some_iff (h : c.IsCoherent) {name : String} {info : FieldInfo} :
    c.find? name = some info ↔ info ∈ c.fields ∧ info.name = name := by
  rw [h.find?_eq]
  constructor
  · intro hFind
    exact ⟨List.mem_of_find?_eq_some hFind, by simpa using List.find?_some hFind⟩
  · rintro ⟨hMem, rfl⟩
    obtain ⟨n, hLt, rfl⟩ := List.getElem_of_mem hMem
    refine List.find?_eq_some_iff_getElem.2 ⟨by simp, n, hLt, rfl, ?_⟩
    intro m hm
    have hNe := List.pairwise_iff_getElem.1 h.names m n (by simp; omega) (by simp; omega) hm
    simpa using hNe

theorem IsCoherent.find?_eq_none_iff (h : c.IsCoherent) {name : String} :
    c.find? name = none ↔ name ∉ c.fields.map FieldInfo.name := by
  rw [h.find?_eq, List.find?_eq_none]
  simp

/-- A new description stands at the end. -/
theorem IsCoherent.register_of_none (h : c.IsCoherent) {info : FieldInfo}
    (hNone : c.find? info.name = none) :
    ∃ c', c.register info = .ok (.inserted, c') ∧ c'.IsCoherent ∧
      c'.fields = c.fields ++ [info] := by
  refine ⟨{ c with
    fields := c.fields ++ [info]
    byName := c.byName.insert info.name c.fields.length }, ?_, ⟨?_, ?_⟩, rfl⟩
  · simp only [register, hNone]
  · intro name
    have hFresh := h.find?_eq_none_iff.1 hNone
    simp only [Index.get?_insert, List.findIdx?_append, h.byName]
    by_cases hSame : info.name = name
    · subst hSame
      have hAbsent : c.fields.findIdx? (fun f => f.name == info.name) = none := by
        refine List.findIdx?_eq_none_iff.2 fun f hf => ?_
        rw [beq_eq_false_iff_ne]
        intro hEq
        exact hFresh (List.mem_map.2 ⟨f, hf, hEq⟩)
      simp [hAbsent]
    · simp [hSame]
  · rw [List.map_append, List.nodup_append]
    refine ⟨h.names, by simp, ?_⟩
    intro a ha b hb hSame
    simp only [List.map_cons, List.map_nil, List.mem_singleton] at hb
    exact h.find?_eq_none_iff.1 hNone (hb ▸ hSame ▸ ha)

/-- What registering can do: add a new description, or confirm one. -/
theorem IsCoherent.register_ok (h : c.IsCoherent) {info : FieldInfo} {r : Registration}
    {c' : Catalog} (hOk : c.register info = .ok (r, c')) :
    (r = .inserted ∧ c'.IsCoherent ∧ c'.fields = c.fields ++ [info] ∧
      c.find? info.name = none) ∨
    (r = .confirmed ∧ c' = c ∧ ∃ registered, c.find? info.name = some registered ∧
      registered.agreesWith info = true) := by
  cases hFind : c.find? info.name with
  | none =>
      obtain ⟨c'', hRegister, hCoherent, hFields⟩ := h.register_of_none hFind
      rw [hRegister] at hOk
      cases hOk
      exact Or.inl ⟨rfl, hCoherent, hFields, rfl⟩
  | some registered =>
      simp only [register, hFind, FieldInfo.checkCompatible] at hOk
      by_cases hAgrees : registered.agreesWith info = true
      · rw [if_pos hAgrees] at hOk
        cases hOk
        exact Or.inr ⟨rfl, rfl, registered, rfl, hAgrees⟩
      · rw [if_neg hAgrees] at hOk
        cases hOk

/-- Setting metainfo changes the metainfo of one description. -/
theorem IsCoherent.addMetainfo_ok (h : c.IsCoherent) {name key : String} {value : MetaValue}
    {c' : Catalog} (hOk : c.addMetainfo name key value = .ok c') :
    c'.IsCoherent ∧ ∃ i, c.fields.findIdx? (fun f => f.name == name) = some i ∧
      c'.fields = c.fields.modify i fun info =>
        { info with metainfo := info.metainfo.set key value } := by
  unfold addMetainfo at hOk
  split at hOk
  · cases hOk
  · next i hName =>
      cases hOk
      -- setting metainfo renames no field, so the index by name still fits
      have hNames : (c.fields.modify i fun info =>
          { info with metainfo := info.metainfo.set key value }).map FieldInfo.name =
          c.fields.map FieldInfo.name := by
        refine List.ext_getElem? fun n => ?_
        simp only [List.getElem?_map, List.getElem?_modify, Option.map_eq_map, Option.map_map]
        congr 1
        funext info
        simp only [Function.comp_apply]
        split <;> rfl
      refine ⟨⟨?_, ?_⟩, i, by rw [← h.byName, hName], rfl⟩
      · intro probe
        have hSplit : ∀ fields : List FieldInfo,
            fields.findIdx? (fun f => f.name == probe) =
              (fields.map FieldInfo.name).findIdx? fun n => n == probe := by
          intro fields
          rw [List.findIdx?_map]
          rfl
        simp only [h.byName, hSplit, hNames]
      · rw [hNames]
        exact h.names

/-- Noting the presence of a registered field changes no description. -/
theorem recordPresence_of_find? {name : String} {info : FieldInfo} (h : c.find? name = some info)
    (savepoint : Savepoint) :
    ∃ c', c.recordPresence savepoint name = .ok c' ∧ c'.fields = c.fields ∧
      c'.byName = c.byName := by
  have hKnown : c.byName.contains name = true := by
    rw [Index.contains_eq_isSome]
    unfold Catalog.find? at h
    cases hGet : c.byName.get? name with
    | none => simp [hGet] at h
    | some i => rfl
  simp only [recordPresence, hKnown, if_true]
  split
  · exact ⟨c, rfl, rfl, rfl⟩
  · exact ⟨_, rfl, rfl, rfl⟩

/-- Coherence is about descriptions and their names only. -/
theorem IsCoherent.congr (h : c.IsCoherent) {c' : Catalog} (hFields : c'.fields = c.fields)
    (hByName : c'.byName = c.byName) : c'.IsCoherent where
  byName name := by
    rw [hByName, hFields]
    exact h.byName name
  names := by
    rw [hFields]
    exact h.names

end FieldArchive.Catalog

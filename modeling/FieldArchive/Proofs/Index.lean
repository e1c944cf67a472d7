import FieldArchive.Index
import Mathlib.Data.List.Induction
import Mathlib.Data.List.Nodup

/-!
# Lookups in an index

What a lookup finds after an insertion, after a removal, and in an index whose
pairs are known.  The key comparison is only assumed to be an equivalence, since
savepoints are compared up to the order of their metainfo.
-/

namespace FieldArchive.Index

variable {κ α : Type} [BEq κ]

theorem get?_cons (k : κ) (v : α) (pairs : List (κ × α)) (key : κ) :
    (⟨(k, v) :: pairs⟩ : Index κ α).get? key =
      if k == key then some v else (⟨pairs⟩ : Index κ α).get? key := by
  simp only [get?, List.find?_cons]
  cases k == key <;> rfl

/-- A lookup misses exactly if no key matches. -/
theorem get?_eq_none_iff {index : Index κ α} {key : κ} :
    index.get? key = none ↔ ∀ k ∈ index.keys, (k == key) = false := by
  obtain ⟨pairs⟩ := index
  simp [get?, keys]

/-- A lookup returns the value of a pair whose key matches. -/
theorem exists_pair_of_get? {index : Index κ α} {key : κ} {value : α}
    (h : index.get? key = some value) : ∃ k, (k, value) ∈ index.pairs ∧ (k == key) = true := by
  obtain ⟨pair, hFind, rfl⟩ := Option.map_eq_some_iff.1 h
  have hMatch : (pair.1 == key) = true := by simpa using List.find?_some hFind
  exact ⟨pair.1, List.mem_of_find?_eq_some hFind, hMatch⟩

/-- Inserting under a key that no key matches adds a pair at the end. -/
theorem insert_of_get?_eq_none {index : Index κ α} {key : κ} (h : index.get? key = none)
    (value : α) : index.insert key value = ⟨index.pairs ++ [(key, value)]⟩ := by
  obtain ⟨pairs⟩ := index
  simp only [insert, mk.injEq]
  induction pairs with
  | nil => rfl
  | cons pair rest ih =>
      obtain ⟨k, v⟩ := pair
      rw [get?_cons] at h
      cases hk : k == key with
      | true => simp [hk] at h
      | false =>
          simp only [hk, Bool.false_eq_true, if_false] at h
          simp [insertPair, hk, ih h]

/-- Inserting brings in no other value. -/
theorem mem_pairs_of_insert {index : Index κ α} {key : κ} {value : α} {pair : κ × α}
    (h : pair ∈ (index.insert key value).pairs) : pair ∈ index.pairs ∨ pair.2 = value := by
  obtain ⟨pairs⟩ := index
  simp only [insert] at h ⊢
  induction pairs with
  | nil => exact Or.inr (by rw [List.mem_singleton.1 h])
  | cons first rest ih =>
      obtain ⟨k, v⟩ := first
      unfold insertPair at h
      split at h
      · rcases List.mem_cons.1 h with rfl | hRest
        · exact Or.inr rfl
        · exact Or.inl (List.mem_cons_of_mem _ hRest)
      · rcases List.mem_cons.1 h with rfl | hRest
        · exact Or.inl List.mem_cons_self
        · exact (ih hRest).imp_left (List.mem_cons_of_mem _)

section Equivalence

variable [EquivBEq κ]

/-- Interchangeable keys find the same value. -/
theorem get?_congr (index : Index κ α) {key key' : κ} (h : (key == key') = true) :
    index.get? key = index.get? key' := by
  have hSame : ∀ k : κ, (k == key) = (k == key') := fun k => BEq.congr_right h
  simp only [get?, hSame]

theorem get?_insert (index : Index κ α) (key probe : κ) (value : α) :
    (index.insert key value).get? probe =
      if key == probe then some value else index.get? probe := by
  obtain ⟨pairs⟩ := index
  simp only [insert]
  induction pairs with
  | nil => simp [insertPair, get?_cons]
  | cons pair rest ih =>
      obtain ⟨k, v⟩ := pair
      simp only [insertPair]
      cases hk : k == key with
      | true =>
          have hSame : (k == probe) = (key == probe) := BEq.congr_left hk
          simp only [if_true, get?_cons, hSame]
          cases key == probe <;> rfl
      | false =>
          simp only [Bool.false_eq_true, if_false, get?_cons, ih]
          cases hp : k == probe with
          | false => rfl
          | true =>
              -- the probe matches another key than the inserted one
              have hOther : (key == probe) = false := by
                cases hq : key == probe with
                | false => rfl
                | true =>
                    have : (k == key) = true := BEq.trans hp (BEq.symm hq)
                    rw [hk] at this
                    contradiction
              simp [hOther]

end Equivalence

section Lawful

variable [LawfulBEq κ]

/-- In an index with distinct keys a lookup finds every pair. -/
theorem get?_eq_some_of_mem {index : Index κ α} (h : index.keys.Nodup) {key : κ} {value : α}
    (hMem : (key, value) ∈ index.pairs) : index.get? key = some value := by
  obtain ⟨pairs⟩ := index
  induction pairs with
  | nil => cases hMem
  | cons pair rest ih =>
      obtain ⟨k, v⟩ := pair
      simp only [keys, List.map_cons, List.nodup_cons] at h
      rw [get?_cons]
      rcases List.mem_cons.1 hMem with hHead | hTail
      · obtain ⟨rfl, rfl⟩ := Prod.mk.inj hHead
        simp
      · have hNe : k ≠ key := by
          rintro rfl
          exact h.1 (List.mem_map.2 ⟨_, hTail, rfl⟩)
        rw [if_neg (by simpa using hNe)]
        exact ih h.2 hTail

theorem mem_pairs_of_get? {index : Index κ α} {key : κ} {value : α}
    (h : index.get? key = some value) : (key, value) ∈ index.pairs := by
  obtain ⟨k, hMem, hMatch⟩ := exists_pair_of_get? h
  rwa [← eq_of_beq hMatch]

/-- In an index with distinct keys a lookup says which pair has the key. -/
theorem get?_eq_some_iff_mem {index : Index κ α} (h : index.keys.Nodup) {key : κ} {value : α} :
    index.get? key = some value ↔ (key, value) ∈ index.pairs :=
  ⟨mem_pairs_of_get?, get?_eq_some_of_mem h⟩

theorem get?_eq_none_of_not_mem {index : Index κ α} {key : κ} (h : key ∉ index.keys) :
    index.get? key = none := by
  refine get?_eq_none_iff.2 fun k hk => ?_
  rw [beq_eq_false_iff_ne]
  rintro rfl
  exact h hk

/-- The order of distinct keys does not count. -/
theorem get?_eq_of_perm {index index' : Index κ α} (h : index.keys.Nodup)
    (hPerm : index.pairs.Perm index'.pairs) (key : κ) : index.get? key = index'.get? key := by
  have h' : index'.keys.Nodup := (hPerm.map Prod.fst).nodup_iff.1 h
  refine Option.ext fun value => ?_
  rw [get?_eq_some_iff_mem h, get?_eq_some_iff_mem h']
  exact hPerm.mem_iff

/-- Removing a key of an index with distinct keys affects lookups of that key only. -/
theorem get?_erase {index : Index κ α} (h : index.keys.Nodup) (key probe : κ) :
    (index.erase key).get? probe = if key == probe then none else index.get? probe := by
  obtain ⟨pairs⟩ := index
  simp only [erase]
  induction pairs with
  | nil => simp [get?]
  | cons pair rest ih =>
      obtain ⟨k, v⟩ := pair
      simp only [keys, List.map_cons, List.nodup_cons] at h
      by_cases hk : k = key
      · subst hk
        rw [List.eraseP_cons_of_pos (by simp), get?_cons]
        by_cases hp : k = probe
        · subst hp
          have hNone : (⟨rest⟩ : Index κ α).get? k = none := get?_eq_none_of_not_mem h.1
          simp [hNone]
        · simp [hp]
      · rw [List.eraseP_cons_of_neg (by simpa using hk), get?_cons, get?_cons, ih h.2]
        by_cases hp : k = probe
        · subst hp
          simp [Ne.symm hk]
        · simp [hp]

/-- An index with distinct keys is determined by its keys and the lookups of these. -/
theorem pairs_eq_filterMap {index : Index κ α} (h : index.keys.Nodup) :
    index.pairs =
      index.keys.filterMap fun key => (index.get? key).map fun value => (key, value) := by
  obtain ⟨pairs⟩ := index
  induction pairs with
  | nil => rfl
  | cons pair rest ih =>
      obtain ⟨k, v⟩ := pair
      simp only [keys, List.map_cons, List.nodup_cons] at h ih ⊢
      have hHead : (⟨(k, v) :: rest⟩ : Index κ α).get? k = some v := by simp [get?_cons]
      have hTail : ∀ key ∈ rest.map Prod.fst,
          (⟨(k, v) :: rest⟩ : Index κ α).get? key = (⟨rest⟩ : Index κ α).get? key := by
        intro key hMem
        have hNe : k ≠ key := by
          rintro rfl
          exact h.1 hMem
        rw [get?_cons, if_neg (by simpa using hNe)]
      rw [List.filterMap_cons, hHead]
      refine congrArg ((k, v) :: ·) ((ih h.2).trans (List.filterMap_congr fun key hMem => ?_))
      rw [hTail key hMem]

theorem keys_erase {index : Index κ α} (h : index.keys.Nodup) (key : κ) :
    (index.erase key).keys = index.keys.filter (· != key) := by
  rw [← List.Nodup.erase_eq_filter h, List.erase_eq_eraseP']
  show (index.pairs.eraseP fun pair => pair.1 == key).map Prod.fst =
    (index.pairs.map Prod.fst).eraseP (· == key)
  rw [List.eraseP_map]
  rfl

end Lawful

/-! ## Lists without repetitions -/

section Repetitions

variable {β : Type} [BEq β] [LawfulBEq β] {xs : List β} {x : β}

theorem eraseDups_concat_of_mem (h : x ∈ xs) : (xs ++ [x]).eraseDups = xs.eraseDups := by
  have hNone : [x].removeAll xs = [] := by
    simp only [List.removeAll, List.filter_cons, List.elem_eq_contains,
      List.contains_iff_mem.2 h, Bool.not_true, Bool.false_eq_true, if_false, List.filter_nil]
  rw [List.eraseDups_append, hNone]
  simp

theorem eraseDups_concat_of_not_mem (h : x ∉ xs) :
    (xs ++ [x]).eraseDups = xs.eraseDups ++ [x] := by
  have hAbsent : xs.contains x = false := by
    rw [← Bool.not_eq_true, List.contains_iff_mem]
    exact h
  have hNew : [x].removeAll xs = [x] := by
    simp only [List.removeAll, List.filter_cons, List.elem_eq_contains, hAbsent, Bool.not_false,
      if_true, List.filter_nil]
  rw [List.eraseDups_append, hNew]
  rfl

/-- A value at the end counts if it does not occur before. -/
theorem eraseDups_concat (xs : List β) (x : β) :
    (xs ++ [x]).eraseDups = if x ∈ xs then xs.eraseDups else xs.eraseDups ++ [x] := by
  split
  · exact eraseDups_concat_of_mem ‹_›
  · exact eraseDups_concat_of_not_mem ‹_›

/-- Values may be left out before or after. -/
theorem eraseDups_filter (p : β → Bool) (xs : List β) :
    (xs.filter p).eraseDups = xs.eraseDups.filter p := by
  induction xs using List.reverseRecOn with
  | nil => rfl
  | append_singleton xs x ih =>
      rw [List.filter_append, eraseDups_concat]
      cases hp : p x with
      | false =>
          have hNone : [x].filter p = [] := by simp [hp]
          rw [hNone, List.append_nil, ih]
          split
          · rfl
          · rw [List.filter_append, hNone, List.append_nil]
      | true =>
          have hOne : [x].filter p = [x] := by simp [hp]
          have hMem : x ∈ xs.filter p ↔ x ∈ xs := by simp [hp]
          rw [hOne, eraseDups_concat, ih]
          simp only [hMem]
          split
          · rfl
          · rw [List.filter_append, hOne]

end Repetitions
end FieldArchive.Index

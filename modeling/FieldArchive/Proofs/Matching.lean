import Mathlib.Data.List.Forall2

/-!
# Lists matched item by item

Two lists match if their items are related one by one.  Lists that are read item by
item match what they are read as.
-/

namespace FieldArchive

variable {α β : Type} {R : α → β → Prop} {xs : List α} {ys : List β}

theorem exists_right_of_forall₂ (h : List.Forall₂ R xs ys) {a : α} (ha : a ∈ xs) :
    ∃ b ∈ ys, R a b := by
  induction h with
  | nil => cases ha
  | cons hHead _ ih =>
      rcases List.mem_cons.1 ha with rfl | hTail
      · exact ⟨_, List.mem_cons_self, hHead⟩
      · obtain ⟨b, hb, hab⟩ := ih hTail
        exact ⟨b, List.mem_cons_of_mem _ hb, hab⟩

theorem exists_left_of_forall₂ (h : List.Forall₂ R xs ys) {b : β} (hb : b ∈ ys) :
    ∃ a ∈ xs, R a b :=
  exists_right_of_forall₂ h.flip hb

/-- A list matches what it is read as. -/
theorem forall₂_of_mapM {f : α → Option β} (h : xs.mapM f = some ys) :
    List.Forall₂ (fun a b => f a = some b) xs ys := by
  induction xs generalizing ys with
  | nil =>
      cases h
      exact .nil
  | cons a xs ih =>
      simp only [List.mapM_cons, Option.bind_eq_bind, Option.bind_eq_some_iff, Option.pure_def,
        Option.some.injEq] at h
      obtain ⟨b, hHead, rest, hRest, rfl⟩ := h
      exact .cons hHead (ih hRest)

/-- If each item is read, so is the list. -/
theorem exists_mapM {f : α → Option β} {P : β → Prop}
    (h : ∀ a ∈ xs, ∃ b, f a = some b ∧ P b) : ∃ ys, xs.mapM f = some ys ∧ ∀ b ∈ ys, P b := by
  induction xs with
  | nil => exact ⟨[], rfl, fun b hb => by cases hb⟩
  | cons a xs ih =>
      obtain ⟨⟨b, hHead, hb⟩, hRest⟩ := List.forall_mem_cons.1 h
      obtain ⟨ys, hTail, hys⟩ := ih hRest
      exact ⟨b :: ys, by simp [hHead, hTail], List.forall_mem_cons.2 ⟨hb, hys⟩⟩

/-- If a list is read as an interchangeable one, so is each of its items. -/
theorem forall_of_mapM_beq [BEq α] {again : List α} {f : α → Option α} {P : α → Prop}
    (h : xs.mapM f = some again) (hSame : (again == xs) = true)
    (hItem : ∀ a b, f a = some b → (b == a) = true → P a) : ∀ a ∈ xs, P a := by
  have hMatch := forall₂_of_mapM h
  clear h
  induction hMatch with
  | nil =>
      intro a ha
      cases ha
  | cons hHead _ ih =>
      rw [List.cons_beq_cons, Bool.and_eq_true] at hSame
      rw [List.forall_mem_cons]
      exact ⟨hItem _ _ hHead hSame.1, ih hSame.2⟩

end FieldArchive

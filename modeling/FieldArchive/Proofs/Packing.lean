import FieldArchive.Proofs.Index
import FieldArchive.Snapshot
import Mathlib.Algebra.GroupWithZero.Nat
import Mathlib.Data.List.Infix

/-!
# Payloads in a data file

A data file holds each distinct payload once, in the order in which the payloads
were first written.  This module says what the contents of such a file are and
where a payload stands in it, and that both stay when more payloads are written.
The main results are `drop_take_content`, which reads a payload back from its
range, and `extentOf_eq_iff`: payloads share a range if and only if they are
equal.  The empty payload begins where the next one begins, but is told apart
from it by its length.
-/

namespace FieldArchive.Packing

/-- The distinct payloads in the order in which they were first written. -/
def blocks (payloads : List (List UInt8)) : List (List UInt8) := payloads.eraseDups

/-- The contents of a data file that holds the payloads. -/
def content (payloads : List (List UInt8)) : List UInt8 := (blocks payloads).flatten

/-- Where a payload begins: after all blocks before it. -/
def offsetOf (payloads : List (List UInt8)) (p : List UInt8) : Nat :=
  ((blocks payloads).takeWhile fun b => b != p).flatten.length

/-- The range of a payload. -/
def extentOf (payloads : List (List UInt8)) (p : List UInt8) : Extent :=
  ⟨offsetOf payloads p, p.length⟩

variable {xs ys : List (List UInt8)} {p q : List UInt8}

@[simp] theorem content_nil : content [] = [] := rfl

theorem mem_blocks : p ∈ blocks xs ↔ p ∈ xs := List.mem_eraseDups

/-! ## Writing more payloads -/

/-- What is written later comes after what is there. -/
theorem blocks_append (xs ys : List (List UInt8)) :
    blocks (xs ++ ys) = blocks xs ++ (ys.removeAll xs).eraseDups :=
  List.eraseDups_append

theorem blocks_append_of_mem (h : p ∈ xs) : blocks (xs ++ [p]) = blocks xs :=
  Index.eraseDups_concat_of_mem h

theorem blocks_append_of_not_mem (h : p ∉ xs) : blocks (xs ++ [p]) = blocks xs ++ [p] :=
  Index.eraseDups_concat_of_not_mem h

theorem content_append_of_mem (h : p ∈ xs) : content (xs ++ [p]) = content xs := by
  rw [content, blocks_append_of_mem h, content]

theorem content_append_of_not_mem (h : p ∉ xs) : content (xs ++ [p]) = content xs ++ p := by
  rw [content, blocks_append_of_not_mem h, List.flatten_append, content]
  simp

theorem content_isPrefix_append (xs ys : List (List UInt8)) :
    content xs <+: content (xs ++ ys) := by
  rw [content, content, blocks_append, List.flatten_append]
  exact List.prefix_append _ _

/-- A payload that is there keeps its place. -/
theorem offsetOf_append_of_mem (h : p ∈ xs) (ys : List (List UInt8)) :
    offsetOf (xs ++ ys) p = offsetOf xs p := by
  have hStop : ∀ bs rest : List (List UInt8), p ∈ bs →
      (bs ++ rest).takeWhile (fun b => b != p) = bs.takeWhile fun b => b != p := by
    intro bs rest hp
    induction bs with
    | nil => cases hp
    | cons b bs ih =>
        by_cases hSame : b = p
        · simp [hSame]
        · have hRest : p ∈ bs := by
            rcases List.mem_cons.1 hp with rfl | hRest
            · contradiction
            · exact hRest
          simp [hSame, ih hRest]
  rw [offsetOf, offsetOf, blocks_append, hStop _ _ (mem_blocks.2 h)]

theorem extentOf_append_of_mem (h : p ∈ xs) (ys : List (List UInt8)) :
    extentOf (xs ++ ys) p = extentOf xs p := by
  rw [extentOf, extentOf, offsetOf_append_of_mem h]

/-- A new payload begins at the end of the contents. -/
theorem offsetOf_append_self (h : p ∉ xs) : offsetOf (xs ++ [p]) p = (content xs).length := by
  have hAll : ∀ b ∈ blocks xs, (b != p) = true := by
    intro b hb
    have hNe : b ≠ p := by
      rintro rfl
      exact h (mem_blocks.1 hb)
    simpa using hNe
  rw [offsetOf, blocks_append_of_not_mem h, List.takeWhile_append_of_pos hAll]
  simp [content]

theorem extentOf_append_self (h : p ∉ xs) :
    extentOf (xs ++ [p]) p = ⟨(content xs).length, p.length⟩ := by
  rw [extentOf, offsetOf_append_self h]

/-! ## Reading payloads -/

/-- Contents split at a payload. -/
theorem content_eq_append (h : p ∈ xs) :
    ∃ front back, content xs = front ++ p ++ back ∧ offsetOf xs p = front.length := by
  have hSplit : ∀ bs : List (List UInt8), p ∈ bs → ∃ back,
      bs.flatten = (bs.takeWhile fun b => b != p).flatten ++ p ++ back := by
    intro bs hp
    induction bs with
    | nil => cases hp
    | cons b bs ih =>
        by_cases hSame : b = p
        · exact ⟨bs.flatten, by simp [hSame]⟩
        · have hRest : p ∈ bs := by
            rcases List.mem_cons.1 hp with rfl | hRest
            · contradiction
            · exact hRest
          obtain ⟨back, hBack⟩ := ih hRest
          refine ⟨back, ?_⟩
          simp [hSame, hBack]
  obtain ⟨back, hBack⟩ := hSplit (blocks xs) (mem_blocks.2 h)
  exact ⟨_, back, hBack, rfl⟩

/-- The range of a payload holds the payload. -/
theorem drop_take_content (h : p ∈ xs) :
    ((content xs).drop (offsetOf xs p)).take p.length = p := by
  obtain ⟨front, back, hContent, hOffset⟩ := content_eq_append h
  rw [hContent, hOffset, List.append_assoc, List.drop_left, List.take_left]

/-- The range of a payload ends within the contents. -/
theorem offsetOf_add_length_le (h : p ∈ xs) :
    offsetOf xs p + p.length ≤ (content xs).length := by
  obtain ⟨front, back, hContent, hOffset⟩ := content_eq_append h
  rw [hContent, hOffset, List.length_append, List.length_append]
  omega

/-- Payloads share a range if and only if they are equal. -/
theorem extentOf_eq_iff (hp : p ∈ xs) (hq : q ∈ xs) :
    extentOf xs p = extentOf xs q ↔ p = q := by
  constructor
  · intro hSame
    obtain ⟨hOffset, hLength⟩ := Extent.mk.inj hSame
    rw [← drop_take_content hp, hOffset, hLength, drop_take_content hq]
  · rintro rfl
    rfl

/-- The contents are as long as the distinct payloads together. -/
theorem length_content (xs : List (List UInt8)) :
    (content xs).length = ((blocks xs).map List.length).sum :=
  List.length_flatten

end FieldArchive.Packing

import FieldArchive.Proofs.Codec
import Mathlib.Algebra.BigOperators.Ring.List
import Mathlib.Data.List.TakeWhile

/-!
# Sizes of described fields

Sizes are computed with a limit, and a size above it is cut off.  For a description
that passes the check nothing was cut off: its number of elements is the product of
its extents, however large the products on the way could have become.

The converse does not hold.  The product is taken from the left, and it stops as soon as
it is above the limit, also where an extent of zero that is still to come would have made
it zero.  `FieldInfo.size_validation_exact` says what passes the check: descriptions whose
size can be addressed, unless the extents before the first zero are too large together.
So the order of the extents counts, but only for fields without elements.
-/

namespace FieldArchive.FieldInfo

variable {f : FieldInfo}

/-- The number of elements as a product without a limit. -/
def volume (f : FieldInfo) : Nat := (f.dims.map UInt64.toNat).prod

/-- The product of the extents before the first that is zero. -/
def leadingVolume (f : FieldInfo) : Nat :=
  ((f.dims.takeWhile fun d => d != 0).map UInt64.toNat).prod

/-- The parts of a description fit together, and the size that they say, as a product
without a limit, can be addressed. -/
structure IsProper (f : FieldInfo) : Prop where
  name : f.name ≠ ""
  halos : f.halos.length = f.dims.length
  byteWidth : f.byteWidth.toNat = f.elementType.byteWidth
  size : f.volume * f.byteWidth.toNat ≤ addressLimit

/-- Products from the left that stay within the limit are exact. -/
theorem eq_of_foldlM_checkedMul {dims : List UInt64} {n count : Nat}
    (h : dims.foldlM (fun n d => checkedMul n d.toNat) n = some count) :
    count = n * (dims.map UInt64.toNat).prod := by
  induction dims generalizing n with
  | nil =>
      cases h
      simp
  | cons d dims ih =>
      obtain ⟨next, hMul, hRest⟩ := Option.bind_eq_some_iff.1 h
      rw [ih hRest, checkedMul_eq_some hMul, List.map_cons, List.prod_cons, Nat.mul_assoc]

theorem exists_size_of_validate (h : f.validate = .ok ()) :
    ∃ size, f.checkedByteSize = some size := by
  unfold validate at h
  split at h
  · cases h
  split at h
  · cases h
  split at h
  · cases h
  cases hSize : f.checkedByteSize with
  | none => simp [hSize] at h
  | some size => exact ⟨size, rfl⟩

/-- A valid description has as many elements as the product of its extents says. -/
theorem elementCount_of_validate (h : f.validate = .ok ()) : f.elementCount = f.volume := by
  obtain ⟨size, hSize⟩ := exists_size_of_validate h
  obtain ⟨count, hCount, -⟩ := Option.bind_eq_some_iff.1 hSize
  rw [elementCount, hCount, Option.getD_some, eq_of_foldlM_checkedMul hCount, Nat.one_mul, volume]

/-! ## Products on the way -/

theorem foldlM_checkedMul_zero (dims : List UInt64) :
    dims.foldlM (fun n d => checkedMul n d.toNat) 0 = some 0 := by
  induction dims with
  | nil => rfl
  | cons d dims ih =>
      have hStep : checkedMul 0 d.toNat = some 0 := by simp [checkedMul]
      rw [List.foldlM_cons, hStep]
      exact ih

/-- A product of extents that are not zero is not zero. -/
theorem prod_takeWhile_pos (dims : List UInt64) :
    0 < ((dims.takeWhile fun d => d != 0).map UInt64.toNat).prod := by
  refine Nat.pos_of_ne_zero (List.prod_ne_zero ?_)
  intro hZero
  obtain ⟨d, hd, hNat⟩ := List.mem_map.1 hZero
  have hNe : d ≠ 0 := by simpa using List.mem_takeWhile_imp hd
  exact hNe (UInt64.toNat_inj.1 hNat)

/-- The product from the left is completed if and only if it stays within the limit up to
the first zero.  It grows up to there and is zero from there on. -/
theorem foldlM_checkedMul_eq_some_iff {dims : List UInt64} {n count : Nat} (hPos : 0 < n)
    (hFits : n ≤ addressLimit) :
    dims.foldlM (fun n d => checkedMul n d.toNat) n = some count ↔
      count = n * (dims.map UInt64.toNat).prod ∧
        n * ((dims.takeWhile fun d => d != 0).map UInt64.toNat).prod ≤ addressLimit := by
  induction dims generalizing n with
  | nil => simp [hFits, eq_comm]
  | cons d dims ih =>
      rw [List.foldlM_cons]
      by_cases hZero : d = 0
      · -- the product is zero from here on, whatever follows
        subst hZero
        have hStep : checkedMul n (0 : UInt64).toNat = some 0 := by simp [checkedMul]
        rw [hStep]
        simp [foldlM_checkedMul_zero, hFits, eq_comm]
      · have hDim : 0 < d.toNat := UInt64.pos_iff_ne_zero.2 hZero
        rw [List.takeWhile_cons_of_pos (by simpa using hZero)]
        simp only [List.map_cons, List.prod_cons, ← Nat.mul_assoc]
        by_cases hNext : n * d.toNat ≤ addressLimit
        · have hStep : checkedMul n d.toNat = some (n * d.toNat) := by
            simp only [checkedMul, hNext, if_true]
          rw [hStep]
          exact ih (Nat.mul_pos hPos hDim) hNext
        · have hStep : checkedMul n d.toNat = none := by simp only [checkedMul, hNext, if_false]
          rw [hStep]
          -- what follows up to the first zero does not make the product smaller
          have hLarge := Nat.le_mul_of_pos_right (n * d.toNat) (prod_takeWhile_pos dims)
          constructor
          · intro h
            cases h
          · rintro ⟨-, hLe⟩
            omega

theorem checkedElementCount_eq_some_iff {count : Nat} :
    f.checkedElementCount = some count ↔ count = f.volume ∧ f.leadingVolume ≤ addressLimit := by
  have hOne : 1 ≤ addressLimit := by decide
  rw [checkedElementCount, foldlM_checkedMul_eq_some_iff Nat.one_pos hOne, Nat.one_mul, Nat.one_mul]
  rfl

theorem checkedByteSize_eq_some_iff {size : Nat} :
    f.checkedByteSize = some size ↔ size = f.volume * f.byteWidth.toNat ∧
      size ≤ addressLimit ∧ f.leadingVolume ≤ addressLimit := by
  simp only [checkedByteSize, Option.bind_eq_bind, Option.bind_eq_some_iff,
    checkedElementCount_eq_some_iff]
  constructor
  · rintro ⟨_, ⟨rfl, hLeading⟩, hMul⟩
    obtain rfl := checkedMul_eq_some hMul
    refine ⟨rfl, ?_, hLeading⟩
    unfold checkedMul at hMul
    split at hMul
    · assumption
    · cases hMul
  · rintro ⟨rfl, hLe, hLeading⟩
    exact ⟨f.volume, ⟨rfl, hLeading⟩, by simp only [checkedMul, hLe, if_true]⟩

/-! ## What passes the check -/

/-- A description passes the check if and only if its parts fit together, its size can be
addressed, and so can the extents before the first zero. -/
theorem validate_eq_ok_iff :
    f.validate = .ok () ↔ f.IsProper ∧ f.leadingVolume ≤ addressLimit := by
  constructor
  · intro h
    obtain ⟨size, hSize⟩ := exists_size_of_validate h
    obtain ⟨rfl, hLe, hLeading⟩ := checkedByteSize_eq_some_iff.1 hSize
    -- the name, the halos and the width are checked before the size
    unfold validate at h
    split at h
    · cases h
    next hName =>
      split at h
      · cases h
      next hHalos =>
        split at h
        · cases h
        next hWidth =>
          exact ⟨⟨by simpa using hName, Decidable.of_not_not hHalos,
            Decidable.of_not_not hWidth, hLe⟩, hLeading⟩
  · rintro ⟨h, hLeading⟩
    have hSize := checkedByteSize_eq_some_iff.2 ⟨rfl, h.size, hLeading⟩
    simp [validate, h.name, h.halos, h.byteWidth, hSize]

/-- Without an extent of zero all extents are before the first zero. -/
theorem leadingVolume_eq_volume (h : 0 ∉ f.dims) : f.leadingVolume = f.volume := by
  have hAll : f.dims.takeWhile (fun d => d != 0) = f.dims := by
    rw [List.takeWhile_eq_self_iff]
    intro d hd
    simp only [bne_iff_ne, ne_eq]
    rintro rfl
    exact h hd
  rw [leadingVolume, hAll, volume]

theorem volume_eq_zero (h : 0 ∈ f.dims) : f.volume = 0 :=
  List.prod_eq_zero (List.mem_map.2 ⟨0, h, rfl⟩)

theorem IsProper.leadingVolume_le (h : f.IsProper) (hNone : 0 ∉ f.dims) :
    f.leadingVolume ≤ addressLimit := by
  have hWidth : 0 < f.byteWidth.toNat := by
    rw [h.byteWidth]
    cases f.elementType <;> decide
  calc
    f.leadingVolume = f.volume := leadingVolume_eq_volume hNone
    _ ≤ f.volume * f.byteWidth.toNat := Nat.le_mul_of_pos_right _ hWidth
    _ ≤ addressLimit := h.size

/-- Whether the parts fit together does not depend on the order of the extents. -/
theorem IsProper.of_perm (h : f.IsProper) {dims : List UInt64} (hPerm : dims.Perm f.dims) :
    ({ f with dims := dims } : FieldInfo).IsProper where
  name := h.name
  halos := h.halos.trans hPerm.length_eq.symm
  byteWidth := h.byteWidth
  size := by
    have hVolume : ({ f with dims := dims } : FieldInfo).volume = f.volume :=
      (hPerm.map UInt64.toNat).prod_eq
    rw [hVolume]
    exact h.size

/-- With a zero in front nothing comes before the first zero. -/
theorem exists_perm_of_isProper (h : f.IsProper) : ∃ dims : List UInt64,
    dims.Perm f.dims ∧ ({ f with dims := dims } : FieldInfo).validate = .ok () := by
  by_cases hZero : 0 ∈ f.dims
  · have hPerm : (0 :: f.dims.erase 0).Perm f.dims := (List.perm_cons_erase hZero).symm
    refine ⟨0 :: f.dims.erase 0, hPerm, validate_eq_ok_iff.2 ⟨h.of_perm hPerm, ?_⟩⟩
    show 1 ≤ addressLimit
    decide
  · exact ⟨f.dims, List.Perm.refl _, validate_eq_ok_iff.2 ⟨h, h.leadingVolume_le hZero⟩⟩

/-- What a description of a proper field reports that is refused nevertheless. -/
theorem IsProper.of_refused (h : f.IsProper) (hRefused : f.validate ≠ .ok ()) :
    f.volume = 0 ∧ f.validate = .error (.overflow f.name f.dims) ∧
      f.elementCount = addressLimit ∧ f.byteSize = addressLimit := by
  have hLeading : ¬ f.leadingVolume ≤ addressLimit :=
    fun hLe => hRefused (validate_eq_ok_iff.2 ⟨h, hLe⟩)
  have hZero : 0 ∈ f.dims := by
    by_contra hNone
    exact hLeading (h.leadingVolume_le hNone)
  have hCount : f.checkedElementCount = none :=
    Option.eq_none_iff_forall_ne_some.2 fun count hCount =>
      hLeading (checkedElementCount_eq_some_iff.1 hCount).2
  have hSize : f.checkedByteSize = none := by simp [checkedByteSize, hCount]
  refine ⟨volume_eq_zero hZero, ?_, ?_, ?_⟩
  · simp [validate, h.name, h.halos, h.byteWidth, hSize]
  · simp only [elementCount, hCount, Option.getD_none]
  · simp only [byteSize, hSize, Option.getD_none]

/-- What the check of sizes accepts, and what the sizes are then.

A description passes if and only if its parts fit together, its size without a limit can
be addressed, and the extents before the first zero can be multiplied within the limit.
If no extent is zero the last condition follows from the others, and the order of the
extents makes no difference.  In general the first two conditions say that the extents
pass in some order.  Sizes of descriptions that pass are exact products.  A description
that is refused for its last condition alone is one of a field without elements, is called
too large, and reports the largest size. -/
theorem size_validation_exact (f : FieldInfo) :
    (f.validate = .ok () ↔ f.IsProper ∧ f.leadingVolume ≤ addressLimit) ∧
    (0 ∉ f.dims → (f.validate = .ok () ↔ f.IsProper)) ∧
    (0 ∉ f.dims → ∀ dims : List UInt64, dims.Perm f.dims →
      (({ f with dims := dims } : FieldInfo).validate = .ok () ↔ f.validate = .ok ())) ∧
    (f.IsProper ↔ ∃ dims : List UInt64,
      dims.Perm f.dims ∧ ({ f with dims := dims } : FieldInfo).validate = .ok ()) ∧
    (f.validate = .ok () →
      f.elementCount = f.volume ∧ f.byteSize = f.volume * f.byteWidth.toNat) ∧
    (f.IsProper → f.validate ≠ .ok () →
      f.volume = 0 ∧ f.validate = .error (.overflow f.name f.dims) ∧
        f.elementCount = addressLimit ∧ f.byteSize = addressLimit) := by
  have hNonzero : ∀ g : FieldInfo, 0 ∉ g.dims → (g.validate = .ok () ↔ g.IsProper) := by
    intro g hNone
    rw [validate_eq_ok_iff, and_iff_left_iff_imp]
    exact fun hProper => hProper.leadingVolume_le hNone
  -- putting extents in another order can be undone
  have hBack : ∀ dims : List UInt64, dims.Perm f.dims →
      ({ f with dims := dims } : FieldInfo).IsProper → f.IsProper :=
    fun _ hPerm hProper => hProper.of_perm hPerm.symm
  refine ⟨validate_eq_ok_iff, hNonzero f, ?_, ?_, ?_, IsProper.of_refused⟩
  · intro hNone dims hPerm
    have hNone' : 0 ∉ dims := fun hMem => hNone (hPerm.mem_iff.1 hMem)
    rw [hNonzero f hNone, hNonzero { f with dims := dims } hNone']
    exact ⟨hBack dims hPerm, fun hProper => hProper.of_perm hPerm⟩
  · constructor
    · exact exists_perm_of_isProper
    · rintro ⟨dims, hPerm, hValid⟩
      exact hBack dims hPerm (validate_eq_ok_iff.1 hValid).1
  · intro hValid
    have hProper := (validate_eq_ok_iff.1 hValid).1
    have hCount := elementCount_of_validate hValid
    exact ⟨hCount, by rw [byteSize_of_validate hValid, hCount, hProper.byteWidth]⟩

/-- Three extents of which the last is zero: the first two are too large together, so the
field is refused, although it has no elements and is accepted with the zero in front. -/
theorem size_validation_exact_late_zero :
    let f : FieldInfo :=
      ⟨"T", .int32, 4, [0x8000000000000000, 4, 0], [⟨0, 0⟩, ⟨0, 0⟩, ⟨0, 0⟩], .empty⟩
    f.IsProper ∧ f.volume = 0 ∧ f.validate = .error (.overflow "T" [0x8000000000000000, 4, 0]) ∧
      f.elementCount = addressLimit ∧
      ({ f with dims := [0, 0x8000000000000000, 4] } : FieldInfo).validate = .ok () := by
  intro f
  have hFront : ({ f with dims := [0, 0x8000000000000000, 4] } : FieldInfo).validate = .ok () := by
    rfl
  have hRefused : f.validate ≠ .ok () := by decide
  obtain ⟨-, -, -, hSome, -, hReport⟩ := size_validation_exact f
  have hProper : f.IsProper := hSome.2 ⟨[0, 0x8000000000000000, 4], by decide, hFront⟩
  obtain ⟨hVolume, hError, hCount, -⟩ := hReport hProper hRefused
  exact ⟨hProper, hVolume, hError, hCount, hFront⟩

end FieldArchive.FieldInfo

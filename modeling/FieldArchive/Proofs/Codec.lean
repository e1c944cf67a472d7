import FieldArchive.Codec
import Mathlib.Tactic.Ring

/-!
# Snapshots as bytes and back

The bytes of a snapshot are those of its patterns, one after the other, and do
not depend on the description.  The main result is `Codec.decode_payload`: what
a codec encodes for one description it decodes for every description of the same
shape, pattern by pattern.
-/

namespace FieldArchive

/-! ## Words -/

namespace Word

theorem length_littleBytes (width n : Nat) : (littleBytes width n).length = width := by
  induction width generalizing n with
  | zero => rfl
  | succ width ih => simp [littleBytes, ih]

theorem length_bytes (order : Endianness) (width n : Nat) :
    (bytes order width n).length = width := by
  cases order <;> simp [bytes, length_littleBytes]

theorem ofLittleBytes_littleBytes (width n : Nat) (h : n < 256 ^ width) :
    ofLittleBytes (littleBytes width n) = n := by
  induction width generalizing n with
  | zero =>
      rw [Nat.pow_zero] at h
      simp only [littleBytes, ofLittleBytes]
      omega
  | succ width ih =>
      have hHigh : n / 256 < 256 ^ width := by
        rw [Nat.pow_succ] at h
        exact Nat.div_lt_of_lt_mul (by omega)
      have hLow : (UInt8.ofNat n).toNat = n % 256 := rfl
      rw [littleBytes, ofLittleBytes, ih _ hHigh, hLow]
      omega

/-- A word that fits is read back in either byte order. -/
theorem ofBytes_bytes (order : Endianness) (width n : Nat) (h : n < 256 ^ width) :
    ofBytes order (bytes order width n) = n := by
  cases order with
  | little => exact ofLittleBytes_littleBytes width n h
  | big =>
      rw [ofBytes, bytes, List.reverse_reverse]
      exact ofLittleBytes_littleBytes width n h

/-- Words of one width are taken apart again. -/
theorem groups_flatMap {width : Nat} {write : Nat → List UInt8}
    (h : ∀ n, (write n).length = width) (ns : List Nat) :
    groups width ns.length (ns.flatMap write) = ns.map write := by
  induction ns with
  | nil => rfl
  | cons n ns ih =>
      have hTake : (write n ++ ns.flatMap write).take width = write n :=
        List.take_left' (h n)
      have hDrop : (write n ++ ns.flatMap write).drop width = ns.flatMap write :=
        List.drop_left' (h n)
      rw [List.flatMap_cons, List.length_cons, groups, hTake, hDrop, ih, List.map_cons]

@[simp] theorem length_groups (width count : Nat) (bs : List UInt8) :
    (groups width count bs).length = count := by
  induction count generalizing bs with
  | zero => rfl
  | succ count ih => rw [groups, List.length_cons, ih]

end Word

/-! ## Buffers -/

namespace Buffer

theorem length_patterns (b : Buffer) : b.patterns.length = b.size := by
  cases b <;> simp [patterns, size]

/-- Patterns have the width of their type. -/
theorem patterns_lt (b : Buffer) : ∀ p ∈ b.patterns, p < 256 ^ b.elementType.byteWidth := by
  intro p hp
  cases b with
  | int32 vs =>
      obtain ⟨v, -, rfl⟩ := List.mem_map.1 hp
      exact v.toBitVec.isLt
  | int64 vs =>
      obtain ⟨v, -, rfl⟩ := List.mem_map.1 hp
      exact v.toBitVec.isLt
  | float32 vs =>
      obtain ⟨v, -, rfl⟩ := List.mem_map.1 hp
      exact v.bits.isLt
  | float64 vs =>
      obtain ⟨v, -, rfl⟩ := List.mem_map.1 hp
      exact v.bits.isLt

@[simp] theorem elementType_ofPatterns (t : ElementType) (ps : List Nat) :
    (ofPatterns t ps).elementType = t := by
  cases t <;> rfl

@[simp] theorem size_ofPatterns (t : ElementType) (ps : List Nat) :
    (ofPatterns t ps).size = ps.length := by
  cases t <;> exact List.length_map ..

/-- A buffer is determined by its type and its patterns. -/
theorem ofPatterns_patterns (b : Buffer) : ofPatterns b.elementType b.patterns = b := by
  cases b <;> simp [ofPatterns, patterns, elementType, Function.comp_def]

end Buffer

/-! ## Snapshots -/

namespace FieldInfo

variable {a b : FieldInfo}

theorem agreesWith_iff : a.agreesWith b = true ↔
    a.elementType = b.elementType ∧ a.byteWidth = b.byteWidth ∧ a.dims = b.dims := by
  simp [agreesWith, and_assoc]

theorem elementCount_of_agreesWith (h : a.agreesWith b = true) :
    a.elementCount = b.elementCount := by
  obtain ⟨-, -, hDims⟩ := agreesWith_iff.1 h
  simp only [elementCount, checkedElementCount, hDims]

theorem byteSize_of_agreesWith (h : a.agreesWith b = true) : a.byteSize = b.byteSize := by
  obtain ⟨-, hWidth, hDims⟩ := agreesWith_iff.1 h
  simp only [byteSize, checkedByteSize, checkedElementCount, hDims, hWidth]

theorem checkedMul_eq_some {m n p : Nat} (h : checkedMul m n = some p) : p = m * n := by
  unfold checkedMul at h
  split at h
  · exact (Option.some.inj h).symm
  · cases h

/-- The size of a valid description is that of its elements: no product was cut
off at the address limit, and the width is the natural one. -/
theorem byteSize_of_validate (h : a.validate = .ok ()) :
    a.byteSize = a.elementCount * a.elementType.byteWidth := by
  unfold validate at h
  split at h
  · cases h
  split at h
  · cases h
  split at h
  · cases h
  next hWidth =>
    split at h
    · cases h
    next hSome =>
      obtain ⟨size, hSize⟩ : ∃ size, a.checkedByteSize = some size := by
        cases hSize : a.checkedByteSize with
        | none => simp [hSize] at hSome
        | some size => exact ⟨size, rfl⟩
      obtain ⟨count, hCount, hMul⟩ := Option.bind_eq_some_iff.1 hSize
      rw [byteSize, elementCount, hSize, hCount, Option.getD_some, Option.getD_some,
        checkedMul_eq_some hMul, Decidable.of_not_not hWidth]

end FieldInfo

namespace Codec

/-- The bytes of a snapshot in a byte order. -/
def payload (order : Endianness) (b : Buffer) : List UInt8 :=
  b.patterns.flatMap fun p => Word.bytes order b.elementType.byteWidth p

theorem length_payload (order : Endianness) (b : Buffer) :
    (payload order b).length = b.size * b.elementType.byteWidth := by
  have hEach : ∀ ps : List Nat, (ps.flatMap fun p =>
      Word.bytes order b.elementType.byteWidth p).length = ps.length * b.elementType.byteWidth := by
    intro ps
    induction ps with
    | nil => simp
    | cons p ps ih =>
        rw [List.flatMap_cons, List.length_append, ih, Word.length_bytes, List.length_cons]
        ring
  rw [payload, hEach, Buffer.length_patterns]

theorem checkType_ok {codec : Codec} {info : FieldInfo} {actual : ElementType}
    (h : codec.checkType info actual = .ok ()) :
    actual = info.elementType ∧
      (info.elementType.isFloating && decide (info.elementType ≠ .real codec.precision)) =
        false := by
  simp only [checkType] at h
  split at h
  · cases h
  · next hType =>
      split at h
      · cases h
      · next hReal =>
          exact ⟨Decidable.of_not_not hType, by simpa using hReal⟩

/-- What encoding relies on, and what it gives. -/
structure Encodes (codec : Codec) (info : FieldInfo) (b : Buffer) : Prop where
  elementType : b.elementType = info.elementType
  precision : (info.elementType.isFloating &&
    decide (info.elementType ≠ .real codec.precision)) = false
  size : b.size = info.elementCount
  byteSize : info.byteSize = b.size * b.elementType.byteWidth

theorem encode_ok {codec : Codec} {info : FieldInfo} {b : Buffer} {bytes : List UInt8}
    (h : codec.encode info b = .ok bytes) :
    codec.Encodes info b ∧ bytes = payload codec.endianness b := by
  unfold encode at h
  cases hType : codec.checkType info b.elementType with
  | error e =>
      rw [hType] at h
      cases h
  | ok _ =>
      rw [hType] at h
      simp only [bind, Except.bind] at h
      split at h
      · cases h
      · next hSize =>
          split at h
          · cases h
          · next hBytes =>
              cases h
              obtain ⟨hSame, hReal⟩ := checkType_ok hType
              exact ⟨⟨hSame, hReal, Decidable.of_not_not hSize, Decidable.of_not_not hBytes⟩, rfl⟩

variable {codec : Codec} {info info' : FieldInfo} {b : Buffer}

theorem Encodes.congr (h : codec.Encodes info b) (hAgrees : info'.agreesWith info = true) :
    codec.Encodes info' b := by
  obtain ⟨hType, -, -⟩ := FieldInfo.agreesWith_iff.1 hAgrees
  refine ⟨?_, ?_, ?_, ?_⟩
  · rw [hType]
    exact h.elementType
  · rw [hType]
    exact h.precision
  · rw [FieldInfo.elementCount_of_agreesWith hAgrees]
    exact h.size
  · rw [FieldInfo.byteSize_of_agreesWith hAgrees]
    exact h.byteSize

theorem Encodes.length_payload (h : codec.Encodes info b) :
    (payload codec.endianness b).length = info.byteSize := by
  rw [Codec.length_payload, h.byteSize]

/-- Bytes of the right length are decoded, unless the precision excludes the type
of the field. -/
theorem decode_eq {bytes : List UInt8} (hLength : bytes.length = info.byteSize)
    (hSize : info.byteSize = info.elementCount * info.elementType.byteWidth) :
    codec.decode info bytes =
      if info.elementType.isFloating && decide (info.elementType ≠ .real codec.precision) then
        .error (.typeMismatch info.name (ElementType.real codec.precision).name
          info.elementType.name)
      else .ok (.ofPatterns info.elementType
        ((Word.groups info.elementType.byteWidth info.elementCount bytes).map
          fun g => Word.ofBytes codec.endianness g)) := by
  have hWhole : bytes.length = info.elementCount * info.elementType.byteWidth :=
    hLength.trans hSize
  cases hExcluded : info.elementType.isFloating &&
      decide (info.elementType ≠ .real codec.precision) with
  | true =>
      simp only [decode, checkType, hExcluded, ne_eq, not_true_eq_false, if_false, if_true]
      rfl
  | false =>
      simp only [decode, checkType, hExcluded, ne_eq, not_true_eq_false, if_false, hWhole,
        ← hSize, Bool.false_eq_true, bind, Except.bind, pure, Except.pure]

/-- What was encoded is decoded, pattern by pattern. -/
theorem decode_payload (h : codec.Encodes info b) :
    codec.decode info (payload codec.endianness b) = .ok b := by
  have hSize : info.byteSize = info.elementCount * info.elementType.byteWidth := by
    rw [h.byteSize, h.size, h.elementType]
  have hPatterns : (Word.groups info.elementType.byteWidth info.elementCount
      (payload codec.endianness b)).map (fun g => Word.ofBytes codec.endianness g) =
      b.patterns := by
    rw [← h.elementType, ← h.size, ← Buffer.length_patterns, payload,
      Word.groups_flatMap fun p => Word.length_bytes codec.endianness _ p, List.map_map]
    calc b.patterns.map ((fun g => Word.ofBytes codec.endianness g) ∘
          fun p => Word.bytes codec.endianness b.elementType.byteWidth p)
        = b.patterns.map id := by
          refine List.map_congr_left fun p hp => ?_
          exact Word.ofBytes_bytes codec.endianness _ p (b.patterns_lt p hp)
      _ = b.patterns := List.map_id _
  rw [decode_eq h.length_payload hSize, h.precision, if_neg Bool.false_ne_true, hPatterns,
    ← h.elementType, Buffer.ofPatterns_patterns]

end Codec
end FieldArchive

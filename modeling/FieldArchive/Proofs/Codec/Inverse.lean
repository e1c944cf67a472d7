import FieldArchive.Proofs.Document.Tables
import FieldArchive.Proofs.FieldInfo

/-!
# Encoding and decoding are inverse

For a description that passes the check, the buffers that a codec encodes and the byte
strings that it decodes are known (`Codec.encode_eq`, `Codec.decode_eq`), and on them
the two are inverse to each other (`Codec.encode_eq_ok_iff_decode`).  The byte orders
differ by reversing each element (`Codec.encode_big`).

No more than the sizes of the description matters here.  For one that fails the check
the two may abort.
-/

namespace FieldArchive

/-! ## Words -/

namespace Word

theorem ofLittleBytes_lt (bs : List UInt8) : ofLittleBytes bs < 256 ^ bs.length := by
  induction bs with
  | nil => exact Nat.one_pos
  | cons b bs ih =>
      have hLow : b.toNat < 256 := b.toNat_lt
      rw [ofLittleBytes, List.length_cons, Nat.pow_succ]
      omega

theorem littleBytes_ofLittleBytes (bs : List UInt8) :
    littleBytes bs.length (ofLittleBytes bs) = bs := by
  induction bs with
  | nil => rfl
  | cons b bs ih =>
      have hLow : b.toNat < 256 := b.toNat_lt
      have hHigh : (b.toNat + 256 * ofLittleBytes bs) / 256 = ofLittleBytes bs := by omega
      have hByte : UInt8.ofNat (b.toNat + 256 * ofLittleBytes bs) = b := by
        apply UInt8.toNat_inj.1
        rw [UInt8.toNat_ofNat']
        omega
      rw [List.length_cons, ofLittleBytes, littleBytes, hHigh, hByte, ih]

theorem ofBytes_lt (order : Endianness) (bs : List UInt8) : ofBytes order bs < 256 ^ bs.length := by
  cases order with
  | little => exact ofLittleBytes_lt bs
  | big =>
      have h := ofLittleBytes_lt bs.reverse
      rwa [List.length_reverse] at h

/-- Bytes are those of the number that they stand for. -/
theorem bytes_ofBytes (order : Endianness) (bs : List UInt8) :
    bytes order bs.length (ofBytes order bs) = bs := by
  cases order with
  | little => exact littleBytes_ofLittleBytes bs
  | big =>
      have h := littleBytes_ofLittleBytes bs.reverse
      rw [List.length_reverse] at h
      rw [bytes, ofBytes, h, List.reverse_reverse]

/-- Groups hold `width` bytes each if there are bytes enough. -/
theorem length_of_mem_groups {width count : Nat} {bs g : List UInt8}
    (hLength : bs.length = count * width) (hg : g ∈ groups width count bs) : g.length = width := by
  induction count generalizing bs with
  | zero => cases hg
  | succ count ih =>
      rw [Nat.succ_mul] at hLength
      rcases List.mem_cons.1 hg with rfl | hRest
      · rw [List.length_take]
        omega
      · exact ih (by rw [List.length_drop]; omega) hRest

theorem flatten_groups {width count : Nat} {bs : List UInt8} (hLength : bs.length = count * width) :
    (groups width count bs).flatten = bs := by
  induction count generalizing bs with
  | zero =>
      rw [Nat.zero_mul, List.length_eq_zero_iff] at hLength
      rw [hLength]
      rfl
  | succ count ih =>
      rw [Nat.succ_mul] at hLength
      rw [groups, List.flatten_cons, ih (by rw [List.length_drop]; omega), List.take_append_drop]

/-- The first `count` groups of `width` bytes, each with its bytes in the other order. -/
def reverseGroups (width count : Nat) (bs : List UInt8) : List UInt8 :=
  (groups width count bs).flatMap List.reverse

end Word

/-! ## Buffers -/

/-- Patterns that fit the type are those of the buffer made from them. -/
theorem Buffer.patterns_ofPatterns {t : ElementType} {ps : List Nat}
    (h : ∀ p ∈ ps, p < 256 ^ t.byteWidth) : (ofPatterns t ps).patterns = ps := by
  have hMap : ∀ f : Nat → Nat, (∀ p < 256 ^ t.byteWidth, f p = p) → ps.map f = ps := by
    intro f hf
    rw [List.map_congr_left fun p hp => hf p (h p hp), List.map_id']
  cases t with
  | int32 =>
      simp only [ofPatterns, patterns, List.map_map]
      exact hMap _ fun p hp => Nat.mod_eq_of_lt hp
  | int64 =>
      simp only [ofPatterns, patterns, List.map_map]
      exact hMap _ fun p hp => Nat.mod_eq_of_lt hp
  | float32 =>
      simp only [ofPatterns, patterns, List.map_map]
      exact hMap _ fun p hp => Nat.mod_eq_of_lt hp
  | float64 =>
      simp only [ofPatterns, patterns, List.map_map]
      exact hMap _ fun p hp => Nat.mod_eq_of_lt hp

/-! ## Snapshots -/

namespace Codec

variable {codec : Codec} {info : FieldInfo} {b : Buffer} {bytes : List UInt8}

/-- The precision allows fields of a type: integers always, reals of one type only. -/
def Permits (codec : Codec) (t : ElementType) : Prop :=
  t.isFloating = false ∨ t = .real codec.precision

theorem permits_iff {t : ElementType} :
    codec.Permits t ↔ (t.isFloating && decide (t ≠ .real codec.precision)) = false := by
  cases hFloating : t.isFloating <;> simp [Permits, hFloating]

instance (codec : Codec) (t : ElementType) : Decidable (codec.Permits t) :=
  decidable_of_iff _ permits_iff.symm

theorem checkType_eq (codec : Codec) (info : FieldInfo) (actual : ElementType) :
    codec.checkType info actual =
      if actual ≠ info.elementType then
        .error (.typeMismatch info.name info.elementType.name actual.name)
      else if codec.Permits info.elementType then .ok ()
      else .error (.typeMismatch info.name (ElementType.real codec.precision).name
        info.elementType.name) := by
  have hOther : ¬ codec.Permits info.elementType ↔ (info.elementType.isFloating &&
      decide (info.elementType ≠ .real codec.precision)) = true := by
    rw [permits_iff, Bool.not_eq_false]
  unfold checkType
  dsimp only
  by_cases hPermits : codec.Permits info.elementType
  · rw [if_pos hPermits, permits_iff.1 hPermits]
    rfl
  · rw [if_neg hPermits, hOther.1 hPermits]
    rfl

/-- What becomes of every buffer, for a description whose sizes go together. -/
theorem encode_eq (hSize : info.byteSize = info.elementCount * info.elementType.byteWidth)
    (b : Buffer) :
    codec.encode info b =
      match codec.checkType info b.elementType with
      | .error e => .error e
      | .ok _ =>
          if b.size = info.elementCount then .ok (payload codec.endianness b)
          else .error (.sizeMismatch info.name info.elementCount b.size) := by
  unfold encode
  cases hType : codec.checkType info b.elementType with
  | error e => rfl
  | ok _ =>
      obtain ⟨hSame, -⟩ := checkType_ok hType
      simp only [bind, Except.bind]
      by_cases hCount : b.size = info.elementCount
      · have hBytes : info.byteSize = b.size * b.elementType.byteWidth := by
          rw [hSize, hCount, hSame]
        rw [if_neg (not_not_intro hCount), if_pos hCount]
        simp only [hBytes, ne_eq, not_true_eq_false, if_false]
        rfl
      · rw [if_pos hCount, if_neg hCount]
        rfl

theorem encode_eq_ok_iff (hSize : info.byteSize = info.elementCount * info.elementType.byteWidth) :
    codec.encode info b = .ok bytes ↔
      (b.elementType = info.elementType ∧ codec.Permits info.elementType ∧
        b.size = info.elementCount) ∧ bytes = payload codec.endianness b := by
  rw [encode_eq hSize, checkType_eq]
  by_cases hType : b.elementType = info.elementType
  · by_cases hPermits : codec.Permits info.elementType
    · by_cases hCount : b.size = info.elementCount
      · simp [hType, hPermits, hCount, eq_comm]
      · simp [hType, hPermits, hCount]
    · simp [hType, hPermits]
  · simp [hType]

/-- The buffer that bytes of the right length stand for. -/
def bufferOf (order : Endianness) (info : FieldInfo) (bytes : List UInt8) : Buffer :=
  .ofPatterns info.elementType
    ((Word.groups info.elementType.byteWidth info.elementCount bytes).map (Word.ofBytes order))

theorem payload_bufferOf (order : Endianness)
    (hLength : bytes.length = info.elementCount * info.elementType.byteWidth) :
    payload order (bufferOf order info bytes) = bytes := by
  have hWidth : ∀ g ∈ Word.groups info.elementType.byteWidth info.elementCount bytes,
      g.length = info.elementType.byteWidth := fun g hg => Word.length_of_mem_groups hLength hg
  have hFits : ∀ p ∈ (Word.groups info.elementType.byteWidth info.elementCount bytes).map
      (Word.ofBytes order), p < 256 ^ info.elementType.byteWidth := by
    intro p hp
    obtain ⟨g, hg, rfl⟩ := List.mem_map.1 hp
    rw [← hWidth g hg]
    exact Word.ofBytes_lt order g
  have hEach : ∀ g ∈ Word.groups info.elementType.byteWidth info.elementCount bytes,
      Word.bytes order info.elementType.byteWidth (Word.ofBytes order g) = g := by
    intro g hg
    rw [← hWidth g hg]
    exact Word.bytes_ofBytes order g
  rw [payload, bufferOf, Buffer.patterns_ofPatterns hFits, Buffer.elementType_ofPatterns,
    List.flatMap_def, List.map_map]
  calc ((Word.groups info.elementType.byteWidth info.elementCount bytes).map
          (Word.bytes order info.elementType.byteWidth ∘ Word.ofBytes order)).flatten
      = ((Word.groups info.elementType.byteWidth info.elementCount bytes).map id).flatten := by
        exact congrArg List.flatten (List.map_congr_left hEach)
    _ = bytes := by rw [List.map_id, Word.flatten_groups hLength]

theorem decode_eq_ok_iff (hSize : info.byteSize = info.elementCount * info.elementType.byteWidth) :
    codec.decode info bytes = .ok b ↔
      (codec.Permits info.elementType ∧ bytes.length = info.byteSize) ∧
        b = bufferOf codec.endianness info bytes := by
  by_cases hLength : bytes.length = info.byteSize
  · rw [decode_eq hLength hSize]
    by_cases hPermits : codec.Permits info.elementType
    · rw [permits_iff.1 hPermits]
      simp [hPermits, hLength, bufferOf, eq_comm]
    · rw [if_pos (by simpa only [permits_iff, Bool.not_eq_false] using hPermits)]
      simp [hPermits]
  · simp only [hLength, and_false, false_and, iff_false]
    intro hOk
    obtain ⟨_, -, hRest⟩ := except_bind_eq_ok_iff.1 hOk
    rw [if_pos hLength] at hRest
    cases hRest

/-- A buffer has the bytes that it is decoded from, and no other. -/
theorem encode_eq_ok_iff_decode
    (hSize : info.byteSize = info.elementCount * info.elementType.byteWidth) :
    codec.encode info b = .ok bytes ↔ codec.decode info bytes = .ok b := by
  constructor
  · intro hEncode
    obtain ⟨hEncodes, rfl⟩ := encode_ok hEncode
    exact decode_payload hEncodes
  · intro hDecode
    obtain ⟨⟨hPermits, hLength⟩, rfl⟩ := (decode_eq_ok_iff hSize).1 hDecode
    refine (encode_eq_ok_iff hSize).2 ⟨⟨?_, hPermits, ?_⟩, ?_⟩
    · exact Buffer.elementType_ofPatterns _ _
    · rw [bufferOf, Buffer.size_ofPatterns, List.length_map, Word.length_groups]
    · exact (payload_bufferOf _ (hLength.trans hSize)).symm

/-! ## Byte orders -/

theorem payload_big (b : Buffer) :
    payload .big b =
      Word.reverseGroups b.elementType.byteWidth b.size (payload .little b) := by
  rw [Word.reverseGroups, payload, payload, ← Buffer.length_patterns,
    Word.groups_flatMap fun p => Word.length_bytes .little _ p, List.flatMap_map]
  rfl

/-- The bytes in the other order are those of each element reversed. -/
theorem encode_big (hSize : info.byteSize = info.elementCount * info.elementType.byteWidth)
    (precision : Precision) (b : Buffer) :
    (⟨.big, precision⟩ : Codec).encode info b =
      ((⟨.little, precision⟩ : Codec).encode info b).map
        (Word.reverseGroups info.elementType.byteWidth info.elementCount) := by
  rw [encode_eq hSize, encode_eq hSize, checkType_eq, checkType_eq]
  by_cases hType : b.elementType = info.elementType
  · by_cases hPermits : (⟨.big, precision⟩ : Codec).Permits info.elementType
    · have hPermits' : (⟨.little, precision⟩ : Codec).Permits info.elementType := hPermits
      by_cases hCount : b.size = info.elementCount
      · simp [hType, hPermits, hPermits', hCount, Except.map, payload_big]
      · simp [hType, hPermits, hPermits', hCount, Except.map]
    · have hPermits' : ¬ (⟨.little, precision⟩ : Codec).Permits info.elementType := hPermits
      simp [hType, hPermits, hPermits', Except.map]
  · simp [hType, Except.map]

/-! ## Aborts -/

theorem ne_aborted_of_checkType (codec : Codec) (info : FieldInfo) (actual : ElementType) :
    codec.checkType info actual ≠ .error .aborted := by
  rw [checkType_eq]
  split
  · nofun
  · split <;> nofun

/-- Whatever has the right number of elements has the right number of bytes. -/
theorem encode_ne_aborted
    (hSize : info.byteSize = info.elementCount * info.elementType.byteWidth) (b : Buffer) :
    codec.encode info b ≠ .error .aborted := by
  rw [encode_eq hSize]
  cases hType : codec.checkType info b.elementType with
  | error e =>
      intro hAborted
      cases hAborted
      exact ne_aborted_of_checkType _ _ _ hType
  | ok _ =>
      dsimp only
      split <;> nofun

theorem decode_ne_aborted
    (hSize : info.byteSize = info.elementCount * info.elementType.byteWidth)
    (bytes : List UInt8) : codec.decode info bytes ≠ .error .aborted := by
  by_cases hLength : bytes.length = info.byteSize
  · rw [decode_eq hLength hSize]
    split <;> nofun
  · intro hAborted
    rcases except_bind_eq_error_iff.1 hAborted with hType | ⟨_, -, hRest⟩
    · exact ne_aborted_of_checkType _ _ _ hType
    · rw [if_pos hLength] at hRest
      cases hRest

/-! ## The codec as a whole -/

/-- A codec encodes exactly the buffers of a field's type and number of elements, and
decodes exactly the byte strings of the field's size, unless its precision excludes the
type.  On those, encoding and decoding are inverse to each other.  The big-endian bytes
are the little-endian ones with those of each element reversed.  Nothing aborts.

The number of elements is the product of the extents, and the size that product times
the width, without a limit. -/
theorem encode_decode_inverse (codec : Codec) {info : FieldInfo}
    (hValid : info.validate = .ok ()) :
    info.byteSize = info.volume * info.elementType.byteWidth ∧
    (∀ b, (∃ bytes, codec.encode info b = .ok bytes) ↔
      b.elementType = info.elementType ∧ codec.Permits info.elementType ∧ b.size = info.volume) ∧
    (∀ bytes, (∃ b, codec.decode info bytes = .ok b) ↔
      codec.Permits info.elementType ∧ bytes.length = info.byteSize) ∧
    (∀ b bytes, codec.encode info b = .ok bytes ↔ codec.decode info bytes = .ok b) ∧
    (∀ b bytes, codec.encode info b = .ok bytes → bytes.length = info.byteSize) ∧
    (∀ b, (⟨.big, codec.precision⟩ : Codec).encode info b =
      ((⟨.little, codec.precision⟩ : Codec).encode info b).map
        (Word.reverseGroups info.elementType.byteWidth info.volume)) ∧
    (∀ b, codec.encode info b ≠ .error .aborted) ∧
    ∀ bytes, codec.decode info bytes ≠ .error .aborted := by
  have hCount := FieldInfo.elementCount_of_validate hValid
  have hSize := FieldInfo.byteSize_of_validate hValid
  rw [← hCount]
  refine ⟨hSize, fun b => ?_, fun bytes => ?_, fun b bytes => encode_eq_ok_iff_decode hSize,
    fun b bytes hEncode => ?_, encode_big hSize codec.precision, encode_ne_aborted hSize,
    decode_ne_aborted hSize⟩
  · simp only [encode_eq_ok_iff hSize, exists_and_left, exists_eq, and_true]
  · simp only [decode_eq_ok_iff hSize, exists_and_left, exists_eq, and_true]
  · obtain ⟨hEncodes, rfl⟩ := encode_ok hEncode
    exact hEncodes.length_payload

/-- Two reals, of which one is a not-a-number with a payload, in an archive that stores
the most significant byte first. -/
theorem encode_decode_inverse_big :
    ∃ info : FieldInfo, info.dims = [2, 1] ∧ info.validate = .ok () ∧
      (⟨.big, .double⟩ : Codec).encode info
        (.float64 [⟨0x7ff8000000000001⟩, ⟨0x3ff0000000000000⟩]) =
        .ok [0x7f, 0xf8, 0, 0, 0, 0, 0, 1, 0x3f, 0xf0, 0, 0, 0, 0, 0, 0] ∧
      (⟨.big, .double⟩ : Codec).decode info
          [0x7f, 0xf8, 0, 0, 0, 0, 0, 1, 0x3f, 0xf0, 0, 0, 0, 0, 0, 0] =
        .ok (.float64 [⟨0x7ff8000000000001⟩, ⟨0x3ff0000000000000⟩]) := by
  have hValid : (⟨"T", .float64, 8, [2, 1], [⟨0, 0⟩, ⟨0, 0⟩], .empty⟩ : FieldInfo).validate =
      .ok () := by rfl
  obtain ⟨-, -, -, hInverse, -⟩ := encode_decode_inverse ⟨.big, .double⟩ hValid
  have hEncode : (⟨.big, .double⟩ : Codec).encode
      ⟨"T", .float64, 8, [2, 1], [⟨0, 0⟩, ⟨0, 0⟩], .empty⟩
      (.float64 [⟨0x7ff8000000000001⟩, ⟨0x3ff0000000000000⟩]) =
        .ok [0x7f, 0xf8, 0, 0, 0, 0, 0, 1, 0x3f, 0xf0, 0, 0, 0, 0, 0, 0] := by rfl
  exact ⟨_, rfl, hValid, hEncode, (hInverse _ _).1 hEncode⟩

end Codec
end FieldArchive

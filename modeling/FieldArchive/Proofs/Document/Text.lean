import FieldArchive.Disk.Basic
import FieldArchive.Document.Text
import FieldArchive.Proofs.Metainfo.Text
import Mathlib.Algebra.GroupWithZero.Nat

/-!
# The text of a document, read back

The text of a document is read as the document itself, except for the reals in
its metainfo, which are given back as `Metainfo.reread?` says.  The one condition
is that positions and lengths stay within 64 bits.  The main results are
`Document.parse?_text` and, for documents whose reals survive,
`Document.reread?_of_readsBack`.
-/

namespace FieldArchive

/-! ## Identifiers and settings -/

namespace ArchiveId

theorem length_grouped (sizes : List Nat) (ds : List Nibble) (h : ds.length = sizes.sum) :
    (grouped sizes ds).length = sizes.sum + (sizes.length - 1) := by
  induction sizes generalizing ds with
  | nil => rfl
  | cons n sizes ih =>
      rw [List.sum_cons] at h
      cases sizes with
      | nil => simp only [grouped, List.length_map, List.length_take]; simp at h ⊢; omega
      | cons m sizes =>
          have hRest := ih (ds.drop n) (by rw [List.length_drop]; omega)
          simp only [grouped, List.length_append, List.length_map, List.length_take,
            List.length_cons, hRest]
          simp only [List.sum_cons] at h ⊢
          omega

/-- Digits in groups are read back. -/
theorem ungroup?_grouped {sizes : List Nat} (hNe : sizes ≠ []) (ds : List Nibble)
    (h : ds.length = sizes.sum) : ungroup? sizes (grouped sizes ds) = some ds := by
  induction sizes generalizing ds with
  | nil => contradiction
  | cons n sizes ih =>
      rw [List.sum_cons] at h
      cases sizes with
      | nil =>
          have hTake : ds.take n = ds := List.take_of_length_le (by simp at h; omega)
          have hLength : ds.length = n := by simpa using h
          simp only [grouped, ungroup?, hTake, List.length_map, hLength, if_true]
          exact Hex.mapM_value?_digits ds
      | cons m sizes =>
          have hFront : ((ds.take n).map Hex.digit).length = n := by
            simp only [List.length_map, List.length_take]
            omega
          have hRest := ih (by simp) (ds.drop n) (by rw [List.length_drop]; omega)
          have hTake : (grouped (n :: m :: sizes) ds).take n = (ds.take n).map Hex.digit := by
            rw [grouped, List.take_append_of_le_length (by omega),
              List.take_of_length_le (by omega)]
            simp
          have hDrop : (grouped (n :: m :: sizes) ds).drop n =
              '-' :: grouped (m :: sizes) (ds.drop n) := by
            rw [grouped, List.drop_append_of_le_length (by omega),
              List.drop_of_length_le (by omega), List.nil_append]
            simp
          simp only [ungroup?, hDrop, hTake, Hex.mapM_value?_digits, hRest,
            Option.bind_eq_bind, Option.bind_some, List.take_append_drop]

theorem parse?_text (id : ArchiveId) : parse? id.text = some id := by
  have hSum : id.digits.length = groupSizes.sum := id.length_digits
  have hLength : (grouped groupSizes id.digits).length = 36 := length_grouped _ _ hSum
  have hDigits : digits? (grouped groupSizes id.digits) = some id.digits := by
    unfold digits?
    rw [hLength]
    exact ungroup?_grouped (by decide) id.digits hSum
  simp only [parse?, text, String.toList_ofList, hDigits, id.length_digits, dite_true]

end ArchiveId

namespace Settings

theorem isWritten_toJson (s : Settings) : s.toJson.IsWritten := by
  refine Json.isWritten_record ?_
  simp only [List.forall_mem_cons, Json.isWritten_str, and_self, List.not_mem_nil,
    false_implies, implies_true]

theorem ofJson?_toJson (s : Settings) : ofJson? s.toJson = some s := by
  rw [ofJson?, toJson, Json.fields?_record]
  · simp only [List.map_cons, List.map_nil, Option.bind_eq_bind, Option.bind_some,
      Json.choice?_str, Endianness.ofName?_name, Precision.ofName?_name,
      ChecksumAlgorithm.ofName?_name]
  · rfl
  · decide

end Settings

/-! ## Savepoints and fields -/

namespace Savepoint

/-- What a document gives back for a savepoint. -/
def reread? (s : Savepoint) : Option Savepoint :=
  s.metainfo.reread?.map fun m => { s with metainfo := m }

/-- True for a savepoint that a document gives back as it was written. -/
def readsBack (s : Savepoint) : Bool := s.metainfo.readsBack

theorem isWritten_toJson (s : Savepoint) : s.toJson.IsWritten := by
  refine Json.isWritten_record ?_
  simp only [List.forall_mem_cons, Json.isWritten_str, s.metainfo.isWritten_toJson, and_self,
    List.not_mem_nil, false_implies, implies_true]

theorem ofJson?_toJson (s : Savepoint) : ofJson? s.toJson = s.reread? := by
  rw [ofJson?, toJson, Json.fields?_record]
  · simp only [List.map_cons, List.map_nil, Option.bind_eq_bind, Option.bind_some, Json.text?_str,
      Option.elim_some, Metainfo.ofJson?_toJson, reread?]
    cases s.metainfo.reread? <;> rfl
  · rfl
  · decide

theorem reread?_of_readsBack {s : Savepoint} (h : s.readsBack = true) : s.reread? = some s := by
  rw [reread?, Metainfo.reread?_of_readsBack h]
  rfl

theorem exists_reread? {s : Savepoint} (h : s.metainfo.firstNonFinite? = none) :
    ∃ s', s.reread? = some s' ∧ s'.metainfo.firstNonFinite? = none := by
  obtain ⟨m, hRead, hFinite⟩ := Metainfo.exists_reread? h
  exact ⟨{ s with metainfo := m }, by rw [reread?, hRead]; rfl, hFinite⟩

theorem readsBack_of_reread? {s s' : Savepoint} (h : s.reread? = some s')
    (hSame : (s' == s) = true) : s.readsBack = true := by
  obtain ⟨m, hm, rfl⟩ := Option.map_eq_some_iff.1 h
  exact Metainfo.readsBack_of_reread? hm (beq_iff.1 hSame).2

end Savepoint

theorem Json.word?_nat (n : UInt64) : (Json.nat n.toNat).word? = some n := by
  have hBound : n.toNat < wordBound := n.toNat_lt
  simp [Json.word?, Json.nat?_nat hBound (Nat.le_refl _)]

theorem Halo.ofJson?_toJson (h : Halo) : Halo.ofJson? h.toJson = some h := by
  rw [ofJson?, toJson, Json.fields?_record]
  · simp only [List.map_cons, List.map_nil, Option.bind_eq_bind, Option.bind_some, Json.word?_nat]
  · rfl
  · decide

namespace FieldInfo

/-- What a document gives back for a description. -/
def reread? (f : FieldInfo) : Option FieldInfo :=
  f.metainfo.reread?.map fun m => { f with metainfo := m }

/-- True for a description that a document gives back as it was written. -/
def readsBack (f : FieldInfo) : Bool := f.metainfo.readsBack

theorem isWritten_toJson (f : FieldInfo) : f.toJson.IsWritten := by
  refine Json.isWritten_record ?_
  have hHalo : ∀ h : Halo, h.toJson.IsWritten := by
    intro h
    refine Json.isWritten_record ?_
    simp only [List.forall_mem_cons, Json.isWritten_nat, and_self, List.not_mem_nil,
      false_implies, implies_true]
  simp only [List.forall_mem_cons, Json.isWritten_str, Json.isWritten_nat,
    Json.isWritten_array_map (fun d : UInt64 => Json.isWritten_nat d.toNat),
    Json.isWritten_array_map hHalo, f.metainfo.isWritten_toJson, and_self, List.not_mem_nil,
    false_implies, implies_true]

theorem ofJson?_toJson (f : FieldInfo) : ofJson? f.toJson = f.reread? := by
  have hDims : (Json.array (f.dims.map fun d => .nat d.toNat)).list? Json.word? =
      some f.dims := by
    rw [Json.list?_array_map f.dims fun d _ => Json.word?_nat d]
    exact Json.mapM_eq_some_self fun _ _ => rfl
  have hHalos : (Json.array (f.halos.map Halo.toJson)).list? Halo.ofJson? = some f.halos := by
    rw [Json.list?_array_map f.halos fun h _ => Halo.ofJson?_toJson h]
    exact Json.mapM_eq_some_self fun _ _ => rfl
  rw [ofJson?, toJson, Json.fields?_record]
  · simp only [List.map_cons, List.map_nil, Option.bind_eq_bind, Option.bind_some,
      Json.text?_str, Json.choice?_str, ElementType.ofName?_name, Json.word?_nat, hDims, hHalos,
      Option.elim_some,
      Metainfo.ofJson?_toJson, reread?]
    cases f.metainfo.reread? <;> rfl
  · rfl
  · decide

theorem reread?_of_readsBack {f : FieldInfo} (h : f.readsBack = true) : f.reread? = some f := by
  rw [reread?, Metainfo.reread?_of_readsBack h]
  rfl

theorem exists_reread? {f : FieldInfo} (h : f.metainfo.firstNonFinite? = none) :
    ∃ f', f.reread? = some f' ∧ f'.metainfo.firstNonFinite? = none := by
  obtain ⟨m, hRead, hFinite⟩ := Metainfo.exists_reread? h
  exact ⟨{ f with metainfo := m }, by rw [reread?, hRead]; rfl, hFinite⟩

/-- A description is given back with its name and sizes. -/
theorem reread?_eq_some {f f' : FieldInfo} (h : f.reread? = some f') :
    ∃ metainfo, f' = { f with metainfo := metainfo } := by
  obtain ⟨m, -, rfl⟩ := Option.map_eq_some_iff.1 h
  exact ⟨m, rfl⟩

instance : ReflBEq FieldInfo where
  rfl := by
    intro f
    change FieldInfo.beq f f = true
    simp [FieldInfo.beq]

theorem readsBack_of_reread? {f f' : FieldInfo} (h : f.reread? = some f')
    (hSame : (f' == f) = true) : f.readsBack = true := by
  obtain ⟨m, hm, rfl⟩ := Option.map_eq_some_iff.1 h
  change FieldInfo.beq _ _ = true at hSame
  simp only [FieldInfo.beq, Bool.and_eq_true] at hSame
  exact Metainfo.readsBack_of_reread? hm hSame.2

end FieldInfo

/-! ## Whole documents -/

namespace OffsetEntry

/-- True for an entry whose numbers a document can hold. -/
structure IsBounded (e : OffsetEntry) : Prop where
  savepoint_lt : e.savepoint < wordBound
  offset_lt : e.record.extent.offset < wordBound
  length_lt : e.record.extent.length < wordBound

theorem isWritten_toJson (e : OffsetEntry) : e.toJson.IsWritten := by
  refine Json.isWritten_record ?_
  simp only [List.forall_mem_cons, Json.isWritten_str, Json.isWritten_nat, and_self,
    List.not_mem_nil, false_implies, implies_true]

theorem ofJson?_toJson {e : OffsetEntry} (h : e.IsBounded) : ofJson? e.toJson = some e := by
  have hSavepoint := Json.nat?_nat h.savepoint_lt (Nat.le_refl _)
  have hOffset := Json.nat?_nat h.offset_lt (Nat.le_refl _)
  have hLength := Json.nat?_nat h.length_lt (Nat.le_refl _)
  rw [ofJson?, toJson, Json.fields?_record]
  · simp only [List.map_cons, List.map_nil, Option.bind_eq_bind, Option.bind_some,
      Json.text?_str, hSavepoint, hOffset, hLength]
  · rfl
  · decide

end OffsetEntry

namespace Document

/-- True for a document whose numbers stay within 64 bits. -/
structure IsBounded (d : Document) : Prop where
  dataLength_lt : d.dataLength < wordBound
  offsets : ∀ e ∈ d.offsets, e.IsBounded

/-- What the text of a document is read as. -/
def reread? (d : Document) : Option Document := do
  let metainfo ← d.metainfo.reread?
  let fields ← d.fields.mapM FieldInfo.reread?
  let savepoints ← d.savepoints.mapM Savepoint.reread?
  some { d with metainfo := metainfo, fields := fields, savepoints := savepoints }

/-- True for a document whose reals are all given back as they were written. -/
def readsBack (d : Document) : Bool :=
  d.metainfo.readsBack && d.fields.all FieldInfo.readsBack &&
    d.savepoints.all Savepoint.readsBack

theorem isWritten_toJson (d : Document) : d.toJson.IsWritten := by
  refine Json.isWritten_record ?_
  simp only [List.forall_mem_cons, Json.isWritten_str, Json.isWritten_nat,
    d.settings.isWritten_toJson, d.metainfo.isWritten_toJson,
    Json.isWritten_array_map FieldInfo.isWritten_toJson,
    Json.isWritten_array_map Savepoint.isWritten_toJson,
    Json.isWritten_array_map OffsetEntry.isWritten_toJson, and_self, List.not_mem_nil,
    false_implies, implies_true]

/-- The tree of a document is read as the document with its reals read back. -/
theorem ofJson?_toJson {d : Document} (h : d.IsBounded) : ofJson? d.toJson = d.reread? := by
  have hVersion := Json.nat?_nat d.formatVersion.toNat_lt (by decide)
  have hLength := Json.nat?_nat h.dataLength_lt (Nat.le_refl _)
  have hFields := Json.list?_array_map d.fields fun f _ => FieldInfo.ofJson?_toJson f
  have hSavepoints := Json.list?_array_map d.savepoints fun s _ => Savepoint.ofJson?_toJson s
  have hOffsets : (Json.array (d.offsets.map OffsetEntry.toJson)).list? OffsetEntry.ofJson? =
      some d.offsets := by
    rw [Json.list?_array_map d.offsets fun e he => OffsetEntry.ofJson?_toJson (h.offsets e he)]
    exact Json.mapM_eq_some_self fun _ _ => rfl
  rw [ofJson?, toJson, Json.fields?_record]
  -- The binds are taken from the outside in: from the inside out, each is simplified twice.
  · simp only [List.map_cons, List.map_nil, ↓Option.bind_eq_bind, ↓Option.bind_some,
      Json.text?_str, hVersion, ArchiveId.parse?_text, Settings.ofJson?_toJson,
      Option.elim_some, Metainfo.ofJson?_toJson, optionalList?, hFields, hSavepoints, hOffsets,
      hLength, UInt32.ofNat_toNat, reread?]
  · rfl
  · decide

/-- The text of a document is read as the document with its reals read back. -/
theorem parse?_text {d : Document} (h : d.IsBounded) : parse? d.text = d.reread? := by
  rw [parse?, text, Json.parse_pretty d.isWritten_toJson]
  exact ofJson?_toJson h

/-- The recorded length of a document that was read is a number of 64 bits. -/
theorem dataLength_lt_of_parse? {s : String} {d : Document} (h : parse? s = some d) :
    d.dataLength < wordBound := by
  obtain ⟨j, -, hJson⟩ := Option.bind_eq_some_iff.1 h
  unfold ofJson? at hJson
  obtain ⟨members, -, hMembers⟩ := Option.bind_eq_some_iff.1 hJson
  split at hMembers
  · -- the length is read last
    iterate 16 obtain ⟨_, -, hMembers⟩ := Option.bind_eq_some_iff.1 hMembers
    obtain ⟨n, hLength, hDone⟩ := Option.bind_eq_some_iff.1 hMembers
    cases hDone
    exact Json.nat?_lt hLength
  · cases hMembers

theorem reread?_of_readsBack {d : Document} (h : d.readsBack = true) : d.reread? = some d := by
  simp only [readsBack, Bool.and_eq_true, List.all_eq_true] at h
  obtain ⟨⟨hMetainfo, hFields⟩, hSavepoints⟩ := h
  rw [reread?, Metainfo.reread?_of_readsBack hMetainfo,
    Json.mapM_eq_some_self fun f hf => FieldInfo.reread?_of_readsBack (hFields f hf),
    Json.mapM_eq_some_self fun s hs => Savepoint.reread?_of_readsBack (hSavepoints s hs)]
  rfl

/-- Everything but the reals is given back as it was written. -/
theorem reread?_eq_some {d d' : Document} (h : d.reread? = some d') :
    ∃ metainfo fields savepoints, d.metainfo.reread? = some metainfo ∧
      d.fields.mapM FieldInfo.reread? = some fields ∧
      d.savepoints.mapM Savepoint.reread? = some savepoints ∧
      d' = { d with metainfo := metainfo, fields := fields, savepoints := savepoints } := by
  simp only [reread?, Option.bind_eq_bind, Option.bind_eq_some_iff, Option.some.injEq] at h
  obtain ⟨metainfo, hMetainfo, fields, hFields, savepoints, hSavepoints, rfl⟩ := h
  exact ⟨metainfo, fields, savepoints, hMetainfo, hFields, hSavepoints, rfl⟩

end Document

/-! ## Texts as bytes -/

namespace Json

theorem length_le_renderItems (style : Style) (level : Nat) (items : List Json) :
    items.length ≤ (renderItems style level items).length := by
  induction items with
  | nil => exact Nat.zero_le _
  | cons item items ih =>
      simp only [renderItems, List.length_cons, List.length_append]
      omega

/-- An array has a character for each item. -/
theorem length_le_render_array (style : Style) (level : Nat) (items : List Json) :
    items.length ≤ (render style level (.array items)).length := by
  cases items with
  | nil => exact Nat.zero_le _
  | cons item items =>
      have hRest := length_le_renderItems style (level + 1) items
      simp only [render, List.length_cons, List.length_append]
      omega

theorem length_render_le_renderMembers (style : Style) (level : Nat)
    {members : List (Option String × Json)} {m : Option String × Json} (hm : m ∈ members) :
    (render style level m.2).length ≤ (renderMembers style level members).length := by
  induction members with
  | nil => cases hm
  | cons first members ih =>
      simp only [renderMembers, List.length_cons, List.length_append]
      rcases List.mem_cons.1 hm with rfl | hRest
      · omega
      · have hLe := ih hRest
        omega

/-- An object is no shorter than the value of any of its members. -/
theorem length_render_le_object (style : Style) (level : Nat)
    {members : List (Option String × Json)} {m : Option String × Json} (hm : m ∈ members) :
    (render style (level + 1) m.2).length ≤ (render style level (.object members)).length := by
  cases members with
  | nil => cases hm
  | cons first members =>
      simp only [render, List.length_cons, List.length_append]
      rcases List.mem_cons.1 hm with rfl | hRest
      · omega
      · have hLe := length_render_le_renderMembers style (level + 1) hRest
        omega

end Json

namespace Disk

/-- The bytes of a text are read as the text. -/
theorem fromUTF8?_textBytes (s : String) :
    String.fromUTF8? ⟨(textBytes s).toArray⟩ = some s := by
  have hBytes : (⟨(textBytes s).toArray⟩ : ByteArray) = s.toByteArray := rfl
  rw [hBytes]
  simp only [String.fromUTF8?, Option.dite_none_right_eq_some]
  exact ⟨s.isValidUTF8, rfl⟩

theorem textBytes_ofList (cs : List Char) :
    textBytes (String.ofList cs) = cs.flatMap String.utf8EncodeChar := by
  simp [textBytes, List.utf8Encode]

theorem length_le_textBytes (cs : List Char) :
    cs.length ≤ (textBytes (String.ofList cs)).length := by
  rw [textBytes_ofList]
  induction cs with
  | nil => exact Nat.zero_le _
  | cons c cs ih =>
      have hPos := c.utf8Size_pos
      rw [List.flatMap_cons, List.length_append, String.length_utf8EncodeChar, List.length_cons]
      omega

end Disk

/-- A document takes at least a byte for each savepoint. -/
theorem Document.length_savepoints_le (d : Document) :
    d.savepoints.length ≤ (Disk.textBytes d.text).length := by
  have hArray : d.savepoints.length ≤
      (Json.render .pretty 1 (.array (d.savepoints.map Savepoint.toJson))).length := by
    have hItems := Json.length_le_render_array .pretty 1 (d.savepoints.map Savepoint.toJson)
    rwa [List.length_map] at hItems
  have hMember : (some "savepoints", Json.array (d.savepoints.map Savepoint.toJson)) ∈
      ([("format_version", .nat d.formatVersion.toNat),
        ("archive_id", .str d.id.text),
        ("created_at", .str d.createdAt),
        ("updated_at", .str d.updatedAt),
        ("settings", d.settings.toJson),
        ("global_metainfo", d.metainfo.toJson),
        ("fields", .array (d.fields.map FieldInfo.toJson)),
        ("savepoints", .array (d.savepoints.map Savepoint.toJson)),
        ("offsets", .array (d.offsets.map OffsetEntry.toJson)),
        ("data_length", .nat d.dataLength)] : List (String × Json)).map
          fun m => (some m.1, m.2) := by
    simp
  have hObject := Json.length_render_le_object .pretty 0 hMember
  have hBytes := Disk.length_le_textBytes (Json.render .pretty 0 d.toJson)
  calc d.savepoints.length
      ≤ (Json.render .pretty 1 (.array (d.savepoints.map Savepoint.toJson))).length := hArray
    _ ≤ (Json.render .pretty 0 d.toJson).length := hObject
    _ ≤ (Disk.textBytes d.text).length := hBytes

end FieldArchive

import FieldArchive.Proofs.Json.Record
import FieldArchive.Proofs.Matching
import FieldArchive.Proofs.Metainfo.Identity
import FieldArchive.Proofs.Number.Reading

/-!
# Metainfo in documents, read back

A document gives back every value but a real exactly as it was written.  A real
is given back as the number that its shortest digits are read as, which may be
another one, so `reread?` says what becomes of a value and `readsBack` when it
stays the same.  A set is read back as a set under the same keys, and it stays
the same set exactly if each of its values does.  What is finite is given back in
any case, and what is given back is finite again.
-/

namespace FieldArchive

namespace MetaValue

/-- What a document gives back for a value. -/
def reread? : MetaValue → Option MetaValue
  | float32 x => (x.toJson.real? .single).map .float32
  | float64 x => (x.toJson.real? .double).map .float64
  | v => some v

/-- True for a value that a document gives back as it was written. -/
def readsBack : MetaValue → Bool
  | float32 x => x.readsBack
  | float64 x => x.readsBack
  | _ => true

theorem reread?_eq_some_iff {v : MetaValue} : v.reread? = some v ↔ v.readsBack = true := by
  cases v <;> simp [reread?, readsBack, Binary.readsBack]

/-- A document gives back a finite value for a finite value. -/
theorem exists_reread? {v : MetaValue} (h : v.isFinite = true) :
    ∃ v', v.reread? = some v' ∧ v'.isFinite = true := by
  cases v with
  | float32 x =>
      obtain ⟨y, hRead, hFinite⟩ := Binary.exists_real? (Or.inl rfl) h
      exact ⟨.float32 y, by rw [reread?, hRead]; rfl, hFinite⟩
  | float64 x =>
      obtain ⟨y, hRead, hFinite⟩ := Binary.exists_real? (Or.inr rfl) h
      exact ⟨.float64 y, by rw [reread?, hRead]; rfl, hFinite⟩
  | _ => exact ⟨_, rfl, rfl⟩

theorem isWritten_toJson (v : MetaValue) : v.toJson.IsWritten := by
  refine Json.isWritten_record ?_
  intro m hm
  simp only [List.mem_cons, List.not_mem_nil, or_false] at hm
  rcases hm with rfl | rfl
  · exact Json.isWritten_str _
  · cases v with
    | bool b => exact .bool b
    | int32 n => exact Json.isWritten_int _
    | int64 n => exact Json.isWritten_int _
    | float32 x => exact x.isWritten_toJson
    | float64 x => exact x.isWritten_toJson
    | string s => exact Json.isWritten_str s

theorem ofContent?_content (v : MetaValue) : ofContent? v.typeName v.content = v.reread? := by
  cases v with
  | bool b => rfl
  | int32 n =>
      have hLow := Int32.le_toInt n
      have hHigh := Int32.toInt_lt n
      have hRead : (Json.int n.toInt).int? 0x80000000 = some n.toInt :=
        Json.int?_int (by omega) (by omega) (by decide)
      simp [ofContent?, typeName, content, reread?, hRead]
  | int64 n =>
      have hLow := Int64.le_toInt n
      have hHigh := Int64.toInt_lt n
      have hRead : (Json.int n.toInt).int? 0x8000000000000000 = some n.toInt :=
        Json.int?_int (by omega) (by omega) (by decide)
      simp [ofContent?, typeName, content, reread?, hRead]
  | float32 x => rfl
  | float64 x => rfl
  | string s => rfl

theorem ofJson?_toJson (v : MetaValue) : ofJson? v.toJson = v.reread? := by
  have hFields : (Json.record [("type", .str v.typeName), ("value", v.content)]).fields?
      ["type", "value"] = some [some (.str v.typeName), some v.content] :=
    Json.fields?_record rfl (by decide)
  rw [toJson, ofJson?.eq_3 _ (by rintro _ _ ⟨⟩) (by rintro _ ⟨⟩)]
  simp only [hFields, Option.bind_eq_bind, Option.bind_some, Json.choice?_str,
    ofContent?_content]

end MetaValue

namespace Metainfo

theorem entries_set_of_not_mem {m : Metainfo} {key : String} (h : key ∉ m.keys)
    (value : MetaValue) : (m.set key value).entries = m.entries ++ [(key, value)] := by
  have hNone : m.index.get? key = none := by
    refine Index.get?_eq_none_iff.2 fun k hk => ?_
    simp only [beq_eq_false_iff_ne, ne_eq]
    rintro rfl
    exact h hk
  simp only [entries, set, Index.insert_of_get?_eq_none hNone]

/-- Setting entries under distinct keys keeps them in order. -/
theorem entries_ofEntries {entries : List (String × MetaValue)}
    (h : (entries.map Prod.fst).Nodup) : (ofEntries entries).entries = entries := by
  have hFold : ∀ (rest : List (String × MetaValue)) (m : Metainfo),
      ((m.entries ++ rest).map Prod.fst).Nodup →
      (rest.foldl (fun m e => m.set e.1 e.2) m).entries = m.entries ++ rest := by
    intro rest
    induction rest with
    | nil => intro m _; simp
    | cons e rest ih =>
        intro m hm
        have hFresh : e.1 ∉ m.keys := by
          simp only [List.map_append, List.map_cons, List.nodup_append, List.nodup_cons] at hm
          intro hMem
          exact hm.2.2 e.1 hMem e.1 (by simp) rfl
        have hSet := entries_set_of_not_mem hFresh e.2
        rw [List.foldl_cons, ih, hSet]
        · simp
        · rw [hSet]
          simpa using hm
  exact hFold entries empty h

theorem ext_entries {a b : Metainfo} (h : a.entries = b.entries) : a = b := by
  obtain ⟨⟨pairs⟩, _⟩ := a
  obtain ⟨⟨pairs'⟩, _⟩ := b
  simp only [entries] at h
  subst h
  rfl

theorem ofEntries_entries (m : Metainfo) : ofEntries m.entries = m :=
  ext_entries (entries_ofEntries m.keys_nodup)

/-- What a document gives back for an entry. -/
def rereadPair? (e : String × MetaValue) : Option (String × MetaValue) :=
  e.2.reread?.map fun v => (e.1, v)

/-- What a document gives back for a set. -/
def reread? (m : Metainfo) : Option Metainfo := (m.entries.mapM rereadPair?).map ofEntries

/-- True for a set that a document gives back as it was written. -/
def readsBack (m : Metainfo) : Bool := m.entries.all fun e => e.2.readsBack

theorem readsBack_set {m : Metainfo} (h : m.readsBack = true) (key : String) {value : MetaValue}
    (hValue : value.readsBack = true) : (m.set key value).readsBack = true := by
  rw [readsBack, List.all_eq_true] at h ⊢
  intro e he
  rcases Index.mem_pairs_of_insert he with hOld | hNew
  · exact h e hOld
  · rw [hNew]
    exact hValue

theorem firstNonFinite?_eq_none_iff {m : Metainfo} :
    m.firstNonFinite? = none ↔ ∀ e ∈ m.entries, e.2.isFinite = true := by
  simp [firstNonFinite?]

theorem firstNonFinite?_set {m : Metainfo} (h : m.firstNonFinite? = none) (key : String)
    {value : MetaValue} (hValue : value.isFinite = true) :
    (m.set key value).firstNonFinite? = none := by
  rw [firstNonFinite?_eq_none_iff] at h ⊢
  intro e he
  rcases Index.mem_pairs_of_insert he with hOld | hNew
  · exact h e hOld
  · rw [hNew]
    exact hValue

theorem isWritten_toJson (m : Metainfo) : m.toJson.IsWritten := by
  refine Json.isWritten_array_map (fun e => Json.isWritten_record ?_) m.entries
  intro x hx
  simp only [List.mem_cons, List.not_mem_nil, or_false] at hx
  rcases hx with rfl | rfl
  · exact Json.isWritten_str _
  · exact e.2.isWritten_toJson

theorem entryOfJson?_entryToJson (e : String × MetaValue) :
    entryOfJson? (entryToJson e) = rereadPair? e := by
  have hFields : (Json.record [("key", .str e.1), ("value", e.2.toJson)]).fields?
      ["key", "value"] = some [some (.str e.1), some e.2.toJson] :=
    Json.fields?_record rfl (by decide)
  simp only [entryOfJson?, entryToJson, hFields, Option.bind_eq_bind,
    Option.bind_some, Json.text?_str, MetaValue.ofJson?_toJson, rereadPair?]
  cases e.2.reread? <;> rfl

theorem ofJson?_toJson (m : Metainfo) : ofJson? m.toJson = m.reread? := by
  rw [ofJson?, toJson,
    Json.list?_array_map m.entries fun e _ => entryOfJson?_entryToJson e]
  rfl

theorem rereadPair?_of_readsBack {e : String × MetaValue} (h : e.2.readsBack = true) :
    rereadPair? e = some e := by
  rw [rereadPair?, MetaValue.reread?_eq_some_iff.2 h]
  rfl

theorem reread?_of_readsBack {m : Metainfo} (h : m.readsBack = true) : m.reread? = some m := by
  have hAll : ∀ e ∈ m.entries, e.2.readsBack = true := by simpa [readsBack] using h
  rw [reread?, Json.mapM_eq_some_self fun e he => rereadPair?_of_readsBack (hAll e he),
    Option.map_some, ofEntries_entries]

/-- Reading entries back keeps their keys. -/
theorem forall₂_rereadPair? {entries entries' : List (String × MetaValue)}
    (h : entries.mapM rereadPair? = some entries') :
    List.Forall₂ (fun e e' => e.1 = e'.1 ∧ e.2.reread? = some e'.2) entries entries' := by
  refine (forall₂_of_mapM h).imp fun e e' he => ?_
  obtain ⟨v, hv, rfl⟩ := Option.map_eq_some_iff.1 he
  exact ⟨rfl, hv⟩

theorem map_fst_of_reread {entries entries' : List (String × MetaValue)}
    (h : List.Forall₂ (fun e e' => e.1 = e'.1 ∧ e.2.reread? = some e'.2) entries entries') :
    entries.map Prod.fst = entries'.map Prod.fst := by
  induction h with
  | nil => rfl
  | cons he _ ih => simp only [List.map_cons, he.1, ih]

/-- A document gives back a set of finite values for a set of finite values. -/
theorem exists_reread? {m : Metainfo} (h : m.firstNonFinite? = none) :
    ∃ m', m.reread? = some m' ∧ m'.firstNonFinite? = none := by
  have hEntries : ∀ e ∈ m.entries, ∃ e', rereadPair? e = some e' ∧ e'.2.isFinite = true := by
    intro e he
    obtain ⟨v, hRead, hFinite⟩ :=
      MetaValue.exists_reread? (firstNonFinite?_eq_none_iff.1 h e he)
    exact ⟨(e.1, v), by rw [rereadPair?, hRead]; rfl, hFinite⟩
  obtain ⟨entries', hMap, hFinite⟩ := exists_mapM hEntries
  have hNodup : (entries'.map Prod.fst).Nodup := by
    rw [← map_fst_of_reread (forall₂_rereadPair? hMap)]
    exact m.keys_nodup
  refine ⟨ofEntries entries', by rw [reread?, hMap]; rfl, ?_⟩
  rw [firstNonFinite?_eq_none_iff, entries_ofEntries hNodup]
  exact hFinite

/-- A set that is given back as an interchangeable one is given back as it was. -/
theorem readsBack_of_reread? {m m' : Metainfo} (h : m.reread? = some m')
    (hSame : (m' == m) = true) : m.readsBack = true := by
  obtain ⟨entries', hEntries, rfl⟩ := Option.map_eq_some_iff.1 h
  have hPairs := forall₂_rereadPair? hEntries
  have hNodup : (entries'.map Prod.fst).Nodup := by
    rw [← map_fst_of_reread hPairs]
    exact m.keys_nodup
  rw [readsBack, List.all_eq_true]
  rintro ⟨key, value⟩ he
  obtain ⟨⟨key', value'⟩, he', rfl, hValue⟩ := exists_right_of_forall₂ hPairs he
  -- the value given back and the written one are both found under their key
  have hOld : m.get? key = some value := get?_eq_some_iff.2 he
  have hNew : (ofEntries entries').get? key = some value' :=
    get?_eq_some_iff.2 (by rw [entries_ofEntries hNodup]; exact he')
  have hEqual : value' = value := by
    have hLookup := beq_iff_get?.1 hSame key
    rw [hNew, hOld] at hLookup
    exact Option.some.inj hLookup
  rw [hEqual] at hValue
  exact MetaValue.reread?_eq_some_iff.1 hValue

end Metainfo
end FieldArchive

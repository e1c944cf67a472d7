import FieldArchive.Proofs.Checksum
import FieldArchive.Proofs.Codec
import FieldArchive.Proofs.Document.Tables
import FieldArchive.Proofs.Document.Text
import FieldArchive.Proofs.Packing
import Mathlib.Data.Set.Function

/-!
# Ledgers

A ledger is what an archive is about: its metainfo, fields and savepoints, and
the snapshots that were stored, with their bytes.  It determines the document of
the archive and the contents of its data file.  A ledger is valid if it arises
from operations that an archive accepts, and if the digest tells its payloads
apart.  The document of a valid ledger is sound, so it can be loaded.
-/

namespace FieldArchive

/-- A snapshot that was stored: its key and its bytes. -/
structure Write where
  /-- The number of the savepoint. -/
  savepoint : Nat
  field : String
  payload : List UInt8
  deriving DecidableEq

/-- What an archive is about. -/
structure Ledger where
  metainfo : Metainfo
  fields : List FieldInfo
  savepoints : List Savepoint
  /-- The stored snapshots, in order. -/
  writes : List Write

namespace Ledger

/-- The ledger of a new archive. -/
def empty : Ledger := ⟨.empty, [], [], []⟩

def payloads (l : Ledger) : List (List UInt8) := l.writes.map Write.payload

/-- The contents of the data file. -/
def content (l : Ledger) : List UInt8 := Packing.content l.payloads

/-- The record of a payload. -/
def recordOf (algorithm : ChecksumAlgorithm) (l : Ledger) (p : List UInt8) : OffsetRecord :=
  ⟨Checksum.compute algorithm p, Packing.extentOf l.payloads p⟩

/-- The entry of a stored snapshot. -/
def entryOf (algorithm : ChecksumAlgorithm) (l : Ledger) (w : Write) : OffsetEntry :=
  ⟨w.savepoint, w.field, l.recordOf algorithm w.payload⟩

/-- The entries of all stored snapshots. -/
def entries (algorithm : ChecksumAlgorithm) (l : Ledger) : List OffsetEntry :=
  l.writes.map (l.entryOf algorithm)

/-- The document that describes a ledger. -/
def document (l : Ledger) (id : ArchiveId) (createdAt updatedAt : String)
    (settings : Settings) : Document :=
  { formatVersion := Document.currentVersion
    id := id
    createdAt := createdAt
    updatedAt := updatedAt
    settings := settings
    metainfo := l.metainfo
    fields := l.fields
    savepoints := l.savepoints
    offsets := l.entries settings.checksum
    dataLength := l.content.length }

/-- True if documents give back the metainfo of a ledger as it was written. -/
def readsBack (l : Ledger) : Bool :=
  l.metainfo.readsBack && l.fields.all FieldInfo.readsBack &&
    l.savepoints.all Savepoint.readsBack

/-- A ledger whose metainfo documents can hold. -/
structure IsFinite (l : Ledger) : Prop where
  metainfo : l.metainfo.firstNonFinite? = none
  fields : ∀ f ∈ l.fields, f.metainfo.firstNonFinite? = none
  savepoints : ∀ p ∈ l.savepoints, p.metainfo.firstNonFinite? = none

/-- A ledger of accepted operations whose payloads the digest tells apart. -/
structure IsValid (algorithm : ChecksumAlgorithm) (l : Ledger) : Prop where
  names : (l.fields.map FieldInfo.name).Nodup
  valid : ∀ f ∈ l.fields, f.validate = .ok ()
  savepoints : l.savepoints.Pairwise fun a b => (a == b) = false
  savepoint_lt : ∀ w ∈ l.writes, w.savepoint < l.savepoints.length
  keys : (l.writes.map fun w => (w.savepoint, w.field)).Nodup
  described : ∀ w ∈ l.writes, ∃ f ∈ l.fields, f.name = w.field ∧ f.byteSize = w.payload.length
  injective : Set.InjOn (Checksum.compute algorithm) {p | p ∈ l.payloads}
  content_le : l.content.length ≤ Disk.maxFileLength
  finite : l.IsFinite

theorem isValid_empty (algorithm : ChecksumAlgorithm) : empty.IsValid algorithm where
  names := List.nodup_nil
  valid _ h := by cases h
  savepoints := List.Pairwise.nil
  savepoint_lt _ h := by cases h
  keys := List.nodup_nil
  described _ h := by cases h
  injective := by
    intro p hp
    cases hp
  content_le := Nat.zero_le _
  finite := ⟨rfl, fun _ h => (List.not_mem_nil h).elim, fun _ h => (List.not_mem_nil h).elim⟩

variable {algorithm : ChecksumAlgorithm} {l l' : Ledger}

theorem mem_payloads_of_mem {w : Write} (h : w ∈ l.writes) : w.payload ∈ l.payloads :=
  List.mem_map_of_mem h

/-! ## Documents of ledgers -/

theorem mem_entries {e : OffsetEntry} :
    e ∈ l.entries algorithm ↔ ∃ w ∈ l.writes, l.entryOf algorithm w = e :=
  List.mem_map

/-- The document of a valid ledger can be loaded. -/
theorem IsValid.isSound {settings : Settings} (h : l.IsValid settings.checksum) (id : ArchiveId)
    (createdAt updatedAt : String) : (l.document id createdAt updatedAt settings).IsSound where
  names := h.names
  valid := h.valid
  savepoints := h.savepoints
  savepoint_lt e he := by
    obtain ⟨w, hw, rfl⟩ := mem_entries.1 he
    exact h.savepoint_lt w hw
  keys := by
    change ((l.writes.map (l.entryOf settings.checksum)).map fun e => (e.savepoint, e.field)).Nodup
    rw [List.map_map]
    exact h.keys
  described e he := by
    obtain ⟨w, hw, rfl⟩ := mem_entries.1 he
    exact h.described w hw
  wellFormed e he := by
    obtain ⟨w, hw, rfl⟩ := mem_entries.1 he
    exact Checksum.isWellFormed_compute _ _
  shared e he e' he' hSame := by
    obtain ⟨w, hw, rfl⟩ := mem_entries.1 he
    obtain ⟨w', hw', rfl⟩ := mem_entries.1 he'
    have hPayload : w.payload = w'.payload :=
      h.injective (mem_payloads_of_mem hw) (mem_payloads_of_mem hw') hSame
    simp only [entryOf, hPayload]
  fits e he := by
    obtain ⟨w, hw, rfl⟩ := mem_entries.1 he
    have hEnd := Packing.offsetOf_add_length_le (mem_payloads_of_mem hw)
    have hContent := h.content_le
    have hWord : Disk.maxFileLength < wordBound := by decide
    have hStop : Packing.offsetOf l.payloads w.payload + w.payload.length < wordBound := by
      simp only [content] at hContent
      omega
    simp only [OffsetTable.fits, entryOf, recordOf, Packing.extentOf, Extent.stop?, hStop, if_true,
      decide_eq_true_eq]
    exact hEnd

/-- The numbers in the document of a valid ledger stay within 64 bits, unless it
has more savepoints than a file has bytes. -/
theorem IsValid.isBounded {settings : Settings} (h : l.IsValid settings.checksum)
    (hSavepoints : l.savepoints.length ≤ Disk.maxFileLength) (id : ArchiveId)
    (createdAt updatedAt : String) :
    (l.document id createdAt updatedAt settings).IsBounded := by
  have hWord : Disk.maxFileLength < wordBound := by decide
  have hContent := h.content_le
  refine ⟨by change l.content.length < wordBound; omega, ?_⟩
  intro e he
  obtain ⟨w, hw, rfl⟩ := mem_entries.1 he
  have hEnd := Packing.offsetOf_add_length_le (mem_payloads_of_mem hw)
  have hNumber := h.savepoint_lt w hw
  simp only [content] at hContent
  refine ⟨?_, ?_, ?_⟩
  · change w.savepoint < wordBound
    omega
  · change Packing.offsetOf l.payloads w.payload < wordBound
    omega
  · change w.payload.length < wordBound
    omega

/-! ## Growing ledgers -/

/-- Store one more snapshot. -/
def addWrite (l : Ledger) (w : Write) : Ledger := { l with writes := l.writes ++ [w] }

/-- Make one more savepoint known. -/
def addSavepoint (l : Ledger) (s : Savepoint) : Ledger :=
  { l with savepoints := l.savepoints ++ [s] }

/-- Describe one more field. -/
def addField (l : Ledger) (info : FieldInfo) : Ledger := { l with fields := l.fields ++ [info] }

/-- Set a metainfo value of the field at a position. -/
def setFieldMetainfo (l : Ledger) (i : Nat) (key : String) (value : MetaValue) : Ledger :=
  { l with fields := l.fields.modify i fun info =>
      { info with metainfo := info.metainfo.set key value } }

/-- Set a metainfo value. -/
def setMetainfo (l : Ledger) (key : String) (value : MetaValue) : Ledger :=
  { l with metainfo := l.metainfo.set key value }

theorem payloads_addWrite (l : Ledger) (w : Write) :
    (l.addWrite w).payloads = l.payloads ++ [w.payload] := by
  simp [payloads, addWrite]

/-- Stored snapshots keep their entries. -/
theorem entries_addWrite (algorithm : ChecksumAlgorithm) (l : Ledger) (w : Write) :
    (l.addWrite w).entries algorithm =
      l.entries algorithm ++ [(l.addWrite w).entryOf algorithm w] := by
  have hOld : ∀ w' ∈ l.writes,
      (l.addWrite w).entryOf algorithm w' = l.entryOf algorithm w' := by
    intro w' hw'
    simp only [entryOf, recordOf, payloads_addWrite,
      Packing.extentOf_append_of_mem (mem_payloads_of_mem hw')]
  rw [entries, addWrite, List.map_append, List.map_singleton]
  congr 1
  exact List.map_congr_left hOld

theorem IsValid.setMetainfo (h : l.IsValid algorithm) (key : String) {value : MetaValue}
    (hFinite : value.isFinite = true) : (l.setMetainfo key value).IsValid algorithm :=
  ⟨h.names, h.valid, h.savepoints, h.savepoint_lt, h.keys, h.described, h.injective, h.content_le,
    Metainfo.firstNonFinite?_set h.finite.metainfo key hFinite, h.finite.fields,
    h.finite.savepoints⟩

theorem IsValid.addField (h : l.IsValid algorithm) {info : FieldInfo}
    (hFresh : info.name ∉ l.fields.map FieldInfo.name) (hValid : info.validate = .ok ())
    (hFinite : info.metainfo.firstNonFinite? = none) :
    (l.addField info).IsValid algorithm where
  names := by
    simp only [Ledger.addField, List.map_append, List.map_singleton]
    refine List.nodup_append.2 ⟨h.names, by simp, ?_⟩
    intro a ha b hb hSame
    rw [List.mem_singleton.1 hb] at hSame
    exact hFresh (hSame ▸ ha)
  valid f hf := by
    rcases List.mem_append.1 hf with hOld | hNew
    · exact h.valid f hOld
    · rw [List.mem_singleton.1 hNew]
      exact hValid
  savepoints := h.savepoints
  savepoint_lt := h.savepoint_lt
  keys := h.keys
  described w hw := by
    obtain ⟨f, hf, hName, hSize⟩ := h.described w hw
    exact ⟨f, List.mem_append_left _ hf, hName, hSize⟩
  injective := h.injective
  content_le := h.content_le
  finite := by
    refine ⟨h.finite.metainfo, fun f hf => ?_, h.finite.savepoints⟩
    rcases List.mem_append.1 hf with hOld | hNew
    · exact h.finite.fields f hOld
    · rw [List.mem_singleton.1 hNew]
      exact hFinite

theorem IsValid.setFieldMetainfo (h : l.IsValid algorithm) (i : Nat) (key : String)
    {value : MetaValue} (hFinite : value.isFinite = true) :
    (l.setFieldMetainfo i key value).IsValid algorithm := by
  -- each description keeps its name and all sizes
  have hSame : ∀ n, (l.setFieldMetainfo i key value).fields[n]? =
      (l.fields[n]?).map fun f =>
        if i = n then { f with metainfo := f.metainfo.set key value } else f := by
    intro n
    simp [Ledger.setFieldMetainfo, List.getElem?_modify]
  refine ⟨?_, ?_, h.savepoints, h.savepoint_lt, h.keys, ?_, h.injective, h.content_le,
    h.finite.metainfo, ?_, h.finite.savepoints⟩
  · have hNames : (l.setFieldMetainfo i key value).fields.map FieldInfo.name =
        l.fields.map FieldInfo.name := by
      refine List.ext_getElem? fun n => ?_
      rw [List.getElem?_map, List.getElem?_map, hSame, Option.map_map]
      congr 1
      funext f
      simp only [Function.comp_apply]
      split <;> rfl
    rw [hNames]
    exact h.names
  · intro f hf
    obtain ⟨n, hn⟩ := List.getElem?_of_mem hf
    rw [hSame] at hn
    obtain ⟨f', hf', rfl⟩ := Option.map_eq_some_iff.1 hn
    have hValid := h.valid f' (List.mem_of_getElem? hf')
    split
    · exact hValid
    · exact hValid
  · intro w hw
    obtain ⟨f, hf, hName, hSize⟩ := h.described w hw
    obtain ⟨n, hn⟩ := List.getElem?_of_mem hf
    have hNew := hSame n
    rw [hn, Option.map_some] at hNew
    refine ⟨_, List.mem_of_getElem? hNew, ?_, ?_⟩
    · split <;> exact hName
    · split <;> exact hSize
  · intro f hf
    obtain ⟨n, hn⟩ := List.getElem?_of_mem hf
    rw [hSame] at hn
    obtain ⟨f', hf', rfl⟩ := Option.map_eq_some_iff.1 hn
    have hOld := h.finite.fields f' (List.mem_of_getElem? hf')
    split
    · exact Metainfo.firstNonFinite?_set hOld key hFinite
    · exact hOld

theorem IsValid.addSavepoint (h : l.IsValid algorithm) {s : Savepoint}
    (hFresh : ∀ known ∈ l.savepoints, (known == s) = false)
    (hFinite : s.metainfo.firstNonFinite? = none) :
    (l.addSavepoint s).IsValid algorithm where
  names := h.names
  valid := h.valid
  savepoints := by
    refine List.pairwise_append.2 ⟨h.savepoints, List.pairwise_singleton _ _, ?_⟩
    intro known hKnown s' hs'
    rw [List.mem_singleton.1 hs']
    exact hFresh known hKnown
  savepoint_lt w hw := by
    have hLt := h.savepoint_lt w hw
    simp only [Ledger.addSavepoint, List.length_append]
    omega
  keys := h.keys
  described := h.described
  injective := h.injective
  content_le := h.content_le
  finite := by
    refine ⟨h.finite.metainfo, h.finite.fields, fun p hp => ?_⟩
    rcases List.mem_append.1 hp with hOld | hNew
    · exact h.finite.savepoints p hOld
    · rw [List.mem_singleton.1 hNew]
      exact hFinite

theorem IsValid.addWrite (h : l.IsValid algorithm) {w : Write}
    (hLt : w.savepoint < l.savepoints.length)
    (hFree : ∀ w' ∈ l.writes, (w'.savepoint, w'.field) ≠ (w.savepoint, w.field))
    (hDescribed : ∃ f ∈ l.fields, f.name = w.field ∧ f.byteSize = w.payload.length)
    (hInjective : Set.InjOn (Checksum.compute algorithm) {p | p ∈ l.payloads ++ [w.payload]})
    (hContent : (l.addWrite w).content.length ≤ Disk.maxFileLength) :
    (l.addWrite w).IsValid algorithm where
  names := h.names
  valid := h.valid
  savepoints := h.savepoints
  savepoint_lt w' hw' := by
    rcases List.mem_append.1 hw' with hOld | hNew
    · exact h.savepoint_lt w' hOld
    · rw [List.mem_singleton.1 hNew]
      exact hLt
  keys := by
    simp only [Ledger.addWrite, List.map_append, List.map_singleton]
    refine List.nodup_append.2 ⟨h.keys, by simp, ?_⟩
    intro a ha b hb
    obtain ⟨w', hw', rfl⟩ := List.mem_map.1 ha
    rw [List.mem_singleton.1 hb]
    exact hFree w' hw'
  described w' hw' := by
    rcases List.mem_append.1 hw' with hOld | hNew
    · exact h.described w' hOld
    · rw [List.mem_singleton.1 hNew]
      exact hDescribed
  injective := by
    rw [payloads_addWrite]
    exact hInjective
  content_le := hContent
  finite := ⟨h.finite.metainfo, h.finite.fields, h.finite.savepoints⟩

/-- The number that a savepoint has, or gets when it is made known. -/
def numberOf (l : Ledger) (s : Savepoint) : Nat :=
  (l.savepoints.findIdx? fun known => known == s).getD l.savepoints.length

/-- Make a savepoint known, unless an interchangeable one is. -/
def register (l : Ledger) (s : Savepoint) : Ledger :=
  match l.savepoints.findIdx? fun known => known == s with
  | some _ => l
  | none => l.addSavepoint s

theorem register_cases (l : Ledger) (s : Savepoint) :
    (l.register s = l ∧ l.numberOf s < l.savepoints.length) ∨
    (l.register s = l.addSavepoint s ∧ l.numberOf s = l.savepoints.length ∧
      ∀ known ∈ l.savepoints, (known == s) = false) := by
  unfold register numberOf
  cases hFind : l.savepoints.findIdx? fun known => known == s with
  | some n =>
      obtain ⟨hLt, -, -⟩ := List.findIdx?_eq_some_iff_getElem.1 hFind
      exact Or.inl ⟨rfl, hLt⟩
  | none => exact Or.inr ⟨rfl, rfl, List.findIdx?_eq_none_iff.1 hFind⟩

theorem register_writes (l : Ledger) (s : Savepoint) : (l.register s).writes = l.writes := by
  rcases l.register_cases s with ⟨h, -⟩ | ⟨h, -, -⟩ <;> rw [h]
  rfl

theorem register_payloads (l : Ledger) (s : Savepoint) :
    (l.register s).payloads = l.payloads := by
  rw [payloads, register_writes, payloads]

theorem register_content (l : Ledger) (s : Savepoint) : (l.register s).content = l.content := by
  rw [content, register_payloads, content]

theorem register_fields (l : Ledger) (s : Savepoint) : (l.register s).fields = l.fields := by
  rcases l.register_cases s with ⟨h, -⟩ | ⟨h, -, -⟩ <;> rw [h]
  rfl

theorem register_metainfo (l : Ledger) (s : Savepoint) :
    (l.register s).metainfo = l.metainfo := by
  rcases l.register_cases s with ⟨h, -⟩ | ⟨h, -, -⟩ <;> rw [h]
  rfl

theorem savepoints_isPrefix_register (l : Ledger) (s : Savepoint) :
    l.savepoints <+: (l.register s).savepoints := by
  rcases l.register_cases s with ⟨h, -⟩ | ⟨h, -, -⟩ <;> rw [h]
  exact List.prefix_append _ _

theorem numberOf_lt_register (l : Ledger) (s : Savepoint) :
    l.numberOf s < (l.register s).savepoints.length := by
  rcases l.register_cases s with ⟨h, hLt⟩ | ⟨h, hNumber, -⟩
  · rw [h]
    exact hLt
  · rw [h, hNumber, addSavepoint, List.length_append, List.length_singleton]
    omega

/-- The savepoint of the number is interchangeable with the registered one. -/
theorem getElem?_numberOf (l : Ledger) (s : Savepoint) :
    ∃ known, (l.register s).savepoints[l.numberOf s]? = some known ∧ (known == s) = true := by
  unfold register numberOf
  cases hFind : l.savepoints.findIdx? fun known => known == s with
  | some n =>
      obtain ⟨hLt, hSame, -⟩ := List.findIdx?_eq_some_iff_getElem.1 hFind
      exact ⟨l.savepoints[n], List.getElem?_eq_getElem hLt, hSame⟩
  | none => exact ⟨s, by simp [addSavepoint], BEq.rfl⟩

theorem IsValid.register (h : l.IsValid algorithm) {s : Savepoint}
    (hFinite : s.metainfo.firstNonFinite? = none) : (l.register s).IsValid algorithm := by
  rcases l.register_cases s with ⟨hSame, -⟩ | ⟨hNew, -, hFresh⟩
  · rw [hSame]
    exact h
  · rw [hNew]
    exact h.addSavepoint hFresh hFinite

/-- A ledger that describes the fields of another as well, up to their metainfo. -/
def Describes (l l' : Ledger) : Prop :=
  ∀ f ∈ l'.fields, ∃ f' ∈ l.fields, f'.name = f.name ∧ f'.agreesWith f = true

theorem describes_of_fields_eq (h : l.fields = l'.fields) : l.Describes l' := fun f hf =>
  ⟨f, by rw [h]; exact hf, rfl, FieldInfo.agreesWith_iff.2 ⟨rfl, rfl, rfl⟩⟩

/-- A ledger that has all of another except for its last savepoints.  Unless `exact`
holds, the archive and its fields may have other metainfo. -/
structure Covers (saved : Ledger) (exact : Prop) (live : Ledger) : Prop where
  metainfo : exact → saved.metainfo = live.metainfo
  fields : exact → saved.fields = live.fields
  describes : saved.Describes live
  savepoints : saved.savepoints <+: live.savepoints
  writes : saved.writes = live.writes

theorem Covers.refl (exact : Prop) (l : Ledger) : l.Covers exact l :=
  ⟨fun _ => rfl, fun _ => rfl, describes_of_fields_eq rfl, List.prefix_refl _, rfl⟩

theorem Covers.content_eq {exact : Prop} {saved live : Ledger} (h : saved.Covers exact live) :
    saved.content = live.content := by
  rw [content, payloads, h.writes, ← payloads, ← content]

theorem Covers.weaken {exact exact' : Prop} {saved live : Ledger} (h : saved.Covers exact live)
    (hImp : exact' → exact) : saved.Covers exact' live :=
  ⟨fun hExact => h.metainfo (hImp hExact), fun hExact => h.fields (hImp hExact), h.describes,
    h.savepoints, h.writes⟩

theorem Covers.register {exact : Prop} {saved live : Ledger} (h : saved.Covers exact live)
    (s : Savepoint) : saved.Covers exact (live.register s) where
  metainfo hExact := by rw [register_metainfo, h.metainfo hExact]
  fields hExact := by rw [register_fields, h.fields hExact]
  describes f hf := h.describes f (by rwa [register_fields] at hf)
  savepoints := h.savepoints.trans (live.savepoints_isPrefix_register s)
  writes := by rw [register_writes, h.writes]

/-- Contents grow at the end. -/
theorem content_isPrefix (h : l.writes <+: l'.writes) : l.content <+: l'.content := by
  obtain ⟨more, hMore⟩ := h
  have hPayloads : l'.payloads = l.payloads ++ more.map Write.payload := by
    rw [payloads, ← hMore, List.map_append]
    rfl
  rw [content, content, hPayloads]
  exact Packing.content_isPrefix_append _ _

end Ledger
end FieldArchive

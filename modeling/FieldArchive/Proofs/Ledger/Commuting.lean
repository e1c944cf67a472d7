import FieldArchive.Proofs.Archive.Requests
import Mathlib.Data.List.Perm.Basic

/-!
# Snapshots stored in any order

The order in which snapshots are stored decides the numbers of savepoints, the order of
entries and the ranges of the data file.  What can be asked of a ledger without naming
any of these does not depend on it: which savepoints are known (`Ledger.knows`), which
bytes are stored under a key (`Ledger.Has`), and the payloads up to their order.  Ledgers
that agree in this are `Ledger.Alike`, and storing the same blobs in another order gives
such a ledger (`Ledger.alike_storeAll`).

Whether bytes are refused depends on the fields and on their own key alone
(`Ledger.refusal?_congr`), so snapshots with other keys make no difference.
-/

namespace FieldArchive

open Archive

namespace Ledger

variable {l l' : Ledger} {s : Settings} {point probe : Savepoint} {field : String}
  {p : List UInt8} {blob : Blob} {blobs blobs' : List Blob}

/-! ## What a ledger has -/

/-- True if a savepoint interchangeable with the probe is known. -/
def knows (l : Ledger) (probe : Savepoint) : Bool := l.savepoints.any (· == probe)

/-- Bytes are stored under a key. -/
def Has (l : Ledger) (probe : Savepoint) (field : String) (p : List UInt8) : Prop :=
  ∃ w ∈ l.writes, l.IsAt w probe ∧ w.field = field ∧ w.payload = p

/-- No savepoint is known twice, and snapshots belong to known ones. -/
structure IsNumbered (l : Ledger) : Prop where
  savepoints : l.savepoints.Pairwise fun a b => (a == b) = false
  savepoint_lt : ∀ w ∈ l.writes, w.savepoint < l.savepoints.length

theorem IsValid.isNumbered {algorithm : ChecksumAlgorithm} (h : l.IsValid algorithm) :
    l.IsNumbered :=
  ⟨h.savepoints, h.savepoint_lt⟩

theorem IsNumbered.register (h : l.IsNumbered) (point : Savepoint) :
    (l.register point).IsNumbered := by
  rcases l.register_cases point with ⟨hSame, -⟩ | ⟨hNew, -, hFresh⟩
  · rw [hSame]
    exact h
  · rw [hNew]
    refine ⟨List.pairwise_append.2 ⟨h.savepoints, List.pairwise_singleton _ _, ?_⟩, ?_⟩
    · intro known hKnown last hLast
      rw [List.mem_singleton.1 hLast]
      exact hFresh known hKnown
    · intro w hw
      have hLt := h.savepoint_lt w hw
      simp only [addSavepoint, List.length_append]
      omega

theorem IsNumbered.stored (h : l.IsNumbered) (point : Savepoint) (field : String)
    (bytes : List UInt8) : (Archive.stored l point field bytes).IsNumbered := by
  have hRegister := h.register point
  refine ⟨hRegister.savepoints, fun w hw => ?_⟩
  rcases List.mem_append.1 hw with hOld | hNew
  · exact hRegister.savepoint_lt w hOld
  · rw [List.mem_singleton.1 hNew]
    exact l.numberOf_lt_register point

/-- A savepoint has the number at which an interchangeable one stands. -/
theorem IsNumbered.numberOf_eq (h : l.IsNumbered) {i : Nat} {known : Savepoint}
    (hKnown : l.savepoints[i]? = some known) (hSame : (known == probe) = true) :
    l.numberOf probe = i := by
  obtain ⟨hLt, rfl⟩ := List.getElem?_eq_some_iff.1 hKnown
  have hFind : l.savepoints.findIdx? (fun known => known == probe) = some i := by
    refine List.findIdx?_eq_some_iff_getElem.2 ⟨hLt, hSame, fun j hj hOther => ?_⟩
    have hPair := List.pairwise_iff_getElem.1 h.savepoints j i (by omega) hLt hj
    rw [PartialEquivBEq.trans hOther (BEq.symm hSame)] at hPair
    cases hPair
  rw [numberOf, hFind, Option.getD_some]

/-- A key is taken if and only if bytes are stored under it. -/
theorem IsNumbered.hasKey_iff (h : l.IsNumbered) :
    l.hasKey probe field = true ↔ ∃ p, l.Has probe field p := by
  simp only [hasKey, List.any_eq_true, decide_eq_true_eq, Prod.mk.injEq]
  constructor
  · rintro ⟨w, hw, hNumber, hField⟩
    refine ⟨w.payload, w, hw, ?_, hField, rfl⟩
    -- the number is that of a known savepoint
    have hLt := h.savepoint_lt w hw
    have hAt := l.getElem?_numberOf probe
    rcases l.register_cases probe with ⟨hSame, -⟩ | ⟨-, hNew, -⟩
    · rw [hSame, ← hNumber] at hAt
      exact hAt
    · omega
  · rintro ⟨p, w, hw, ⟨known, hKnown, hSame⟩, hField, -⟩
    exact ⟨w, hw, (h.numberOf_eq hKnown hSame).symm, hField⟩

/-! ## Storing -/

theorem knows_register : (l.register point).knows probe = (l.knows probe || (point == probe)) := by
  rcases l.register_cases point with ⟨hSame, -⟩ | ⟨hNew, -, -⟩
  · obtain ⟨known, hKnown, hPoint⟩ := l.getElem?_numberOf point
    rw [hSame] at hKnown ⊢
    cases hProbe : point == probe with
    | false => rw [Bool.or_false]
    | true =>
        rw [Bool.or_true, knows, List.any_eq_true]
        exact ⟨known, List.mem_of_getElem? hKnown, BEq.trans hPoint hProbe⟩
  · rw [hNew]
    simp [knows, addSavepoint]

theorem has_stored (h : l.IsNumbered) {f : String} {q : List UInt8} :
    (Archive.stored l point field p).Has probe f q ↔
      l.Has probe f q ∨ (point == probe) = true ∧ field = f ∧ p = q := by
  have hWrites : (Archive.stored l point field p).writes =
      l.writes ++ [⟨l.numberOf point, field, p⟩] := by
    rw [Archive.stored, addWrite, register_writes]
  have hPoints : l.savepoints <+: (Archive.stored l point field p).savepoints :=
    l.savepoints_isPrefix_register point
  obtain ⟨known, hKnown, hSame⟩ := l.getElem?_numberOf point
  constructor
  · rintro ⟨w, hw, hAt, hField, hPayload⟩
    rw [hWrites, List.mem_append, List.mem_singleton] at hw
    rcases hw with hOld | rfl
    · exact Or.inl ⟨w, hOld, hAt.of_prefix hPoints (h.savepoint_lt w hOld), hField, hPayload⟩
    · obtain ⟨known', hKnown', hProbe⟩ := hAt
      obtain rfl : known = known' := Option.some.inj (hKnown.symm.trans hKnown')
      exact Or.inr ⟨BEq.trans (BEq.symm hSame) hProbe, hField, hPayload⟩
  · rintro (⟨w, hw, hAt, hField, hPayload⟩ | ⟨hProbe, rfl, rfl⟩)
    · refine ⟨w, ?_, hAt.mono hPoints, hField, hPayload⟩
      rw [hWrites]
      exact List.mem_append_left _ hw
    · refine ⟨⟨l.numberOf point, field, p⟩, ?_, ⟨known, hKnown, BEq.trans hSame hProbe⟩, rfl, rfl⟩
      rw [hWrites]
      exact List.mem_append_right _ (List.mem_singleton.2 rfl)

/-- The ledger after some blobs were stored, one after the other. -/
def storeAll (l : Ledger) (blobs : List Blob) : Ledger :=
  blobs.foldl (fun l b => Archive.stored l b.point b.field b.bytes) l

@[simp] theorem storeAll_nil (l : Ledger) : l.storeAll [] = l := rfl

@[simp] theorem storeAll_cons (l : Ledger) (b : Blob) (blobs : List Blob) :
    l.storeAll (b :: blobs) = (Archive.stored l b.point b.field b.bytes).storeAll blobs := rfl

theorem storeAll_append (l : Ledger) (blobs blobs' : List Blob) :
    l.storeAll (blobs ++ blobs') = (l.storeAll blobs).storeAll blobs' := List.foldl_append

theorem IsNumbered.storeAll (h : l.IsNumbered) (blobs : List Blob) :
    (l.storeAll blobs).IsNumbered := by
  induction blobs generalizing l with
  | nil => exact h
  | cons b blobs ih => exact ih (h.stored b.point b.field b.bytes)

theorem fields_storeAll (l : Ledger) (blobs : List Blob) :
    (l.storeAll blobs).fields = l.fields := by
  induction blobs generalizing l with
  | nil => rfl
  | cons b blobs ih =>
      rw [storeAll_cons, ih]
      exact l.register_fields b.point

theorem metainfo_storeAll (l : Ledger) (blobs : List Blob) :
    (l.storeAll blobs).metainfo = l.metainfo := by
  induction blobs generalizing l with
  | nil => rfl
  | cons b blobs ih =>
      rw [storeAll_cons, ih]
      exact l.register_metainfo b.point

theorem payloads_storeAll (l : Ledger) (blobs : List Blob) :
    (l.storeAll blobs).payloads = l.payloads ++ blobs.map Blob.bytes := by
  induction blobs generalizing l with
  | nil => simp
  | cons b blobs ih =>
      rw [storeAll_cons, ih, stored_payloads, List.map_cons, List.append_assoc,
        List.singleton_append]

theorem knows_storeAll (l : Ledger) (blobs : List Blob) (probe : Savepoint) :
    (l.storeAll blobs).knows probe = (l.knows probe || blobs.any fun b => b.point == probe) := by
  induction blobs generalizing l with
  | nil => simp
  | cons b blobs ih =>
      have hFirst : (Archive.stored l b.point b.field b.bytes).knows probe =
          (l.knows probe || (b.point == probe)) := knows_register
      rw [storeAll_cons, ih, hFirst, List.any_cons, Bool.or_assoc]

theorem IsNumbered.has_storeAll (h : l.IsNumbered) : (l.storeAll blobs).Has probe field p ↔
    l.Has probe field p ∨
      ∃ b ∈ blobs, (b.point == probe) = true ∧ b.field = field ∧ b.bytes = p := by
  induction blobs generalizing l with
  | nil => simp
  | cons b blobs ih =>
      simp only [storeAll_cons, ih (h.stored b.point b.field b.bytes), has_stored h, or_assoc,
        List.mem_cons, exists_eq_or_imp]

/-! ## Ledgers that are alike -/

/-- Savepoints up to interchanging them. -/
def classes : Setoid Savepoint where
  r a b := (a == b) = true
  iseqv := ⟨fun _ => BEq.rfl, BEq.symm, BEq.trans⟩

/-- Lists of different savepoints are as long as each other if they know the same. -/
theorem IsNumbered.length_savepoints_eq (h : l.IsNumbered) (h' : l'.IsNumbered)
    (hKnows : ∀ probe, l.knows probe = l'.knows probe) :
    l.savepoints.length = l'.savepoints.length := by
  have hNodup : ∀ {points : List Savepoint}, points.Pairwise (fun a b => (a == b) = false) →
      (points.map (Quotient.mk classes)).Nodup := by
    intro points hPoints
    refine List.pairwise_map.2 (hPoints.imp fun {a b} hDifferent hEqual => ?_)
    have hSame : (a == b) = true := Quotient.exact hEqual
    rw [hDifferent] at hSame
    cases hSame
  have hMem : ∀ (l : Ledger) (probe : Savepoint),
      Quotient.mk classes probe ∈ l.savepoints.map (Quotient.mk classes) ↔
        l.knows probe = true := by
    intro l probe
    rw [knows, List.any_eq_true, List.mem_map]
    exact exists_congr fun known =>
      and_congr_right fun _ => ⟨Quotient.exact, fun hSame => Quotient.sound hSame⟩
  have hPerm : (l.savepoints.map (Quotient.mk classes)).Perm
      (l'.savepoints.map (Quotient.mk classes)) := by
    refine (List.perm_ext_iff_of_nodup (hNodup h.savepoints) (hNodup h'.savepoints)).2 fun c => ?_
    induction c using Quotient.ind with
    | _ probe => rw [hMem, hMem, hKnows]
  simpa using hPerm.length_eq

/-- Two ledgers agree in all that does not depend on the order of their snapshots. -/
structure Alike (l l' : Ledger) : Prop where
  metainfo : l.metainfo = l'.metainfo
  fields : l.fields = l'.fields
  savepoints : l.savepoints.length = l'.savepoints.length
  knows : ∀ probe, l.knows probe = l'.knows probe
  has : ∀ probe field p, l.Has probe field p ↔ l'.Has probe field p
  payloads : l.payloads.Perm l'.payloads

/-- The order in which blobs are stored makes no difference. -/
theorem alike_storeAll (h : l.IsNumbered) (hPerm : blobs.Perm blobs') :
    (l.storeAll blobs).Alike (l.storeAll blobs') := by
  have hKnows : ∀ probe, (l.storeAll blobs).knows probe = (l.storeAll blobs').knows probe := by
    intro probe
    rw [knows_storeAll, knows_storeAll, hPerm.any_eq]
  refine ⟨?_, ?_, (h.storeAll blobs).length_savepoints_eq (h.storeAll blobs') hKnows, hKnows, ?_,
    ?_⟩
  · rw [metainfo_storeAll, metainfo_storeAll]
  · rw [fields_storeAll, fields_storeAll]
  · intro probe field p
    rw [h.has_storeAll, h.has_storeAll]
    simp only [hPerm.mem_iff]
  · rw [payloads_storeAll, payloads_storeAll]
    exact (hPerm.map Blob.bytes).append_left l.payloads

/-! ## Refusals -/

/-- Why bytes are refused, if they are. -/
def refusal? (s : Settings) (l : Ledger) (blob : Blob) : Option Error :=
  match (Archive.Request.append blob).respond s l with
  | .error e => some e
  | .ok _ => none

/-- Bytes that are taken are stored. -/
theorem eq_stored_of_respond {reply : Archive.Reply} {next : Ledger}
    (h : (Archive.Request.append blob).respond s l = .ok (reply, next)) :
    next = Archive.stored l blob.point blob.field blob.bytes := by
  cases Archive.Request.advances_of_respond h
  rfl

theorem next_of_refusal? (h : l.refusal? s blob = none) :
    (Archive.Request.append blob).next s l = Archive.stored l blob.point blob.field blob.bytes := by
  unfold refusal? at h
  unfold Archive.Request.next
  split at h
  · cases h
  · next result hRespond =>
      rw [hRespond]
      exact eq_stored_of_respond hRespond

/-- Refusals depend on the fields and on the key. -/
theorem refusal?_congr (hFields : l'.fields = l.fields)
    (hKey : l'.hasKey blob.point blob.field = l.hasKey blob.point blob.field) :
    l'.refusal? s blob = l.refusal? s blob := by
  simp only [refusal?, Archive.Request.respond, hFields, hKey, bind, Except.bind]
  cases checkFinite (.savepoint blob.point) blob.point.metainfo with
  | error e => rfl
  | ok _ =>
      cases l.fields.find? fun f => f.name == blob.field with
      | none => rfl
      | some info =>
          dsimp only
          by_cases hSize : blob.bytes.length ≠ info.byteSize
          · rw [if_pos hSize, if_pos hSize]
          · rw [if_neg hSize, if_neg hSize]
            cases l.hasKey blob.point blob.field <;> rfl

/-- Snapshots under other keys make no difference. -/
theorem IsNumbered.refusal?_storeAll (h : l.IsNumbered)
    (hOther : ∀ b ∈ blobs, (b.point == blob.point) = true → b.field ≠ blob.field) :
    (l.storeAll blobs).refusal? s blob = l.refusal? s blob := by
  refine refusal?_congr (l.fields_storeAll blobs) ?_
  rw [Bool.eq_iff_iff, (h.storeAll blobs).hasKey_iff, h.hasKey_iff]
  refine exists_congr fun p => ?_
  rw [h.has_storeAll]
  refine or_iff_left ?_
  rintro ⟨b, hb, hPoint, hField, -⟩
  exact hOther b hb hPoint hField

end Ledger
end FieldArchive

import FieldArchive.Json.Record
import FieldArchive.Proofs.Number.Shortest
import Mathlib.Data.List.Nodup

/-!
# Records and numbers read back

A record with distinct member names gives each member its value, and integers
within the range that is asked for are read as they were written.
-/

namespace FieldArchive.Json

/-! ## Records -/

@[simp] theorem text?_str (s : String) : (Json.str s).text? = some s := rfl

@[simp] theorem choice?_str {α : Type} (ofName? : String → Option α) (s : String) :
    (Json.str s).choice? ofName? = ofName? s := rfl

/-- Among members with distinct names there is one value under each name. -/
theorem valuesOf_record {members : List (String × Json)} (h : (members.map Prod.fst).Nodup)
    {m : String × Json} (hm : m ∈ members) :
    valuesOf m.1 (members.map fun m => (some m.1, m.2)) = [m.2] := by
  induction members with
  | nil => cases hm
  | cons first rest ih =>
      simp only [List.map_cons, List.nodup_cons] at h
      rcases List.mem_cons.1 hm with rfl | hRest
      · have hNone : (rest.map fun m => (some m.1, m.2)).filter
            (fun x => x.1 == some m.1) = [] := by
          refine List.filter_eq_nil_iff.2 ?_
          intro x hx
          obtain ⟨m', hm', rfl⟩ := List.mem_map.1 hx
          simp only [Option.some_beq_some, beq_iff_eq]
          intro hSame
          exact h.1 (List.mem_map.2 ⟨m', hm', hSame⟩)
        simp [valuesOf, hNone]
      · have hOther : first.1 ≠ m.1 := by
          intro hSame
          exact h.1 (List.mem_map.2 ⟨m, hRest, hSame.symm⟩)
        have hTail := ih h.2 hRest
        simp only [valuesOf] at hTail ⊢
        rw [List.map_cons, List.filter_cons_of_neg (by simpa using hOther)]
        exact hTail

theorem single?_record {members : List (String × Json)} (h : (members.map Prod.fst).Nodup)
    {m : String × Json} (hm : m ∈ members) :
    single? m.1 (members.map fun m => (some m.1, m.2)) = some (some m.2) := by
  rw [single?, valuesOf_record h hm]

/-- A record is read with all its members. -/
theorem fields?_record {members : List (String × Json)} {names : List String}
    (hNames : members.map Prod.fst = names) (h : names.Nodup) :
    (Json.record members).fields? names = some (members.map fun m => some m.2) := by
  subst hNames
  have hText : (members.map fun m => (some m.1, m.2)).any (fun m => m.1.isNone) = false := by
    simp
  have hEach : ∀ part : List (String × Json), part ⊆ members →
      (part.map Prod.fst).mapM
          (fun name => single? name (members.map fun m => (some m.1, m.2))) =
        some (part.map fun m => some m.2) := by
    intro part
    induction part with
    | nil => intro _; rfl
    | cons m part ih =>
        intro hPart
        have hm := single?_record h (hPart List.mem_cons_self)
        have hRest := ih fun x hx => hPart (List.mem_cons_of_mem m hx)
        simp only [List.map_cons, List.mapM_cons, hm, hRest, Option.bind_eq_bind,
          Option.bind_some, Option.pure_def]
  simp only [record, fields?, hText]
  exact hEach members (List.Subset.refl members)

theorem isWritten_str (s : String) : (Json.str s).IsWritten := .string (some s)

theorem isWritten_record {members : List (String × Json)}
    (h : ∀ m ∈ members, m.2.IsWritten) : (Json.record members).IsWritten := by
  refine .object ?_
  intro x hx
  obtain ⟨m, hm, rfl⟩ := List.mem_map.1 hx
  exact h m hm

theorem isWritten_array_map {α : Type} {write : α → Json} (h : ∀ a, (write a).IsWritten)
    (items : List α) : (Json.array (items.map write)).IsWritten := by
  refine .array ?_
  intro j hj
  obtain ⟨a, -, rfl⟩ := List.mem_map.1 hj
  exact h a

/-- Items that are each read as themselves are read as the list of them. -/
theorem mapM_eq_some_self {α : Type} {f : α → Option α} {items : List α}
    (h : ∀ a ∈ items, f a = some a) : items.mapM f = some items := by
  induction items with
  | nil => rfl
  | cons a items ih =>
      have ha := h a (by simp)
      have hRest := ih fun b hb => h b (by simp [hb])
      simp only [List.mapM_cons, ha, hRest, Option.bind_eq_bind, Option.bind_some,
        Option.pure_def]

/-- A list is read item by item. -/
theorem list?_array_map {α β : Type} {write : α → Json} {read? : Json → Option β}
    {reread? : α → Option β} (items : List α) (h : ∀ a ∈ items, read? (write a) = reread? a) :
    (Json.array (items.map write)).list? read? = items.mapM reread? := by
  induction items with
  | nil => rfl
  | cons a items ih =>
      have ha := h a (by simp)
      have hRest := ih fun b hb => h b (by simp [hb])
      simp only [list?] at hRest ⊢
      simp only [List.map_cons, List.mapM_cons, ha, hRest]

/-! ## Integers -/

theorem isWritten_ofNat (negative : Bool) (n : Nat) (fraction : List Digit)
    (exponent : Option Int) :
    (⟨negative, Digits.ofNat n, fraction, exponent⟩ : Numeral).IsWritten := by
  rcases Digits.ofNat_cases n with h | ⟨d, rest, h, hd⟩
  · exact ⟨_, _, h, Or.inl rfl⟩
  · exact ⟨d, rest, h, Or.inr hd⟩

theorem isWritten_nat (n : Nat) : (Json.nat n).IsWritten := .number (isWritten_ofNat ..)

theorem isWritten_int (n : Int) : (Json.int n).IsWritten := .number (isWritten_ofNat ..)

theorem number?_nat {n : Nat} (h : n < wordBound) :
    (Json.nat n).number? = some (.natural n) := by
  simp [nat, number?, Numeral.number?, h]

/-- A natural number below the bound is read back. -/
theorem nat?_nat {n bound : Nat} (h : n < bound) (hBound : bound ≤ wordBound) :
    (Json.nat n).nat? bound = some n := by
  rw [nat?, number?_nat (by omega)]
  simp [h]

theorem nat?_lt {j : Json} {n bound : Nat} (h : j.nat? bound = some n) : n < bound := by
  unfold nat? at h
  split at h
  · split at h
    · next hLt =>
        cases h
        exact hLt
    · cases h
  · cases h

/-- An integer within the bound is read back. -/
theorem int?_int {n : Int} {bound : Nat} (hLow : -(bound : Int) ≤ n) (hHigh : n < bound)
    (hBound : 2 * bound ≤ wordBound) : (Json.int n).int? bound = some n := by
  have hWord : n.natAbs < wordBound := by omega
  by_cases hSign : n < 0
  · have hNumber : (Json.int n).number? = some (.negative n.natAbs) := by
      have hPos : n ≠ 0 := by omega
      have hSmall : 2 * n.natAbs ≤ wordBound := by omega
      simp [int, number?, Numeral.number?, hSign, hWord, hPos, hSmall]
    have hFits : n.natAbs ≤ bound := by omega
    have hValue : -(n.natAbs : Int) = n := by omega
    rw [int?, hNumber]
    simp only [hFits, if_true, hValue]
  · have hNumber : (Json.int n).number? = some (.natural n.natAbs) := by
      simp [int, number?, Numeral.number?, hSign, hWord]
    have hFits : n.natAbs < bound := by omega
    have hValue : (n.natAbs : Int) = n := by omega
    rw [int?, hNumber]
    simp only [hFits, if_true, hValue]

end FieldArchive.Json

/-!
# Keyed indices

An index maps keys to values.  Keys are compared with `==`, which for some key
types is coarser than equality, so a lookup finds the pair whose key the probe
is interchangeable with.  The pairs stay in the order in which their keys were
first inserted; inserting under a present key replaces the value where it is.
-/

namespace FieldArchive

/-- Key-value pairs in the order of first insertion. -/
structure Index (κ : Type) (α : Type) where
  pairs : List (κ × α)
  deriving Repr

namespace Index

variable {κ α : Type}

/-- The index without pairs. -/
def empty : Index κ α := ⟨[]⟩

instance : Inhabited (Index κ α) := ⟨empty⟩

/-- Number of keys. -/
def size (index : Index κ α) : Nat := index.pairs.length

/-- Keys in the order of first insertion. -/
def keys (index : Index κ α) : List κ := index.pairs.map Prod.fst

variable [BEq κ]

/-- The value under the first key that matches. -/
def get? (index : Index κ α) (key : κ) : Option α :=
  (index.pairs.find? fun pair => pair.1 == key).map Prod.snd

/-- True if some key matches. -/
def contains (index : Index κ α) (key : κ) : Bool :=
  index.pairs.any fun pair => pair.1 == key

/-- Replace the value under the first matching key, or add a pair at the end. -/
def insertPair (key : κ) (value : α) : List (κ × α) → List (κ × α)
  | [] => [(key, value)]
  | (k, v) :: rest =>
      if k == key then (k, value) :: rest else (k, v) :: insertPair key value rest

/-- Map `key` to `value`. -/
def insert (index : Index κ α) (key : κ) (value : α) : Index κ α :=
  ⟨insertPair key value index.pairs⟩

/-- Remove the first pair whose key matches. -/
def erase (index : Index κ α) (key : κ) : Index κ α :=
  ⟨index.pairs.eraseP fun pair => pair.1 == key⟩

/-- Replace the value under the first matching key, which is given back, or add a pair at
the end. -/
def exchangePair (key : κ) (value : α) : List (κ × α) → Option α × List (κ × α)
  | [] => (none, [(key, value)])
  | (k, v) :: rest =>
      if k == key then (some v, (k, value) :: rest)
      else
        let (previous, rest) := exchangePair key value rest
        (previous, (k, v) :: rest)

/-- Map `key` to `value`, and give back the value that it had. -/
def exchange (index : Index κ α) (key : κ) (value : α) : Option α × Index κ α :=
  let (previous, pairs) := exchangePair key value index.pairs
  (previous, ⟨pairs⟩)

/-- Remove the first pair whose key matches, and give back its value. -/
def remove (index : Index κ α) (key : κ) : Option α × Index κ α :=
  match index.pairs.findIdx? fun pair => pair.1 == key with
  | none => (none, index)
  | some i => ((index.pairs[i]?).map Prod.snd, ⟨index.pairs.eraseIdx i⟩)

@[simp] theorem get?_empty (key : κ) : (empty : Index κ α).get? key = none := rfl

theorem contains_eq_isSome (index : Index κ α) (key : κ) :
    index.contains key = (index.get? key).isSome := by
  obtain ⟨pairs⟩ := index
  induction pairs with
  | nil => rfl
  | cons pair rest ih =>
      simp only [contains, get?, List.any_cons, List.find?_cons] at ih ⊢
      cases pair.1 == key <;> simp_all

/-- What is given back is the value that a lookup finds. -/
theorem exchange_eq (index : Index κ α) (key : κ) (value : α) :
    index.exchange key value = (index.get? key, index.insert key value) := by
  obtain ⟨pairs⟩ := index
  induction pairs with
  | nil => rfl
  | cons pair rest ih =>
      obtain ⟨k, v⟩ := pair
      simp only [exchange, get?, insert, Prod.mk.injEq, Index.mk.injEq] at ih
      cases hKey : k == key with
      | true => simp [exchange, exchangePair, get?, insert, insertPair, hKey]
      | false => simp [exchange, exchangePair, get?, insert, insertPair, hKey, ih]

theorem remove_eq (index : Index κ α) (key : κ) :
    index.remove key = (index.get? key, index.erase key) := by
  simp only [remove, get?, erase, List.find?_eq_bind_findIdx?_getElem?, List.eraseP_eq_eraseIdx]
  cases index.pairs.findIdx? fun pair => pair.1 == key <;> rfl

/-- Inserting adds the key at the end unless it is present. -/
theorem keys_insertPair [LawfulBEq κ] (key : κ) (value : α) (pairs : List (κ × α)) :
    (insertPair key value pairs).map Prod.fst =
      if key ∈ pairs.map Prod.fst then pairs.map Prod.fst
      else pairs.map Prod.fst ++ [key] := by
  induction pairs with
  | nil => simp [insertPair]
  | cons pair rest ih =>
      obtain ⟨k, v⟩ := pair
      by_cases h : k = key
      · simp [insertPair, h]
      · have h' : ¬ key = k := fun e => h e.symm
        by_cases hm : key ∈ rest.map Prod.fst <;> simp_all [insertPair]

/-- Inserting keeps the keys distinct. -/
theorem nodup_keys_insert [LawfulBEq κ] {index : Index κ α} (h : index.keys.Nodup)
    (key : κ) (value : α) : (index.insert key value).keys.Nodup := by
  simp only [insert, keys] at h ⊢
  rw [keys_insertPair]
  split
  · exact h
  · next hm =>
      refine List.nodup_append.2 ⟨h, by simp, ?_⟩
      intro a ha b hb e
      simp only [List.mem_singleton] at hb
      exact hm (hb ▸ e ▸ ha)

/-- Removing a key keeps the keys distinct. -/
theorem nodup_keys_erase {index : Index κ α} (h : index.keys.Nodup) (key : κ) :
    (index.erase key).keys.Nodup :=
  List.Nodup.sublist (List.Sublist.map _ List.eraseP_sublist) h

theorem nodup_keys_exchange [LawfulBEq κ] {index : Index κ α} (h : index.keys.Nodup)
    (key : κ) (value : α) : (index.exchange key value).2.keys.Nodup := by
  rw [exchange_eq]
  exact nodup_keys_insert h key value

theorem nodup_keys_remove {index : Index κ α} (h : index.keys.Nodup) (key : κ) :
    (index.remove key).2.keys.Nodup := by
  rw [remove_eq]
  exact nodup_keys_erase h key

end Index
end FieldArchive

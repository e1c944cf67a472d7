import FieldArchive.Metainfo.Lookup
import FieldArchive.Proofs.Metainfo.Text

/-!
# Metainfo under edits

A set of metainfo is changed by setting and removing keys.  One that is read from a document is
set entry by entry, from a list that may repeat keys.  So every set has a history of edits, and
what it holds can be read off that history alone.  A key has the value of its last edit, if that
sets one, and the keys stand in the order in which they were first set since they were last
removed.

* `Metainfo.standing`, `Metainfo.merge`: the entries of a history that count, and what they amount
  to;
* `Metainfo.IsMergeOf.perform`, `Metainfo.IsMergeOf.run`: an edit, and a sequence of edits, keeps
  a set what its history amounts to;
* `Metainfo.lastValue?_standing`: the value of a key in terms of its last edit;
* `Metainfo.isTyped_getAs`: what a typed lookup makes of a value;
* `Metainfo.insertion_ordered`: all that a set answers, in terms of its history.
-/

namespace FieldArchive

namespace Metainfo

/-! ## Lists of entries -/

/-- The value with which a key comes last. -/
def lastValue? (entries : List (String × MetaValue)) (key : String) : Option MetaValue :=
  (entries.findRev? fun e => e.1 == key).map Prod.snd

/-- Every key once, where it comes first, with the value with which it comes last. -/
def merge (entries : List (String × MetaValue)) : List (String × MetaValue) :=
  (entries.map Prod.fst).eraseDups.filterMap fun key =>
    (lastValue? entries key).map fun value => (key, value)

theorem lastValue?_append (entries : List (String × MetaValue)) (key : String) (value : MetaValue)
    (probe : String) :
    lastValue? (entries ++ [(key, value)]) probe =
      if key == probe then some value else lastValue? entries probe := by
  simp only [lastValue?, List.findRev?_eq_find?_reverse, List.reverse_append,
    List.reverse_singleton, List.singleton_append, List.find?_cons]
  cases key == probe <;> rfl

theorem lastValue?_filter (entries : List (String × MetaValue)) (key probe : String) :
    lastValue? (entries.filter fun e => e.1 != key) probe =
      if key == probe then none else lastValue? entries probe := by
  simp only [lastValue?, List.findRev?_eq_find?_reverse, ← List.filter_reverse, List.find?_filter]
  by_cases hKey : key = probe
  · -- no entry that is left has the key
    subst hKey
    simp
  · have hSame : (fun e : String × MetaValue =>
        decide ((e.1 != key) = true ∧ (e.1 == probe) = true)) = fun e => e.1 == probe := by
      funext e
      by_cases hProbe : e.1 = probe
      · simp [hProbe, Ne.symm hKey]
      · simp [hProbe]
    rw [hSame, if_neg (by simpa using hKey)]

/-! ## Histories -/

/-- A change of a set. -/
inductive Edit where
  | set (key : String) (value : MetaValue)
  | remove (key : String)
  deriving DecidableEq, Repr

namespace Edit

/-- The key that is set or removed. -/
def key : Edit → String
  | set key _ => key
  | remove key => key

/-- What an edit gives back, and the set that it leaves. -/
def perform : Edit → Metainfo → Option MetaValue × Metainfo
  | set key value, m => m.exchange key value
  | remove key, m => m.remove key

/-- The edit that sets an entry of a list. -/
def ofEntry (e : String × MetaValue) : Edit := set e.1 e.2

end Edit

/-- The set after some edits. -/
def run (m : Metainfo) (edits : List Edit) : Metainfo :=
  edits.foldl (fun m edit => (edit.perform m).2) m

/-- The entries that a history sets and whose keys it does not remove afterwards. -/
def standing : List Edit → List (String × MetaValue)
  | [] => []
  | .set key value :: later =>
      if .remove key ∈ later then standing later else (key, value) :: standing later
  | .remove _ :: later => standing later

/-- The last edit of a key sets a value. -/
def IsCurrent (history : List Edit) (key : String) (value : MetaValue) : Prop :=
  ∃ earlier later, history = earlier ++ .set key value :: later ∧
    ∀ edit ∈ later, edit.key ≠ key

theorem standing_append_set (history : List Edit) (key : String) (value : MetaValue) :
    standing (history ++ [.set key value]) = standing history ++ [(key, value)] := by
  induction history with
  | nil => rfl
  | cons edit later ih =>
      cases edit with
      | set k v =>
          have hLater : Edit.remove k ∈ later ++ [.set key value] ↔ Edit.remove k ∈ later := by
            simp
          simp only [List.cons_append, standing, hLater, ih]
          split <;> rfl
      | remove k => simpa only [List.cons_append, standing] using ih

theorem standing_append_remove (history : List Edit) (key : String) :
    standing (history ++ [.remove key]) = (standing history).filter fun e => e.1 != key := by
  induction history with
  | nil => rfl
  | cons edit later ih =>
      cases edit with
      | set k v =>
          by_cases hKey : k = key
          · subst hKey
            by_cases hLater : Edit.remove k ∈ later <;> simp [standing, hLater, ih]
          · by_cases hLater : Edit.remove k ∈ later <;> simp [standing, hLater, hKey, ih]
      | remove k => simpa only [List.cons_append, standing] using ih

theorem standing_map_ofEntry (entries : List (String × MetaValue)) :
    standing (entries.map Edit.ofEntry) = entries := by
  induction entries with
  | nil => rfl
  | cons e entries ih =>
      have hLater : Edit.remove e.1 ∉ entries.map Edit.ofEntry := by simp [Edit.ofEntry]
      rw [List.map_cons, Edit.ofEntry, standing, if_neg hLater, ih]

theorem isCurrent_append {history : List Edit} {edit : Edit} {key : String} {value : MetaValue} :
    IsCurrent (history ++ [edit]) key value ↔
      edit = .set key value ∨ edit.key ≠ key ∧ IsCurrent history key value := by
  constructor
  · rintro ⟨earlier, later, hHistory, hLater⟩
    -- the new edit is the one that sets the value, or the last of those after it
    rcases List.eq_nil_or_concat later with rfl | ⟨front, last, rfl⟩
    · have hLast : [edit] = [Edit.set key value] := (List.append_inj' hHistory rfl).2
      exact Or.inl (List.singleton_inj.1 hLast)
    · rw [List.concat_eq_append] at hHistory hLater
      rw [← List.cons_append, ← List.append_assoc] at hHistory
      obtain ⟨hFront, hLast⟩ := List.append_inj' hHistory rfl
      rw [List.singleton_inj.1 hLast]
      refine Or.inr ⟨hLater last (by simp), earlier, front, hFront, ?_⟩
      intro edit hEdit
      exact hLater edit (List.mem_append_left _ hEdit)
  · rintro (rfl | ⟨hKey, earlier, later, rfl, hLater⟩)
    · exact ⟨history, [], rfl, by simp⟩
    · refine ⟨earlier, later ++ [edit], by simp, ?_⟩
      intro other hOther
      rcases List.mem_append.1 hOther with hOld | hNew
      · exact hLater other hOld
      · rwa [List.mem_singleton.1 hNew]

/-- Of the entries that count, the last one of a key was set by its last edit. -/
theorem lastValue?_standing {history : List Edit} {key : String} {value : MetaValue} :
    lastValue? (standing history) key = some value ↔ IsCurrent history key value := by
  -- from the end, where an edit overrides what came before it
  induction history using List.reverseRecOn with
  | nil => simp [standing, lastValue?, IsCurrent]
  | append_singleton history edit ih =>
      rw [isCurrent_append, ← ih]
      cases edit with
      | set k v =>
          rw [standing_append_set, lastValue?_append]
          by_cases hKey : k = key <;> simp [Edit.key, hKey]
      | remove k =>
          rw [standing_append_remove, lastValue?_filter]
          by_cases hKey : k = key <;> simp [Edit.key, hKey]

/-! ## What a history amounts to -/

/-- A set has the keys of a list of entries in the order in which they come first, and the values
with which they come last. -/
structure IsMergeOf (m : Metainfo) (entries : List (String × MetaValue)) : Prop where
  keys : m.keys = (entries.map Prod.fst).eraseDups
  get? : ∀ key, m.get? key = lastValue? entries key

variable {m : Metainfo} {entries : List (String × MetaValue)}

theorem isMergeOf_empty : empty.IsMergeOf [] where
  keys := rfl
  get? _ := rfl

theorem IsMergeOf.set (h : m.IsMergeOf entries) (key : String) (value : MetaValue) :
    (m.set key value).IsMergeOf (entries ++ [(key, value)]) where
  keys := by
    rw [keys_set, List.map_append, List.map_singleton, Index.eraseDups_concat, h.keys]
    simp only [List.mem_eraseDups]
  get? probe := by rw [get?_set, lastValue?_append, h.get? probe]

theorem IsMergeOf.erase (h : m.IsMergeOf entries) (key : String) :
    (m.erase key).IsMergeOf (entries.filter fun e => e.1 != key) where
  keys := by
    rw [keys_erase, h.keys, ← Index.eraseDups_filter, List.filter_map]
    rfl
  get? probe := by rw [get?_erase, lastValue?_filter, h.get? probe]

/-- An edit leaves what the history amounts to together with the edit. -/
theorem IsMergeOf.perform {history : List Edit} (h : m.IsMergeOf (standing history))
    (edit : Edit) : (edit.perform m).2.IsMergeOf (standing (history ++ [edit])) := by
  cases edit with
  | set key value =>
      rw [standing_append_set, Edit.perform, exchange_eq]
      exact h.set key value
  | remove key =>
      rw [standing_append_remove, Edit.perform, remove_eq]
      exact h.erase key

theorem IsMergeOf.run {history : List Edit} (h : m.IsMergeOf (standing history))
    (edits : List Edit) : (m.run edits).IsMergeOf (standing (history ++ edits)) := by
  -- every edit moves from the edits to come to the end of the history
  induction edits generalizing m history with
  | nil => rwa [List.append_nil]
  | cons edit rest ih =>
      have hRest := ih (h.perform edit)
      rwa [List.append_assoc] at hRest

/-- The entries of a set are one for each key, so its keys and its lookups tell them. -/
theorem IsMergeOf.entries_eq (h : m.IsMergeOf entries) : m.entries = merge entries := by
  have hEntries : m.entries =
      m.keys.filterMap fun key => (m.get? key).map fun value => (key, value) :=
    Index.pairs_eq_filterMap m.keys_nodup
  rw [hEntries, merge, h.keys]
  simp only [h.get?]

theorem ofEntries_eq_run (entries : List (String × MetaValue)) :
    ofEntries entries = empty.run (entries.map Edit.ofEntry) := by
  rw [Metainfo.run, List.foldl_map, ofEntries]
  simp only [Edit.ofEntry, Edit.perform, exchange_eq]

/-- Converting a list of entries keeps the order of the keys, and the last values. -/
theorem isMergeOf_ofEntries (entries : List (String × MetaValue)) :
    (ofEntries entries).IsMergeOf entries := by
  have hEmpty : empty.IsMergeOf (standing []) := isMergeOf_empty
  have hRun := hEmpty.run (entries.map Edit.ofEntry)
  rwa [List.nil_append, standing_map_ofEntry, ← ofEntries_eq_run] at hRun

end Metainfo

/-! ## Typed lookups -/

/-- The values with the name of a kind are those that are made in one way, and only they are taken
apart. -/
def MetaValue.IsKind {α : Type} (kind : String) (make : α → MetaValue)
    (extract? : MetaValue → Option α) : Prop :=
  ∀ v, (v.typeName = kind ∧ ∃ a, v = make a ∧ extract? v = some a) ∨
    (v.typeName ≠ kind ∧ extract? v = none)

namespace Metainfo

/-- A lookup typed by a kind gives what a value of the kind was made of, names both kinds if the
value is of another, and misses what an untyped lookup misses. -/
structure IsTyped {α : Type} (kind : String) (make : α → MetaValue)
    (lookup : Metainfo → String → Except Error α) : Prop where
  found : ∀ m key v, m.get key = .ok v → v.typeName = kind →
    ∃ a, v = make a ∧ lookup m key = .ok a
  mismatch : ∀ m key v, m.get key = .ok v → v.typeName ≠ kind →
    lookup m key = .error (.typeMismatch key kind v.typeName)
  missing : ∀ m key e, m.get key = .error e → lookup m key = .error e

theorem getAs_of_get_eq_ok {α : Type} {kind : String} {extract? : MetaValue → Option α}
    {m : Metainfo} {key : String} {v : MetaValue} (h : m.get key = .ok v) :
    getAs kind extract? m key =
      (extract? v).elim (.error (.typeMismatch key kind v.typeName)) .ok := by
  rw [getAs, h]
  cases hExtract : extract? v <;> simp [bind, Except.bind, hExtract]

theorem isTyped_getAs {α : Type} {kind : String} {make : α → MetaValue}
    {extract? : MetaValue → Option α} (h : MetaValue.IsKind kind make extract?) :
    IsTyped kind make (getAs kind extract?) where
  found m key v hGet hKind := by
    rcases h v with ⟨-, a, hMake, hExtract⟩ | ⟨hOther, -⟩
    · refine ⟨a, hMake, ?_⟩
      rw [getAs_of_get_eq_ok hGet, hExtract]
      rfl
    · exact absurd hKind hOther
  mismatch m key v hGet hKind := by
    rcases h v with ⟨hSame, -⟩ | ⟨-, hExtract⟩
    · exact absurd hSame hKind
    · rw [getAs_of_get_eq_ok hGet, hExtract]
      rfl
  missing m key e hGet := by
    rw [getAs, hGet]
    rfl

theorem isTyped_getBool : IsTyped "bool" .bool getBool :=
  isTyped_getAs fun v => by cases v <;> simp [MetaValue.typeName, MetaValue.bool?]

theorem isTyped_getInt32 : IsTyped "int32" .int32 getInt32 :=
  isTyped_getAs fun v => by cases v <;> simp [MetaValue.typeName, MetaValue.int32?]

theorem isTyped_getInt64 : IsTyped "int64" .int64 getInt64 :=
  isTyped_getAs fun v => by cases v <;> simp [MetaValue.typeName, MetaValue.int64?]

theorem isTyped_getFloat32 : IsTyped "float32" .float32 getFloat32 :=
  isTyped_getAs fun v => by cases v <;> simp [MetaValue.typeName, MetaValue.float32?]

theorem isTyped_getFloat64 : IsTyped "float64" .float64 getFloat64 :=
  isTyped_getAs fun v => by cases v <;> simp [MetaValue.typeName, MetaValue.float64?]

theorem isTyped_getString : IsTyped "string" .string getString :=
  isTyped_getAs fun v => by cases v <;> simp [MetaValue.typeName, MetaValue.string?]

/-! ## All answers of a set -/

variable {m : Metainfo} {entries : List (String × MetaValue)}

theorem get_eq_ok_iff {key : String} {value : MetaValue} :
    m.get key = .ok value ↔ m.get? key = some value := by
  rw [get]
  cases m.get? key <;> simp

theorem get_eq_error_iff {key : String} {e : Error} :
    m.get key = .error e ↔ m.get? key = none ∧ e = .keyNotFound key := by
  rw [get]
  cases m.get? key <;> simp [eq_comm]

/-- Let a list of entries be converted to a set, and then any keys be set and removed; a list
without entries is converted to the empty set.  The history of the result is the entries of the
list, each of which was set, and the edits that followed.

* No key comes twice.
* A key has the value that its last edit set, and is not found if that edit removed it or if there
  was none.  The typed lookups give this value if it is of their kind, and say so if it is not.
* The keys stand in the order in which they were first set since they were last removed, each with
  its value.
* Setting or removing a key gives back the value that it had.
* Listing the entries and converting the list gives the set back, and converting any list keeps
  the order in which its keys come first and the values with which they come last. -/
theorem insertion_ordered (entries : List (String × MetaValue)) (edits : List Edit) :
    let m := (ofEntries entries).run edits
    let history := entries.map Edit.ofEntry ++ edits
    m.keys.Nodup ∧
    ((∀ key value, m.get key = .ok value ↔ IsCurrent history key value) ∧
      (∀ key, m.get key = .error (.keyNotFound key) ↔ ∀ value, ¬ IsCurrent history key value) ∧
      IsTyped "bool" .bool getBool ∧
      IsTyped "int32" .int32 getInt32 ∧
      IsTyped "int64" .int64 getInt64 ∧
      IsTyped "float32" .float32 getFloat32 ∧
      IsTyped "float64" .float64 getFloat64 ∧
      IsTyped "string" .string getString) ∧
    (m.keys = ((standing history).map Prod.fst).eraseDups ∧
      m.entries = merge (standing history)) ∧
    ((∀ key value previous,
        (m.exchange key value).1 = some previous ↔ IsCurrent history key previous) ∧
      ∀ key removed, (m.remove key).1 = some removed ↔ IsCurrent history key removed) ∧
    ofEntries m.entries = m ∧
    (ofEntries entries).entries = merge entries := by
  intro m history
  have hEntries : (ofEntries entries).IsMergeOf (standing (entries.map Edit.ofEntry)) := by
    rw [standing_map_ofEntry]
    exact isMergeOf_ofEntries entries
  have hMerge : m.IsMergeOf (standing history) := hEntries.run edits
  have hCurrent : ∀ key value, m.get? key = some value ↔ IsCurrent history key value := by
    intro key value
    rw [hMerge.get?, lastValue?_standing]
  refine ⟨m.keys_nodup, ⟨?_, ?_, isTyped_getBool, isTyped_getInt32, isTyped_getInt64,
    isTyped_getFloat32, isTyped_getFloat64, isTyped_getString⟩,
    ⟨hMerge.keys, hMerge.entries_eq⟩, ⟨?_, ?_⟩, ofEntries_entries m,
    (isMergeOf_ofEntries entries).entries_eq⟩
  · intro key value
    rw [get_eq_ok_iff, hCurrent]
  · intro key
    rw [get_eq_error_iff, Option.eq_none_iff_forall_not_mem]
    simp only [Option.mem_def, hCurrent, and_true]
  · intro key value previous
    rw [exchange_eq, hCurrent]
  · intro key removed
    rw [remove_eq, hCurrent]

/-- A key that was removed comes last when it is set again. -/
example :
    ((ofEntries [("a", .int32 1), ("b", .int32 2), ("a", .bool true)]).run
      [.remove "b", .set "c" (.int32 3), .set "b" (.int32 4)]).entries =
      [("a", .bool true), ("c", .int32 3), ("b", .int32 4)] := by
  decide

end Metainfo
end FieldArchive

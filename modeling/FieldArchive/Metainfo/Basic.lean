import FieldArchive.Index
import FieldArchive.Number.Shortest

/-!
# Metainfo

Typed values under string keys, in the order in which the keys were first set.
Values of different kinds are never equal, and floating point values are equal
if and only if their patterns are.  Two sets are interchangeable if they map
the same keys to the same values; the order does not count.
-/

namespace FieldArchive

/-- One metainfo value. -/
inductive MetaValue where
  | bool (value : Bool)
  | int32 (value : Int32)
  | int64 (value : Int64)
  | float32 (value : Binary32)
  | float64 (value : Binary64)
  | string (value : String)
  deriving DecidableEq, Repr

namespace MetaValue

/-- The name of a value's kind. -/
def typeName : MetaValue → String
  | bool _ => "bool"
  | int32 _ => "int32"
  | int64 _ => "int64"
  | float32 _ => "float32"
  | float64 _ => "float64"
  | string _ => "string"

/-- False for floating point values that no document can hold. -/
def isFinite : MetaValue → Bool
  | float32 x => x.isFinite
  | float64 x => x.isFinite
  | _ => true

/-- The text of a value in names and messages. -/
def display : MetaValue → String
  | bool true => "true"
  | bool false => "false"
  | int32 n => Digits.signedText n.toInt
  | int64 n => Digits.signedText n.toInt
  | float32 x => x.display
  | float64 x => x.display
  | string s => "\"" ++ s ++ "\""

end MetaValue

/-- Metainfo values under distinct keys. -/
structure Metainfo where
  index : Index String MetaValue
  keys_nodup : index.keys.Nodup
  deriving Repr

namespace Metainfo

/-- The set without keys. -/
def empty : Metainfo := ⟨.empty, List.nodup_nil⟩

instance : Inhabited Metainfo := ⟨empty⟩

/-- Keys and values, in the order in which the keys were first set. -/
def entries (m : Metainfo) : List (String × MetaValue) := m.index.pairs

def keys (m : Metainfo) : List String := m.index.keys

def size (m : Metainfo) : Nat := m.index.size

def get? (m : Metainfo) (key : String) : Option MetaValue := m.index.get? key

def contains (m : Metainfo) (key : String) : Bool := m.index.contains key

/-- Set a key; a key that is present keeps its place. -/
def set (m : Metainfo) (key : String) (value : MetaValue) : Metainfo :=
  ⟨m.index.insert key value, Index.nodup_keys_insert m.keys_nodup key value⟩

/-- Remove a key. -/
def erase (m : Metainfo) (key : String) : Metainfo :=
  ⟨m.index.erase key, Index.nodup_keys_erase m.keys_nodup key⟩

/-- Set a key, and give back the value that it had. -/
def exchange (m : Metainfo) (key : String) (value : MetaValue) : Option MetaValue × Metainfo :=
  let r := m.index.exchange key value
  (r.1, ⟨r.2, Index.nodup_keys_exchange m.keys_nodup key value⟩)

/-- Remove a key, and give back the value that it had. -/
def remove (m : Metainfo) (key : String) : Option MetaValue × Metainfo :=
  let r := m.index.remove key
  (r.1, ⟨r.2, Index.nodup_keys_remove m.keys_nodup key⟩)

/-- What is given back is the value that a lookup finds. -/
theorem exchange_eq (m : Metainfo) (key : String) (value : MetaValue) :
    m.exchange key value = (m.get? key, m.set key value) := by
  simp only [exchange, Index.exchange_eq]
  rfl

theorem remove_eq (m : Metainfo) (key : String) : m.remove key = (m.get? key, m.erase key) := by
  simp only [remove, Index.remove_eq]
  rfl

/-- The set that arises from setting the entries one after the other. -/
def ofEntries (entries : List (String × MetaValue)) : Metainfo :=
  entries.foldl (fun m e => m.set e.1 e.2) empty

/-- The key of the first value that no document can hold. -/
def firstNonFinite? (m : Metainfo) : Option String :=
  (m.entries.find? fun e => !e.2.isFinite).map Prod.fst

/-- True if every entry of the first set is in the second and neither has more. -/
protected def beq (a b : Metainfo) : Bool :=
  a.size == b.size && a.entries.all fun e => b.get? e.1 == some e.2

instance : BEq Metainfo := ⟨Metainfo.beq⟩

/-- What a hash of a set is computed from: the number of entries, and the
entries in the order of their keys. -/
def hashInput (m : Metainfo) : Nat × List (String × MetaValue) :=
  (m.size, m.entries.mergeSort fun a b => decide (a.1 ≤ b.1))

/-- The text of a set in names and messages. -/
def display (m : Metainfo) : String :=
  "\x7b" ++ ", ".intercalate (m.entries.map fun e => e.1 ++ "=" ++ e.2.display) ++ "\x7d"

end Metainfo
end FieldArchive

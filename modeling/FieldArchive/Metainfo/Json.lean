import FieldArchive.Json.Number
import FieldArchive.Json.Record
import FieldArchive.Metainfo.Basic

/-!
# Metainfo in documents

A value is a record of its kind and itself, so that kinds survive: `1` as an
`int32` and `1` as an `int64` stay apart.  A set is the list of its entries; a
document that repeats a key means the last value, at the first place.
-/

namespace FieldArchive

namespace MetaValue

/-- The value itself. -/
def content : MetaValue → Json
  | bool b => .bool b
  | int32 n => .int n.toInt
  | int64 n => .int n.toInt
  | float32 x => x.toJson
  | float64 x => x.toJson
  | string s => .str s

def toJson (v : MetaValue) : Json :=
  .record [("type", .str v.typeName), ("value", v.content)]

/-- Read a value of the kind with the given name. -/
def ofContent? (kind : String) (content : Json) : Option MetaValue :=
  match kind with
  | "bool" => content.bool?.map .bool
  | "int32" => (content.int? 0x80000000).map fun n => .int32 (Int32.ofInt n)
  | "int64" => (content.int? 0x8000000000000000).map fun n => .int64 (Int64.ofInt n)
  | "float32" => (content.real? .single).map .float32
  | "float64" => (content.real? .double).map .float64
  | "string" => content.text?.map .string
  | _ => none

/-- Read a value with its kind.  An array of the two has the kind as a string,
where an object has it in either form of a name out of a fixed set. -/
def ofJson? : Json → Option MetaValue
  | .array [kind, content] => do ofContent? (← kind.text?) content
  | .array _ => none
  | j => do
      match ← j.fields? ["type", "value"] with
      | [kind, content] => ofContent? (← (← kind).choice? some) (← content)
      | _ => none

end MetaValue

namespace Metainfo

/-- An entry as a record of its key and its value. -/
def entryToJson (e : String × MetaValue) : Json :=
  .record [("key", .str e.1), ("value", e.2.toJson)]

def entryOfJson? (j : Json) : Option (String × MetaValue) := do
  match ← j.fields? ["key", "value"] with
  | [key, value] => some (← (← key).text?, ← MetaValue.ofJson? (← value))
  | _ => none

def toJson (m : Metainfo) : Json := .array (m.entries.map entryToJson)

def ofJson? (j : Json) : Option Metainfo := (j.list? entryOfJson?).map ofEntries

end Metainfo
end FieldArchive

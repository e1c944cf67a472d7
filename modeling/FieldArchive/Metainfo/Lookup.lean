import FieldArchive.Error

/-!
# Typed lookups in metainfo

A value is of one kind, and none is converted to another.  A lookup fails if the key
is absent, and a typed one also if the value is of another kind.
-/

namespace FieldArchive

namespace MetaValue

def bool? : MetaValue → Option Bool
  | bool b => some b
  | _ => none

def int32? : MetaValue → Option Int32
  | int32 n => some n
  | _ => none

def int64? : MetaValue → Option Int64
  | int64 n => some n
  | _ => none

def float32? : MetaValue → Option Binary32
  | float32 x => some x
  | _ => none

def float64? : MetaValue → Option Binary64
  | float64 x => some x
  | _ => none

def string? : MetaValue → Option String
  | string s => some s
  | _ => none

end MetaValue

namespace Metainfo

/-- The value under a key. -/
def get (m : Metainfo) (key : String) : Except Error MetaValue :=
  match m.get? key with
  | some v => .ok v
  | none => .error (.keyNotFound key)

/-- The value under a key, as one of the kind with the given name. -/
def getAs {α : Type} (kind : String) (extract? : MetaValue → Option α) (m : Metainfo)
    (key : String) : Except Error α := do
  let v ← m.get key
  match extract? v with
  | some a => .ok a
  | none => .error (.typeMismatch key kind v.typeName)

def getBool : Metainfo → String → Except Error Bool := getAs "bool" MetaValue.bool?

def getInt32 : Metainfo → String → Except Error Int32 := getAs "int32" MetaValue.int32?

def getInt64 : Metainfo → String → Except Error Int64 := getAs "int64" MetaValue.int64?

def getFloat32 : Metainfo → String → Except Error Binary32 := getAs "float32" MetaValue.float32?

def getFloat64 : Metainfo → String → Except Error Binary64 := getAs "float64" MetaValue.float64?

def getString : Metainfo → String → Except Error String := getAs "string" MetaValue.string?

end Metainfo
end FieldArchive

import FieldArchive.Error

/-!
# The catalog of fields

The registered field descriptions of an archive, in the order of registration,
and for each savepoint the names of the fields stored there, in the order of
writing.  A name is described once; registering it again only confirms a
description of the same shape.
-/

namespace FieldArchive

/-- What registering a field did. -/
inductive Registration where
  | inserted
  | confirmed
  deriving DecidableEq, Repr

def Registration.name : Registration → String
  | inserted => "inserted"
  | confirmed => "confirmed"

/-- Descriptions and presence of fields. -/
structure Catalog where
  /-- Descriptions in the order of registration. -/
  fields : List FieldInfo
  /-- The position of each name in `fields`. -/
  byName : Index String Nat
  /-- Field names at each savepoint, in the order of writing. -/
  presence : Index Savepoint (List String)
  deriving Repr

/-- Succeeds if two descriptions of a field agree in type, width and extents. -/
def FieldInfo.checkCompatible (registered given : FieldInfo) : Except Error Unit :=
  if registered.agreesWith given then .ok ()
  else .error (.typeMismatch registered.name registered.shape given.shape)

namespace Catalog

/-- The catalog without fields. -/
def empty : Catalog := ⟨[], .empty, .empty⟩

instance : Inhabited Catalog := ⟨empty⟩

/-- Number of registered fields. -/
def size (c : Catalog) : Nat := c.fields.length

/-- Names in the order of registration. -/
def names (c : Catalog) : List String := c.fields.map FieldInfo.name

/-- The description of a name. -/
def find? (c : Catalog) (name : String) : Option FieldInfo :=
  (c.byName.get? name).bind fun i => c.fields[i]?

/-- Register a description, or confirm an earlier one. -/
def register (c : Catalog) (info : FieldInfo) : Except Error (Registration × Catalog) :=
  match c.find? info.name with
  | some registered => do
      registered.checkCompatible info
      return (.confirmed, c)
  | none =>
      .ok (.inserted,
        { c with
          fields := c.fields ++ [info]
          byName := c.byName.insert info.name c.fields.length })

/-- Set a metainfo value of a registered field. -/
def addMetainfo (c : Catalog) (name key : String) (value : MetaValue) : Except Error Catalog :=
  match c.byName.get? name with
  | none => .error (.invalidArgument (.unregisteredField name))
  | some i =>
      .ok { c with
        fields := c.fields.modify i fun info =>
          { info with metainfo := info.metainfo.set key value } }

/-- The names of the fields at a savepoint, in the order of writing. -/
def fieldsAt (c : Catalog) (savepoint : Savepoint) : List String :=
  (c.presence.get? savepoint).getD []

/-- True if a field is stored at a savepoint. -/
def isPresent (c : Catalog) (savepoint : Savepoint) (name : String) : Bool :=
  (c.fieldsAt savepoint).contains name

/-- Note that a registered field is stored at a savepoint. -/
def recordPresence (c : Catalog) (savepoint : Savepoint) (name : String) :
    Except Error Catalog :=
  if c.byName.contains name then
    let names := c.fieldsAt savepoint
    if names.contains name then .ok c
    else .ok { c with presence := c.presence.insert savepoint (names ++ [name]) }
  else .error (.fieldNotFound savepoint name)

end Catalog
end FieldArchive

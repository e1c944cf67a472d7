import FieldArchive.ArchiveId
import FieldArchive.Catalog
import FieldArchive.Offsets

/-!
# Metadata documents

A document is the full state of an archive's tables, as it is written to the
metadata file.  Only lists are written; the indices of the tables are built
again when the document is loaded, and everything the tables rely on is checked
then.
-/

namespace FieldArchive

/-- The contents of a metadata file. -/
structure Document where
  formatVersion : UInt32
  id : ArchiveId
  createdAt : String
  /-- The time of the last flush. -/
  updatedAt : String
  settings : Settings
  metainfo : Metainfo
  fields : List FieldInfo
  /-- Savepoints by number. -/
  savepoints : List Savepoint
  offsets : List OffsetEntry
  /-- The length of the data file that the document vouches for. -/
  dataLength : Nat
  deriving Repr

/-- The tables of an archive. -/
structure Tables where
  metainfo : Metainfo
  catalog : Catalog
  offsets : OffsetTable
  deriving Repr

namespace Document

/-- The version of the format. -/
def currentVersion : UInt32 := 1

/-- The document of an archive at a time. -/
def snapshot (id : ArchiveId) (createdAt updatedAt : String) (settings : Settings)
    (tables : Tables) (dataLength : Nat) : Document :=
  { formatVersion := currentVersion
    id := id
    createdAt := createdAt
    updatedAt := updatedAt
    settings := settings
    metainfo := tables.metainfo
    fields := tables.catalog.fields
    savepoints := tables.offsets.savepoints
    offsets := tables.offsets.entries
    dataLength := dataLength }

/-- Add the description of a field, whose name must be new. -/
def addField (catalog : Catalog) (info : FieldInfo) : Except Error Catalog := do
  if (catalog.find? info.name).isSome then
    throw (.corruptMetadata (.fieldTwice info.name))
  match info.validate with
  | .error d => throw (.corruptMetadata (.invalidField info.name d))
  | .ok _ => return (← catalog.register info).2

/-- Add a savepoint, which must be new. -/
def addSavepoint (table : OffsetTable) (savepoint : Savepoint) : Except Error OffsetTable :=
  let (id, next) := table.registerSavepoint savepoint
  if id ≠ table.savepoints.length then
    .error (.corruptMetadata (.savepointTwice savepoint))
  else .ok next

/-- Add an entry, whose length must be that of its field. -/
def addOffset (tables : Catalog × OffsetTable) (entry : OffsetEntry) :
    Except Error (Catalog × OffsetTable) := do
  let (catalog, table) := tables
  match catalog.find? entry.field with
  | none => throw (.corruptMetadata (.unregisteredField entry.field))
  | some info =>
      if entry.record.extent.length ≠ info.byteSize then
        throw (.corruptMetadata
          (.otherLength entry.field entry.record.extent.length info.byteSize))
      let table ← table.restore entry.savepoint entry.field entry.record
      match table.savepoints[entry.savepoint]? with
      | some savepoint => return (← catalog.recordPresence savepoint entry.field, table)
      | none => return (catalog, table)

/-- Build the tables that a document describes. -/
def tables (doc : Document) : Except Error Tables := do
  let catalog ← doc.fields.foldlM addField .empty
  let offsets ← doc.savepoints.foldlM addSavepoint (.empty doc.settings.checksum)
  let (catalog, offsets) ← doc.offsets.foldlM addOffset (catalog, offsets)
  offsets.validateExtent doc.dataLength
  return ⟨doc.metainfo, catalog, offsets⟩

end Document
end FieldArchive

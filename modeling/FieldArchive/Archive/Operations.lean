import FieldArchive.Archive.Basic

/-!
# Operations on an open archive

Operations that only change the tables return the changed archive, or an error
and no archive.  Storing a snapshot, flushing and closing also act on the disk;
they may fail half way, and then say what state they leave.
-/

namespace FieldArchive.Archive

/-- Set a metainfo value of the archive. -/
def addMetainfo (a : Archive) (key : String) (value : MetaValue) : Except Error Archive := do
  let _ ← a.requireMode .write .addGlobalMetainfo
  checkFiniteValue .archive key value
  return { a with
    tables := { a.tables with metainfo := a.tables.metainfo.set key value }
    dirty := true }

/-- Register a field, or confirm that it is registered with the same shape. -/
def registerField (a : Archive) (info : FieldInfo) : Except Error (Registration × Archive) := do
  let _ ← a.requireMode .write .registerField
  checkFinite (.field info.name) info.metainfo
  let (registration, catalog) ← a.tables.catalog.register info
  return (registration,
    { a with
      tables := { a.tables with catalog := catalog }
      dirty := a.dirty || decide (registration = .inserted) })

/-- Make a savepoint known. -/
def registerSavepoint (a : Archive) (savepoint : Savepoint) : Except Error Archive := do
  let _ ← a.requireMode .write .registerSavepoint
  checkFinite (.savepoint savepoint) savepoint.metainfo
  match a.tables.offsets.savepointId? savepoint with
  | some _ => return a
  | none =>
      let (_, offsets) := a.tables.offsets.registerSavepoint savepoint
      return { a with tables := { a.tables with offsets := offsets }, dirty := true }

/-- Set a metainfo value of a registered field. -/
def addFieldMetainfo (a : Archive) (field key : String) (value : MetaValue) :
    Except Error Archive := do
  let _ ← a.requireMode .write .addFieldMetainfo
  checkFiniteValue (.field field) key value
  let catalog ← a.tables.catalog.addMetainfo field key value
  return { a with tables := { a.tables with catalog := catalog }, dirty := true }

/-- Check that the bytes of a registered field can be stored; gives the data
file. -/
def checkAppend (a : Archive) (savepoint : Savepoint) (field : String) (bytes : List UInt8) :
    Except Error Arena := do
  let arena ← a.requireMode .write .writeField
  checkFinite (.savepoint savepoint) savepoint.metainfo
  match a.tables.catalog.find? field with
  | none => throw (.fieldNotFound savepoint field)
  | some info =>
      if bytes.length ≠ info.byteSize then
        throw (.sizeMismatch field info.byteSize bytes.length)
      return arena

/-- Store the bytes of a registered field at a savepoint. -/
def append (savepoint : Savepoint) (field : String) (bytes : List UInt8) :
    ArchiveAction Appended := fun (a, m) =>
  match a.checkAppend savepoint field bytes with
  | .error e => .error e (a, m)
  | .ok arena =>
      match OffsetTable.append Arena.append savepoint field bytes (a.tables.offsets, arena, m) with
      | .error e (offsets, arena, m) =>
          .error e
            ({ a with tables := { a.tables with offsets := offsets }, arena := some arena }, m)
      | .ok appended (offsets, arena, m) =>
          let a :=
            { a with tables := { a.tables with offsets := offsets }, arena := some arena }
          match a.tables.catalog.recordPresence savepoint field with
          | .error e => .error e (a, m)
          | .ok catalog =>
              .ok appended
                ({ a with tables := { a.tables with catalog := catalog }, dirty := true }, m)

/-- The bytes stored for a key. -/
def readBytes (a : Archive) (d : Disk) (savepoint : Savepoint) (field : String) :
    Except Error (List UInt8) := do
  let arena ← a.requireMode .read .readField
  let record ← a.tables.offsets.lookup savepoint field
  arena.readRange d record.extent

/-- True if the metadata file does not describe the tables or the data file. -/
def needsFlush (a : Archive) : Bool :=
  a.dirty || (a.arena.map Arena.length).getD 0 != a.recordedLength

/-- Make everything written so far durable. -/
def flush : ArchiveAction Unit := fun (a, m) =>
  match a.mode with
  | .read => .ok () (a, m)
  | .write =>
      match a.requireOpen .flush with
      | .error e => .error e (a, m)
      | .ok _ =>
          if a.needsFlush then
            (do
              if a.syncData then
                match a.arena with
                | some arena => Effect.beside arena.sync
                | none => pure ()
              persist : ArchiveAction Unit) (a, m)
          else .ok () (a, m)

/-- Flush a writer and let go of the data file, also if the flush fails. -/
def close : ArchiveAction Unit := fun (a, m) =>
  if a.isClosed then .ok () (a, m)
  else
    match flush (a, m) with
    | .ok _ (a, m) => .ok () ({ a with arena := none }, m)
    | .error e (a, m) => .error e ({ a with arena := none }, m)

end FieldArchive.Archive

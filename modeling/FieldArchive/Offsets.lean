import FieldArchive.Error

/-!
# The offset table

The table maps a savepoint and a field name to the range of the data file that
holds the snapshot.  Savepoints are numbered in the order in which they were
first seen.  Every payload is digested before it is stored; if an entry has the
same checksum already, the new key shares its range and nothing is written.
Entries are never changed or removed.
-/

namespace FieldArchive

/-- Where a snapshot is stored. -/
structure OffsetRecord where
  checksum : Checksum
  extent : Extent
  deriving DecidableEq, Repr

/-- One key of the table with its record. -/
structure OffsetEntry where
  /-- The number of the savepoint. -/
  savepoint : Nat
  field : String
  record : OffsetRecord
  deriving DecidableEq, Repr

/-- What appending a snapshot did. -/
structure Appended where
  record : OffsetRecord
  /-- True if a stored range was shared and nothing was written. -/
  deduplicated : Bool
  deriving DecidableEq, Repr

/-- The offset table with its indices. -/
structure OffsetTable where
  algorithm : ChecksumAlgorithm
  /-- Savepoints by number. -/
  savepoints : List Savepoint
  /-- The number of each savepoint. -/
  savepointIds : Index Savepoint Nat
  /-- Entries in the order of insertion. -/
  entries : List OffsetEntry
  /-- For each savepoint by number, the position in `entries` of each field. -/
  positions : List (Index String Nat)
  /-- The range stored under each checksum. -/
  byChecksum : Index Checksum Extent
  deriving Repr

namespace OffsetTable

/-- The table without savepoints. -/
def empty (algorithm : ChecksumAlgorithm) : OffsetTable :=
  ⟨algorithm, [], .empty, [], [], .empty⟩

/-- Number of entries. -/
def size (t : OffsetTable) : Nat := t.entries.length

/-- The number of a known savepoint. -/
def savepointId? (t : OffsetTable) (savepoint : Savepoint) : Option Nat :=
  t.savepointIds.get? savepoint

/-- The number of a savepoint, which is made known if it is not. -/
def registerSavepoint (t : OffsetTable) (savepoint : Savepoint) : Nat × OffsetTable :=
  match t.savepointId? savepoint with
  | some id => (id, t)
  | none =>
      let id := t.savepoints.length
      (id,
        { t with
          savepoints := t.savepoints ++ [savepoint]
          savepointIds := t.savepointIds.insert savepoint id
          positions := t.positions ++ [.empty] })

/-- The position in `entries` of a field at a savepoint given by number. -/
def position? (t : OffsetTable) (savepoint : Nat) (field : String) : Option Nat :=
  (t.positions[savepoint]?).bind fun fields => fields.get? field

/-- Add an entry whose key has none. -/
def insert (t : OffsetTable) (savepoint : Nat) (field : String) (record : OffsetRecord) :
    OffsetTable :=
  { t with
    entries := t.entries ++ [⟨savepoint, field, record⟩]
    positions := t.positions.modify savepoint fun fields => fields.insert field t.entries.length }

/-- Store a payload for a key.

`write` stores bytes that are not stored yet and returns where they begin.  If
it fails, or if the key has an entry, the savepoint is known afterwards and all
else is as before. -/
def append {σ : Type} (write : List UInt8 → EStateM Error σ Nat) (savepoint : Savepoint)
    (field : String) (bytes : List UInt8) : EStateM Error (OffsetTable × σ) Appended :=
  fun (table, store) =>
    let (id, t) := table.registerSavepoint savepoint
    match t.position? id field with
    | some _ => .error (.duplicateField savepoint field) (t, store)
    | none =>
        let checksum := Checksum.compute t.algorithm bytes
        match t.byChecksum.get? checksum with
        | some extent =>
            let record := ⟨checksum, extent⟩
            .ok ⟨record, true⟩ (t.insert id field record, store)
        | none =>
            match write bytes store with
            | .error e store => .error e (t, store)
            | .ok offset store =>
                let extent : Extent := ⟨offset, bytes.length⟩
                let record := ⟨checksum, extent⟩
                let t := { t with byChecksum := t.byChecksum.insert checksum extent }
                .ok ⟨record, false⟩ (t.insert id field record, store)

/-- Put back an entry of a document. -/
def restore (t : OffsetTable) (savepoint : Nat) (field : String) (record : OffsetRecord) :
    Except Error OffsetTable :=
  match t.savepoints[savepoint]? with
  | none =>
      .error (.corruptMetadata (.unknownSavepoint field savepoint t.savepoints.length))
  | some point =>
      if (t.position? savepoint field).isSome then
        .error (.corruptMetadata (.entryTwice field point))
      else if !record.checksum.isWellFormed t.algorithm then
        .error (.corruptMetadata (.malformedChecksum t.algorithm record.checksum field))
      else
        match t.byChecksum.get? record.checksum with
        | some extent =>
            if extent ≠ record.extent then
              .error (.corruptMetadata (.twoExtents record.checksum extent record.extent))
            else .ok (t.insert savepoint field record)
        | none =>
            .ok ({ t with byChecksum := t.byChecksum.insert record.checksum record.extent }.insert
              savepoint field record)

/-- The record of a key. -/
def lookup (t : OffsetTable) (savepoint : Savepoint) (field : String) :
    Except Error OffsetRecord :=
  match t.savepointId? savepoint with
  | none => .error (.savepointNotFound savepoint)
  | some id =>
      match (t.position? id field).bind fun i => t.entries[i]? with
      | some entry => .ok entry.record
      | none => .error (.fieldNotFound savepoint field)

/-- True if a key has an entry. -/
def contains (t : OffsetTable) (savepoint : Savepoint) (field : String) : Bool :=
  (t.lookup savepoint field).isOk

/-- Number of stored ranges. -/
def uniqueRanges (t : OffsetTable) : Nat := t.byChecksum.size

/-- One past the last byte of any entry; an entry whose end is above 64 bits
does not count. -/
def dataExtent (t : OffsetTable) : Nat :=
  (t.entries.filterMap fun e => e.record.extent.stop?).foldl max 0

/-- True if a range ends within a data file of the given length. -/
def fits (dataLength : Nat) (extent : Extent) : Bool :=
  match extent.stop? with
  | some stop => decide (stop ≤ dataLength)
  | none => false

/-- Check that every range ends within a data file of the given length. -/
def validateExtent (t : OffsetTable) (dataLength : Nat) : Except Error Unit :=
  match t.entries.find? fun e => !fits dataLength e.record.extent with
  | none => .ok ()
  | some e =>
      .error (.corruptMetadata (.beyondData e.field
        ((t.savepoints[e.savepoint]?).getD default) e.record.extent dataLength))

end OffsetTable
end FieldArchive

import FieldArchive.Archive.Operations
import FieldArchive.Codec
import FieldArchive.Config

/-!
# Sessions

A session works on one archive, the primary one, and may consult another of the
same directory, its reference, when a read misses.  It turns buffers into bytes
and back.  A session is open for reading or for writing until it is closed, and
closed for good then.  While it is disabled its writes are skipped.
-/

namespace FieldArchive

/-- What a write did. -/
inductive WriteOutcome where
  | stored (record : OffsetRecord)
  /-- Equal bytes were stored before; their range is shared. -/
  | deduplicated (record : OffsetRecord)
  /-- The session is disabled. -/
  | skipped
  deriving DecidableEq, Repr

def WriteOutcome.name : WriteOutcome → String
  | stored _ => "stored"
  | deduplicated _ => "deduplicated"
  | skipped => "skipped"

/-- The record of a write that was not skipped. -/
def WriteOutcome.record? : WriteOutcome → Option OffsetRecord
  | stored r | deduplicated r => some r
  | skipped => none

/-- Counts of the primary archive. -/
structure Stats where
  fields : Nat
  savepoints : Nat
  entries : Nat
  uniqueRanges : Nat
  dataBytes : Nat
  deriving DecidableEq, Repr

/-- A session on an archive. -/
structure Session where
  primary : Archive
  reference : Option Archive
  codec : Codec
  status : Status
  enabled : Bool
  durability : Durability
  deriving Repr

/-- An action on a session and its machine. -/
abbrev SessionAction := EStateM Error (Session × Machine)

namespace Session

/-- A session on archives that are open. -/
def ofArchives (primary : Archive) (reference : Option Archive) (durability : Durability) :
    Session :=
  { primary := primary
    reference := reference
    codec := .ofSettings primary.settings
    status := primary.mode.status
    enabled := true
    durability := durability }

/-- Open the reference of a session on another stem. -/
def openReference (layout : Layout) : Option String → Effect (Option Archive)
  | none => pure none
  | some stem =>
      if stem = layout.stem then throw (.invalidArgument (.referenceIsPrimary stem))
      else do
        let sibling ← Effect.ofExcept ((layout.sibling stem).mapError .invalidArgument)
        return some (← Archive.openForRead sibling)

/-- Open a session.  The reference comes first, so that a session without its
reference leaves no new archive behind. -/
def openWith (directory stem : String) (mode : Mode) (reference : Option String)
    (config : Config) : Effect Session := do
  let settings ← Effect.ofExcept config.settings
  let durability ← Effect.ofExcept config.durabilitySetting
  let layout ← Effect.ofExcept ((Layout.make directory stem).mapError .invalidArgument)
  let reference ← openReference layout reference
  let primary ← match mode with
    | .write => Archive.openForWrite layout settings config.syncData
    | .read => Archive.openForRead layout
  return ofArchives primary reference durability

def mode (s : Session) : Mode := s.primary.mode

def settings (s : Session) : Settings := s.primary.settings

def referenceSettings (s : Session) : Option Settings := s.reference.map Archive.settings

def enable (s : Session) : Session := { s with enabled := true }

def disable (s : Session) : Session := { s with enabled := false }

/-- Fails if the session is closed. -/
def requireOpen (s : Session) (operation : Operation) : Except Error Unit :=
  if s.status = .closed then .error (.invalidState operation s.status) else .ok ()

/-- Fails unless the session has a status. -/
def require (s : Session) (status : Status) (operation : Operation) : Except Error Unit :=
  if s.status ≠ status then .error (.invalidState operation s.status) else .ok ()

/-! ## Writing -/

/-- Register a field, or confirm that it is registered with the same shape. -/
def registerField (s : Session) (info : FieldInfo) : Except Error (Registration × Session) := do
  s.require .openForWrite .registerField
  let (registration, primary) ← s.primary.registerField info
  return (registration, { s with primary := primary })

/-- Make a savepoint known, which may stay without fields. -/
def registerSavepoint (s : Session) (savepoint : Savepoint) : Except Error Session := do
  s.require .openForWrite .registerSavepoint
  return { s with primary := ← s.primary.registerSavepoint savepoint }

/-- Set a metainfo value of the archive. -/
def addMetainfo (s : Session) (key : String) (value : MetaValue) : Except Error Session := do
  s.require .openForWrite .addGlobalMetainfo
  return { s with primary := ← s.primary.addMetainfo key value }

/-- Set a metainfo value of a registered field. -/
def addFieldMetainfo (s : Session) (field key : String) (value : MetaValue) :
    Except Error Session := do
  s.require .openForWrite .addFieldMetainfo
  return { s with primary := ← s.primary.addFieldMetainfo field key value }

/-- An action on the primary archive. -/
def onPrimary {α : Type} (act : ArchiveAction α) : SessionAction α := fun (s, m) =>
  match act (s.primary, m) with
  | .ok a (primary, m) => .ok a ({ s with primary := primary }, m)
  | .error e (primary, m) => .error e ({ s with primary := primary }, m)

/-- Store bytes, and flush if every write is to be durable. -/
def append (savepoint : Savepoint) (name : String) (bytes : List UInt8) :
    SessionAction WriteOutcome := do
  let appended ← onPrimary (Archive.append savepoint name bytes)
  if (← get).1.durability = .always then onPrimary Archive.flush
  return if appended.deduplicated then .deduplicated appended.record
    else .stored appended.record

/-- The bytes of a field with its description, or nothing if the session is
disabled. -/
def prepareField (s : Session) (name : String) (info : FieldInfo) (buffer : Buffer) :
    Except Error (Option (List UInt8)) := do
  s.require .openForWrite .writeField
  if name ≠ info.name then throw (.invalidArgument (.otherName name info.name))
  if s.enabled then return some (← s.codec.encode info buffer) else return none

/-- Store a snapshot of a field, which is registered on its first use. -/
def writeField (savepoint : Savepoint) (name : String) (info : FieldInfo) (buffer : Buffer) :
    SessionAction WriteOutcome := do
  match ← Effect.ofExcept ((← get).1.prepareField name info buffer) with
  | none => return .skipped
  | some bytes =>
      let (s, m) ← get
      let (_, primary) ← Effect.ofExcept (s.primary.registerField info)
      set ({ s with primary := primary }, m)
      append savepoint name bytes

/-- The bytes of a registered field, or nothing if the session is disabled. -/
def prepare (s : Session) (savepoint : Savepoint) (name : String) (buffer : Buffer) :
    Except Error (Option (List UInt8)) := do
  s.require .openForWrite .writeField
  match s.primary.tables.catalog.find? name with
  | none => throw (.fieldNotFound savepoint name)
  | some info =>
      if s.enabled then return some (← s.codec.encode info buffer) else return none

/-- Store a snapshot of a registered field. -/
def write (savepoint : Savepoint) (name : String) (buffer : Buffer) :
    SessionAction WriteOutcome := do
  match ← Effect.ofExcept ((← get).1.prepare savepoint name buffer) with
  | none => return .skipped
  | some bytes => append savepoint name bytes

/-- Make everything written so far durable. -/
def flush : SessionAction Unit := do
  Effect.ofExcept ((← get).1.requireOpen .flush)
  onPrimary Archive.flush

/-! ## Reading -/

/-- The archives that a read consults, in order. -/
def archives (s : Session) : List Archive := s.primary :: s.reference.toList

/-- True if an archive of the session knows a savepoint. -/
def knowsSavepoint (s : Session) (savepoint : Savepoint) : Bool :=
  s.archives.any fun a => (a.tables.offsets.savepointId? savepoint).isSome

/-- What a read found. -/
structure Found where
  archive : Archive
  info : FieldInfo
  bytes : List UInt8

/-- The first of some archives that has a key; `none` if all miss it. -/
def findIn (d : Disk) (savepoint : Savepoint) (name : String) :
    List Archive → Except Error (Option Found)
  | [] => .ok none
  | a :: rest =>
      match a.readBytes d savepoint name with
      | .ok bytes =>
          match a.tables.catalog.find? name with
          | some info => .ok (some ⟨a, info, bytes⟩)
          | none => .error (.corruptMetadata (.undescribedField name a.layout.stem))
      | .error e => if e.isMiss then findIn d savepoint name rest else .error e

/-- The bytes of a key in the primary archive, or else in the reference. -/
def locate (s : Session) (d : Disk) (savepoint : Savepoint) (name : String) :
    Except Error Found := do
  s.require .openForRead .readField
  match ← findIn d savepoint name s.archives with
  | some found => return found
  | none =>
      if s.knowsSavepoint savepoint then throw (.fieldNotFound savepoint name)
      else throw (.savepointNotFound savepoint)

/-- The stored bytes of a key, with the description that goes with them. -/
def readRaw (s : Session) (d : Disk) (savepoint : Savepoint) (name : String) :
    Except Error (FieldInfo × List UInt8) := do
  let found ← s.locate d savepoint name
  return (found.info, found.bytes)

/-- The snapshot of a key, decoded as the archive that holds it declares. -/
def readField (s : Session) (d : Disk) (savepoint : Savepoint) (name : String) :
    Except Error Buffer := do
  let found ← s.locate d savepoint name
  (Codec.ofSettings found.archive.settings).decode found.info found.bytes

/-! ## Questions about the archives -/

/-- The savepoints of the primary archive, by number. -/
def savepoints (s : Session) : Except Error (List Savepoint) := do
  s.requireOpen .listSavepoints
  return s.primary.tables.offsets.savepoints

/-- The fields stored at a savepoint of the primary archive. -/
def fieldsAt (s : Session) (savepoint : Savepoint) : Except Error (List String) := do
  s.requireOpen .listFields
  return s.primary.tables.catalog.fieldsAt savepoint

/-- The registered fields of the primary archive. -/
def fieldNames (s : Session) : Except Error (List String) := do
  s.requireOpen .listFields
  return s.primary.tables.catalog.names

/-- The description of a field in the primary archive, or else in the
reference. -/
def fieldInfo (s : Session) (name : String) : Except Error (Option FieldInfo) := do
  s.requireOpen .describeField
  return s.archives.findSome? fun a => a.tables.catalog.find? name

/-- True if an archive of the session has a key. -/
def hasField (s : Session) (savepoint : Savepoint) (name : String) : Except Error Bool := do
  s.requireOpen .lookUpField
  return s.archives.any fun a => a.tables.offsets.contains savepoint name

/-- The metainfo of the primary archive. -/
def metainfo (s : Session) : Except Error Metainfo := do
  s.requireOpen .readGlobalMetainfo
  return s.primary.tables.metainfo

/-- Counts of the primary archive. -/
def stats (s : Session) : Except Error Stats := do
  s.requireOpen .collectStats
  let tables := s.primary.tables
  return {
    fields := tables.catalog.size
    savepoints := tables.offsets.savepoints.length
    entries := tables.offsets.size
    uniqueRanges := tables.offsets.uniqueRanges
    dataBytes := s.primary.dataLength }

/-! ## Closing -/

/-- Close the reference, if there is one. -/
def closeReference : SessionAction Unit := fun (s, m) =>
  match s.reference with
  | none => .ok () (s, m)
  | some reference =>
      match Archive.close (reference, m) with
      | .ok _ (reference, m) => .ok () ({ s with reference := some reference }, m)
      | .error e (reference, m) => .error e ({ s with reference := some reference }, m)

/-- Close both archives.  The session is closed also if a flush fails; the first
failure is the result. -/
def close : SessionAction Unit := fun (s, m) =>
  if s.status = .closed then .ok () (s, m)
  else
    match onPrimary Archive.close ({ s with status := .closed }, m) with
    | .ok _ state => closeReference state
    | .error e state =>
        match closeReference state with
        | .ok _ state => .error e state
        | .error _ state => .error e state

end Session
end FieldArchive

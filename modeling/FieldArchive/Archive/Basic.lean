import FieldArchive.Arena
import FieldArchive.Document.Text

/-!
# Archives

An archive is open for reading or for writing.  A writer keeps the tables in
memory and replaces the metadata when it is flushed; `dirty` says that the
tables have changed since.  Closing flushes a writer and lets go of the data
file.  Only finite metainfo is taken, because documents cannot hold any other.
-/

namespace FieldArchive

/-- What an archive is open for. -/
inductive Mode where
  | read
  | write
  deriving DecidableEq, Repr

def Mode.name : Mode → String
  | read => "read"
  | write => "write"

def Mode.ofName? : String → Option Mode
  | "read" => some read
  | "write" => some write
  | _ => none

/-- The status of an archive or session that is open. -/
def Mode.status : Mode → Status
  | read => .openForRead
  | write => .openForWrite

/-- An archive. -/
structure Archive where
  layout : Layout
  mode : Mode
  settings : Settings
  id : ArchiveId
  createdAt : String
  tables : Tables
  /-- The data file, unless the archive is closed. -/
  arena : Option Arena
  /-- The length of the data file in the metadata file. -/
  recordedLength : Nat
  /-- True if the tables have changed since the last flush. -/
  dirty : Bool
  /-- True if a flush waits for the data file. -/
  syncData : Bool
  deriving Repr

/-- An action on an archive and its machine. -/
abbrev ArchiveAction := EStateM Error (Archive × Machine)

namespace Archive

def isClosed (a : Archive) : Bool := a.arena.isNone

def status (a : Archive) : Status :=
  if a.isClosed then .closed else a.mode.status

/-- The logical length of the data file. -/
def dataLength (a : Archive) : Nat := (a.arena.map Arena.length).getD a.recordedLength

/-- Fails unless the archive is open. -/
def requireOpen (a : Archive) (operation : Operation) : Except Error Unit :=
  if a.isClosed then .error (.invalidState operation a.status) else .ok ()

/-- Fails unless the archive is open in a mode; gives its data file. -/
def requireMode (a : Archive) (mode : Mode) (operation : Operation) : Except Error Arena :=
  match a.arena with
  | none => .error (.invalidState operation .closed)
  | some arena =>
      if a.mode ≠ mode then .error (.invalidState operation a.status) else .ok arena

/-- Fails if a set holds a value that no document can hold. -/
def checkFinite (owner : Owner) (m : Metainfo) : Except Error Unit :=
  match m.firstNonFinite? with
  | some key => .error (.invalidArgument (.notFinite key owner))
  | none => .ok ()

/-- Fails for a value that no document can hold. -/
def checkFiniteValue (owner : Owner) (key : String) (value : MetaValue) : Except Error Unit :=
  if value.isFinite then .ok () else .error (.invalidArgument (.notFinite key owner))

/-- The document of an archive at a time. -/
def document (a : Archive) (updatedAt : String) : Document :=
  .snapshot a.id a.createdAt updatedAt a.settings a.tables a.dataLength

/-- Replace the metadata file. -/
def persist : ArchiveAction Unit := fun (a, m) =>
  match (do
      let time ← Machine.now
      (a.document time).persist a.layout.metadata a.layout.temporary : Effect Unit) m with
  | .ok _ m => .ok () ({ a with recordedLength := a.dataLength, dirty := false }, m)
  | .error e m => .error e (a, m)

/-- An archive over the tables of a document. -/
def ofDocument (layout : Layout) (mode : Mode) (doc : Document) (tables : Tables)
    (arena : Arena) (syncData : Bool) : Archive :=
  { layout := layout
    mode := mode
    settings := doc.settings
    id := doc.id
    createdAt := doc.createdAt
    tables := tables
    arena := some arena
    recordedLength := doc.dataLength
    dirty := false
    syncData := syncData }

/-- Open the archive that a metadata file describes for writing. -/
def reopenForWrite (layout : Layout) (settings : Settings) (syncData : Bool) :
    Effect Archive := do
  let doc ← Effect.ofExcept (Document.load (← get).disk layout.metadata)
  match settings.checkMatches doc.settings with
  | .error d => throw (.invalidArgument (.settings d))
  | .ok _ =>
      let tables ← Effect.ofExcept doc.tables
      let arena ←
        if (← get).disk.exists? layout.data then Arena.openAppend layout.data doc.dataLength
        else if doc.dataLength = 0 then Arena.create layout.data
        else throw (.corruptMetadata (.missingData layout.data doc.dataLength))
      return ofDocument layout .write doc tables arena syncData

/-- Start a new archive, with metadata that describes it as empty. -/
def createForWrite (layout : Layout) (settings : Settings) (syncData : Bool) :
    Effect Archive := do
  let arena ← Arena.create layout.data
  let id ← Machine.draw
  let createdAt ← Machine.now
  let a : Archive :=
    { layout := layout
      mode := .write
      settings := settings
      id := id
      createdAt := createdAt
      tables := ⟨.empty, .empty, .empty settings.checksum⟩
      arena := some arena
      recordedLength := 0
      dirty := true
      syncData := syncData }
  fun m =>
    match persist (a, m) with
    | .ok _ (a, m) => .ok a m
    | .error e (_, m) => .error e m

/-- Open an archive for writing; one that does not exist is created. -/
def openForWrite (layout : Layout) (settings : Settings) (syncData : Bool) :
    Effect Archive := do
  layout.createDirectory
  if (← get).disk.exists? layout.metadata then reopenForWrite layout settings syncData
  else createForWrite layout settings syncData

/-- Open an archive for reading. -/
def openForRead (layout : Layout) : Effect Archive := do
  Effect.ofExcept (layout.checkReadable (← get).disk)
  let doc ← Effect.ofExcept (Document.load (← get).disk layout.metadata)
  let tables ← Effect.ofExcept doc.tables
  let arena ← Arena.openRead layout.data doc.dataLength
  return ofDocument layout .read doc tables arena false

end Archive
end FieldArchive

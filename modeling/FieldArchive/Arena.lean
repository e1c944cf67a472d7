import FieldArchive.Layout

/-!
# The data file

The data file is an arena addressed by offset and length.  Its logical length
is the one that the metadata vouches for, not the size of the file: bytes past
it belong to an append that was never recorded.  A writer cuts them off when it
opens the file, a reader ignores them, and a file shorter than its logical
length is corrupt.
-/

namespace FieldArchive

/-- An open data file. -/
structure Arena where
  path : String
  file : NodeId
  /-- The logical length; appends start here. -/
  length : Nat
  writable : Bool
  deriving DecidableEq, Repr

namespace Arena

/-- Start an empty data file in place of any other. -/
def create (path : String) : Effect Arena := do
  let file ← .ofWriteCall path (Machine.openEmpty path)
  return ⟨path, file, 0, true⟩

/-- Fails if a file is shorter than its logical length. -/
def checkPhysical (path : String) (physical valid : Nat) : Except Error Unit :=
  if physical < valid then .error (.corruptMetadata (.shortData path physical valid))
  else .ok ()

/-- Open a data file for appending after `valid` bytes; what follows is cut
off. -/
def openAppend (path : String) (valid : Nat) : Effect Arena := do
  let file ← .ofWriteCall path (Machine.openWritable path)
  let physical := (← get).disk.size file
  Effect.ofExcept (checkPhysical path physical valid)
  if valid < physical then
    Effect.ofCall (Machine.truncate file valid)
    Effect.ofCall Machine.sync
  return ⟨path, file, valid, true⟩

/-- Open a data file for reading `valid` bytes. -/
def openRead (path : String) (valid : Nat) : Effect Arena := do
  match (← get).disk.find path with
  | .error .notFound => throw (.archiveNotFound path)
  | .error e => throw (.io e)
  | .ok file =>
      Effect.ofExcept (checkPhysical path ((← get).disk.size file) valid)
      return ⟨path, file, valid, false⟩

/-- The bytes of a range within the logical length. -/
def readRange (a : Arena) (d : Disk) (extent : Extent) : Except Error (List UInt8) :=
  match extent.stop? with
  | none => .error (.corruptMetadata (.overflowingRange extent))
  | some stop =>
      if a.length < stop then
        .error (.corruptMetadata (.outsideData extent a.path a.length))
      else
        match d.readRange a.file extent.offset extent.length with
        | .ok bytes => .ok bytes
        | .error e => .error (.io e)

/-- Append bytes and return where they begin.  If the write fails the logical
length stays, so the next append writes over what was left behind. -/
def append (bytes : List UInt8) : EStateM Error (Arena × Machine) Nat := fun (a, m) =>
  if !a.writable then .error (.invalidState .appendData .readOnly) (a, m)
  else
    match Effect.ofCall (Machine.write a.file a.length bytes) m with
    | .ok _ m => .ok a.length ({ a with length := a.length + bytes.length }, m)
    | .error e m => .error e (a, m)

/-- Wait until the appended bytes are durable. -/
def sync (a : Arena) : Effect Unit :=
  if a.writable then .ofCall Machine.sync else pure ()

end Arena
end FieldArchive

import FieldArchive.ArchiveId
import FieldArchive.Disk.Basic

/-!
# Machines

A machine is a disk together with what a program meets from outside: the time,
fresh identifiers, and failures of the file system.  The machine numbers its
calls, and the environment answers by number, so that a run is a function of
the machine it starts on.  It also keeps the trace of all changes to the disk.

A call that fails changes nothing, except that a write may have left some of
its bytes behind.
-/

namespace FieldArchive

/-- The failure of a call. -/
structure Fault where
  error : IoError
  /-- Bytes of a write that reach the file. -/
  kept : Nat
  deriving DecidableEq, Repr

/-- The world outside, by the number of the call. -/
structure Environment where
  clock : Nat → String
  identifier : Nat → ArchiveId
  fault : Nat → Option Fault

/-- A disk in its environment. -/
structure Machine where
  environment : Environment
  disk : Disk
  /-- Number of calls so far. -/
  calls : Nat
  /-- All changes to the disk, from the first to the last. -/
  trace : List Disk.Change

namespace Machine

/-- A machine before its first call. -/
def start (environment : Environment) (disk : Disk) : Machine := ⟨environment, disk, 0, []⟩

/-- A call to the file system. -/
abbrev Call := EStateM IoError Machine

/-- Count a call. -/
def tick (m : Machine) : Machine := { m with calls := m.calls + 1 }

/-- Change the disk and keep the change in the trace. -/
def record (m : Machine) (change : Disk.Change) : Machine :=
  { m with disk := m.disk.apply change, trace := m.trace ++ [change] }

/-- The current time. -/
def now {ε : Type} : EStateM ε Machine String := fun m =>
  .ok (m.environment.clock m.calls) m.tick

/-- An identifier for a new archive. -/
def draw {ε : Type} : EStateM ε Machine ArchiveId := fun m =>
  .ok (m.environment.identifier m.calls) m.tick

/-- A call that changes the disk, or fails. -/
def commit (change : Disk.Change) : Call Unit := fun m =>
  match m.environment.fault m.calls with
  | none => .ok () (m.tick.record change)
  | some fault =>
      match change.cut fault.kept with
      | some part => .error fault.error (m.tick.record part)
      | none => .error fault.error m.tick

/-- Wait until the changes so far are durable. -/
def sync : Call Unit := fun m =>
  match m.environment.fault m.calls with
  | none => .ok () m.tick
  | some fault => .error fault.error m.tick

/-- Look at the disk. -/
def inspect {α : Type} (f : Disk → Except IoError α) : Call α := fun m =>
  match f m.disk with
  | .ok a => .ok a m
  | .error e => .error e m

/-- Open the empty file at a path, which loses what it held. -/
def openEmpty (text : String) : Call NodeId := do
  let slot ← inspect fun d => d.locateFile text
  commit (.makeEmpty slot)
  inspect fun d => d.find text

/-- Open a file that exists for writing. -/
def openWritable (text : String) : Call NodeId :=
  inspect fun d => do
    let id ← d.find text
    match d.nodes[id]? with
    | some (.file _) => .ok id
    | _ => .error .isDirectory

/-- Open what is at a path for reading. -/
def openReadable (text : String) : Call NodeId := inspect fun d => d.find text

/-- Write bytes at an offset of an open file. -/
def write (id : NodeId) (offset : Nat) (bytes : List UInt8) : Call Unit :=
  if bytes.isEmpty then pure ()
  else if Disk.maxFileLength < offset + bytes.length then throw .fileTooLarge
  else commit (.write id offset bytes)

/-- Cut an open file to a length. -/
def truncate (id : NodeId) (length : Nat) : Call Unit := commit (.resize id length)

/-- Give a file the name of another file, which is replaced. -/
def rename (source target : String) : Call Unit := do
  let (source, target) ← inspect fun d => do
    let source ← d.locateFile source
    let target ← d.locateFile target
    match d.entries.get? source with
    | none => .error .notFound
    | some _ => .ok (source, target)
  commit (.rename source target)

/-- Make the directories along names that do not exist yet; `made` tells that
one before them was made.  The name before a `.` at the end must exist.

A file in the way is reported by the first call that meets it: as no directory
if names are left and nothing had to be made before, and else as what exists
under the name of a directory to make. -/
def makeDirectoriesFrom (trail : Trail) (made : Bool) : List String → Call Unit
  | [] => pure ()
  | [name, "."] => do
      let _ ← inspect fun d => d.enter trail name
  | name :: rest => do
      let entered ← inspect fun d => .ok (d.enter trail name)
      match entered with
      | .ok next => makeDirectoriesFrom next made rest
      | .error .notFound =>
          commit (.makeDirectory ⟨Disk.here trail, name⟩)
          let next ← inspect fun d => d.enter trail name
          makeDirectoriesFrom next true rest
      | .error .notDirectory =>
          throw (if made || rest.isEmpty then .alreadyExists else .notDirectory)
      | .error e => throw e

/-- Make a directory and those on the way to it.  Without a name there is
nothing to make. -/
def makeDirectories (text : String) : Call Unit :=
  if text.isEmpty then pure ()
  else do
    let names ← inspect fun _ => Disk.namesOf text
    makeDirectoriesFrom [] false names

end Machine
end FieldArchive

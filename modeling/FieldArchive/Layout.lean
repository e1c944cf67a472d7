import FieldArchive.Disk.Machine
import FieldArchive.Error

/-!
# File layout of an archive

An archive is a metadata file and a data file that share a stem in one
directory.  A third file exists only while the metadata is being replaced.
-/

namespace FieldArchive

/-- An action on a machine. -/
abbrev Effect := EStateM Error Machine

namespace Effect

/-- The result of a check. -/
def ofExcept {σ α : Type} : Except Error α → EStateM Error σ α
  | .ok a => pure a
  | .error e => throw e

/-- A call whose failures are reported as they are. -/
def ofCall {α : Type} (call : Machine.Call α) : Effect α := call.adaptExcept .io

/-- A call whose failures mean that an archive cannot be written. -/
def ofWriteCall {α : Type} (path : String) (call : Machine.Call α) : Effect α :=
  call.adaptExcept (.archiveUnwritable path)

/-- An action on the machine beside another state. -/
def beside {σ α : Type} (act : Effect α) : EStateM Error (σ × Machine) α := fun (s, m) =>
  match act m with
  | .ok a m => .ok a (s, m)
  | .error e m => .error e (s, m)

end Effect

/-- Where the files of an archive are. -/
structure Layout where
  directory : String
  stem : String
  deriving DecidableEq, Repr

namespace Layout

/-- The layout for a stem, which must be a plain name. -/
def make (directory stem : String) : Except Misuse Layout :=
  if stem.isEmpty then .error .emptyStem
  else if stem.toList.contains '/' || stem.toList.contains '\\' then
    .error (.separatorInStem stem)
  else .ok ⟨directory, stem⟩

/-- The layout of another archive in the same directory. -/
def sibling (l : Layout) (stem : String) : Except Misuse Layout := make l.directory stem

/-- The ending of metadata files. -/
def metadataExtension : String := "json"

/-- The ending of data files. -/
def dataExtension : String := "dat"

/-- The metadata file. -/
def metadata (l : Layout) : String := Path.join l.directory (l.stem ++ "." ++ metadataExtension)

/-- The file that is written before it becomes the metadata file. -/
def temporary (l : Layout) : String :=
  Path.join l.directory (l.stem ++ "." ++ metadataExtension ++ ".tmp")

/-- The data file. -/
def data (l : Layout) : String := Path.join l.directory (l.stem ++ "." ++ dataExtension)

/-- Check that both files exist. -/
def checkReadable (l : Layout) (d : Disk) : Except Error Unit :=
  if !d.exists? l.metadata then .error (.archiveNotFound l.metadata)
  else if !d.exists? l.data then .error (.archiveNotFound l.data)
  else .ok ()

/-- Make the directory. -/
def createDirectory (l : Layout) : Effect Unit :=
  .ofWriteCall l.directory (Machine.makeDirectories l.directory)

end Layout
end FieldArchive

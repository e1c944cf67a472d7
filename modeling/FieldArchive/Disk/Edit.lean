import FieldArchive.Disk.Basic

/-!
# Edits from outside

Other programs may change the files of an archive while nobody looks, or while
it is open: they put texts in place, append to files, cut, copy and remove
them.  Such an edit is a function on disks.  It is no call of a machine, so it
leaves nothing in a trace.
-/

namespace FieldArchive.Disk

/-- Make the directories along names that do not exist yet, except for one
before a `.` at the end. -/
def ensureDirectories (d : Disk) (trail : Trail) : List String → Except IoError Disk
  | [] => .ok d
  | [name, "."] => (d.enter trail name).map fun _ => d
  | name :: rest =>
      match d.enter trail name with
      | .ok next => d.ensureDirectories next rest
      | .error .notFound =>
          let d := d.apply (.makeDirectory ⟨here trail, name⟩)
          match d.enter trail name with
          | .ok next => d.ensureDirectories next rest
          | .error e => .error e
      | .error e => .error e

/-- Make a directory given by its text, and those on the way to it. -/
def makeDirectory (d : Disk) (text : String) : Except IoError Disk := do
  d.ensureDirectories [] (← namesOf text)

/-- Change the contents of a file given by its text. -/
def editFile (d : Disk) (text : String) (f : List UInt8 → List UInt8) : Except IoError Disk :=
  match d.find text with
  | .error e => .error e
  | .ok id =>
      match d.nodes[id]? with
      | some (.file _) => .ok (d.edit id f)
      | _ => .error .isDirectory

/-- Give a file its contents.  A file that is there stays the same file; for a
new one the directories on the way are made. -/
def put (d : Disk) (text : String) (bytes : List UInt8) : Except IoError Disk := do
  let d ← d.ensureDirectories [] (← namesOf text).dropLast
  let slot ← d.locateFile text
  (d.apply (.makeEmpty slot)).editFile text fun _ => bytes

/-- Append bytes to a file. -/
def extend (d : Disk) (text : String) (bytes : List UInt8) : Except IoError Disk :=
  d.editFile text fun contents => contents ++ bytes

/-- Cut a file, or fill it with zeros, to a length. -/
def setLength (d : Disk) (text : String) (length : Nat) : Except IoError Disk :=
  d.editFile text fun contents => resize contents length

/-- A text with the first occurrence of a part replaced. -/
def replaceFirst (part replacement : List Char) : List Char → List Char
  | [] => if part.isEmpty then replacement else []
  | c :: rest =>
      if part.isPrefixOf (c :: rest) then replacement ++ (c :: rest).drop part.length
      else c :: replaceFirst part replacement rest

/-- Replace the first occurrence of a part in the text of a file. -/
def substitute (d : Disk) (text part replacement : String) : Except IoError Disk := do
  let contents ← d.readText text
  let changed := replaceFirst part.toList replacement.toList contents.toList
  d.put text (textBytes (String.ofList changed))

/-- Give a file the contents that another has, which may be itself. -/
def copy (d : Disk) (source target : String) : Except IoError Disk := do
  d.put target (← d.readBytes source)

/-- The place of the node that a text leads to. -/
def slotOf (d : Disk) (text : String) : Except IoError Slot := do
  let _ ← d.find text
  match ← d.locate text with
  | .slot slot => .ok slot
  | .directory _ => .error .isDirectory

/-- Remove the name of a file; whoever has the file open keeps it. -/
def remove (d : Disk) (text : String) : Except IoError Disk := do
  let slot ← d.slotOf text
  match d.nodeAt? slot with
  | some (.file _) => .ok { d with entries := d.entries.erase slot }
  | _ => .error .isDirectory

/-- Remove the name of a directory, so that no text leads to what is in it. -/
def removeTree (d : Disk) (text : String) : Except IoError Disk := do
  let slot ← d.slotOf text
  match d.nodeAt? slot with
  | some .directory => .ok { d with entries := d.entries.erase slot }
  | _ => .error .notDirectory

/-- The name under which an entry is listed, with a slash after the name of a
directory. -/
def listedName (d : Disk) (slot : Slot) : String :=
  match d.nodeAt? slot with
  | some .directory => slot.name ++ "/"
  | _ => slot.name

/-- The names in a directory, in order. -/
def list (d : Disk) (text : String) : Except IoError (List String) := do
  let id ← d.find text
  match d.nodes[id]? with
  | some .directory =>
      let slots := d.entries.keys.filter fun slot => slot.directory == id
      .ok ((slots.map d.listedName).mergeSort fun a b => decide (a ≤ b))
  | _ => .error .notDirectory

/-- The size of what a text leads to. -/
def sizeAt (d : Disk) (text : String) : Except IoError Nat :=
  (d.find text).map d.size

end FieldArchive.Disk

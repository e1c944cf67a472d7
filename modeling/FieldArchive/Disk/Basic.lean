import FieldArchive.Index

/-!
# Disks

A disk holds nodes, which are files and directories, and entries, which give
nodes names in directories.  A file that is open is known by its node, so it
stays the same file when its name goes to another one, and it stays readable
when it has no name any more.

All modifications are values of `Change`.  What a program does to a disk is a
list of changes, and where it stops is a position in that list.

A path is given as text with slashes between the names of directories.  Empty
names and `.` stay where they are, and `..` goes up by one directory.  The end
of a text says more than where it leads to.  After a slash at the end the last
name can only be that of a directory, and a `.` at the end is a step inside a
directory, which must be there for the step to be made.
-/

namespace FieldArchive

/-- Why a call to the file system failed. -/
inductive IoError where
  | notFound
  | alreadyExists
  | notDirectory
  | isDirectory
  | fileTooLarge
  | nameTooLong
  /-- A name holds the character that ends names. -/
  | nulInName
  /-- A file ends before all bytes were read. -/
  | unexpectedEnd
  /-- A file that is read as text is not UTF-8. -/
  | invalidText
  | storageFull
  deriving DecidableEq, Repr

def IoError.message : IoError → String
  | notFound => "No such file or directory (os error 2)"
  | alreadyExists => "File exists (os error 17)"
  | notDirectory => "Not a directory (os error 20)"
  | isDirectory => "Is a directory (os error 21)"
  | fileTooLarge => "File too large (os error 27)"
  | nameTooLong => "File name too long (os error 36)"
  | nulInName => "file name contained an unexpected NUL byte"
  | unexpectedEnd => "failed to fill whole buffer"
  | invalidText => "stream did not contain valid UTF-8"
  | storageFull => "disk full"

/-! ## Paths -/

namespace Path

/-- The names in a text.  Of those that stay where they are, only a `.` at the
end is kept. -/
def names (text : String) : List String :=
  let parts := ((text.toList.splitOn '/').map String.ofList).filter fun name => name != ""
  let proper := parts.filter fun name => name != "."
  if parts.getLast? = some "." then proper ++ ["."] else proper

/-- True for a text with a slash at its end. -/
def endsInSlash (text : String) : Bool := text.toList.getLast? == some '/'

/-- The text of a name inside a directory given by its text. -/
def join (directory name : String) : String :=
  if directory.isEmpty || endsInSlash directory then directory ++ name
  else directory ++ "/" ++ name

end Path

/-! ## Nodes and entries -/

/-- A file with its contents, or a directory. -/
inductive Node where
  | file (bytes : List UInt8)
  | directory
  deriving DecidableEq, Repr

/-- The number of a node. -/
abbrev NodeId := Nat

/-- A place for a node: a directory and a name in it. -/
structure Slot where
  directory : NodeId
  name : String
  deriving DecidableEq, Repr

/-- Nodes by number, and the nodes at places. -/
structure Disk where
  entries : Index Slot NodeId
  nodes : List Node
  deriving Repr

/-- The directories on the way from the root, with the last one first and
without the root. -/
abbrev Trail := List NodeId

/-- Where a text leads to. -/
inductive Target where
  /-- A directory that is there. -/
  | directory (id : NodeId)
  /-- A place in a directory, which may be empty. -/
  | slot (slot : Slot)
  deriving DecidableEq, Repr

namespace Disk

/-- A disk with nothing but the root. -/
def empty : Disk := ⟨.empty, [.directory]⟩

instance : Inhabited Disk := ⟨empty⟩

/-- The node that is a directory from the start. -/
def root : NodeId := 0

/-- The directory that a trail leads to. -/
def here (trail : Trail) : NodeId := trail.headD root

/-- The node at a place. -/
def nodeAt? (d : Disk) (slot : Slot) : Option Node :=
  (d.entries.get? slot).bind fun id => d.nodes[id]?

/-- The contents of a file. -/
def contents (d : Disk) (id : NodeId) : List UInt8 :=
  match d.nodes[id]? with
  | some (.file bytes) => bytes
  | _ => []

/-- The size of a node; that of a directory is nominal. -/
def size (d : Disk) (id : NodeId) : Nat :=
  match d.nodes[id]? with
  | some (.file bytes) => bytes.length
  | _ => 4096

/-- The longest name, in bytes. -/
def maxNameLength : Nat := 255

/-- The longest text of a path, in bytes. -/
def maxPathLength : Nat := 4095

/-- The size that no file exceeds. -/
def maxFileLength : Nat := 0x7fffffffffffffff

/-- The node under a name in a directory. -/
def lookup (d : Disk) (slot : Slot) : Except IoError NodeId :=
  if maxNameLength < slot.name.utf8ByteSize then .error .nameTooLong
  else
    match d.entries.get? slot with
    | some id => .ok id
    | none => .error .notFound

/-- Go on to a directory by one name. -/
def enter (d : Disk) (trail : Trail) (name : String) : Except IoError Trail :=
  if name = "." then .ok trail
  else if name = ".." then .ok trail.tail
  else
    match d.lookup ⟨here trail, name⟩ with
    | .error e => .error e
    | .ok id =>
        match d.nodes[id]? with
        | some .directory => .ok (id :: trail)
        | _ => .error .notDirectory

/-- Go on through directories along names. -/
def walk (d : Disk) (trail : Trail) : List String → Except IoError Trail
  | [] => .ok trail
  | name :: rest =>
      match d.enter trail name with
      | .error e => .error e
      | .ok next => d.walk next rest

/-- The names in a text that may be given to the file system. -/
def namesOf (text : String) : Except IoError (List String) :=
  if text.toList.contains '\x00' then .error .nulInName
  else if text.isEmpty then .error .notFound
  else if maxPathLength < text.utf8ByteSize then .error .nameTooLong
  else .ok (Path.names text)

/-- The target of names.  All but the last are those of directories, and so is
the last one if it is `.` or `..`. -/
def targetOf (d : Disk) (names : List String) : Except IoError Target :=
  match d.walk [] names.dropLast with
  | .error e => .error e
  | .ok trail =>
      match names.getLast? with
      | none | some "." => .ok (.directory (here trail))
      | some ".." => .ok (.directory (here trail.tail))
      | some name => .ok (.slot ⟨here trail, name⟩)

/-- The target of a text. -/
def locate (d : Disk) (text : String) : Except IoError Target :=
  match namesOf text with
  | .error e => .error e
  | .ok names => d.targetOf names

/-- The node that a text leads to; with a slash at the end it is a directory. -/
def find (d : Disk) (text : String) : Except IoError NodeId :=
  match d.locate text with
  | .error e => .error e
  | .ok (.directory id) => .ok id
  | .ok (.slot slot) =>
      match d.lookup slot with
      | .error e => .error e
      | .ok id =>
          match d.nodes[id]? with
          | some (.file _) => if Path.endsInSlash text then .error .notDirectory else .ok id
          | _ => .ok id

/-- The place at which a text asks for a file.  A slash at the end asks for a
directory instead, which is refused before the last name is looked up. -/
def locateFile (d : Disk) (text : String) : Except IoError Slot :=
  match d.locate text with
  | .error e => .error e
  | .ok (.directory _) => .error .isDirectory
  | .ok (.slot slot) =>
      if Path.endsInSlash text then .error .isDirectory
      else if maxNameLength < slot.name.utf8ByteSize then .error .nameTooLong
      else
        match d.nodeAt? slot with
        | some .directory => .error .isDirectory
        | _ => .ok slot

/-- True if a text leads to a node. -/
def exists? (d : Disk) (text : String) : Bool := (d.find text).isOk

/-- The bytes of a file given by its path. -/
def readBytes (d : Disk) (text : String) : Except IoError (List UInt8) :=
  match d.find text with
  | .error e => .error e
  | .ok id =>
      match d.nodes[id]? with
      | some (.file bytes) => .ok bytes
      | _ => .error .isDirectory

/-- The text of a file given by its path. -/
def readText (d : Disk) (text : String) : Except IoError String :=
  match d.readBytes text with
  | .error e => .error e
  | .ok bytes =>
      match String.fromUTF8? ⟨bytes.toArray⟩ with
      | some s => .ok s
      | none => .error .invalidText

/-- `count` bytes of a file from an offset on. -/
def readRange (d : Disk) (id : NodeId) (offset count : Nat) : Except IoError (List UInt8) :=
  if count = 0 then .ok []
  else
    match d.nodes[id]? with
    | some (.file bytes) =>
        let range := (bytes.drop offset).take count
        if range.length = count then .ok range else .error .unexpectedEnd
    | _ => .error .isDirectory

/-- The bytes of a text. -/
def textBytes (s : String) : List UInt8 := s.toUTF8.data.toList

/-- Contents after bytes were written at an offset; a gap before it is filled
with zeros. -/
def overwrite (contents : List UInt8) (offset : Nat) (bytes : List UInt8) : List UInt8 :=
  if bytes.isEmpty then contents
  else
    contents.take offset ++ List.replicate (offset - contents.length) 0 ++ bytes ++
      contents.drop (offset + bytes.length)

/-- Contents cut or filled with zeros to a length. -/
def resize (contents : List UInt8) (length : Nat) : List UInt8 :=
  contents.take length ++ List.replicate (length - contents.length) 0

/-- One modification of a disk. -/
inductive Change where
  | makeDirectory (slot : Slot)
  /-- An empty file at a place: the file that is there, or else a new one. -/
  | makeEmpty (slot : Slot)
  | write (id : NodeId) (offset : Nat) (bytes : List UInt8)
  | resize (id : NodeId) (length : Nat)
  /-- The node at a place goes to another one, whose node loses its name. -/
  | rename (source target : Slot)
  deriving DecidableEq, Repr

/-- Change the contents of a file. -/
def edit (d : Disk) (id : NodeId) (f : List UInt8 → List UInt8) : Disk :=
  { d with nodes := d.nodes.modify id fun
      | .file bytes => .file (f bytes)
      | .directory => .directory }

/-- Add a node at a place. -/
def addNode (d : Disk) (slot : Slot) (node : Node) : Disk :=
  { entries := d.entries.insert slot d.nodes.length, nodes := d.nodes ++ [node] }

/-- Carry out a change. -/
def apply (d : Disk) : Change → Disk
  | .makeDirectory slot => d.addNode slot .directory
  | .makeEmpty slot =>
      match d.entries.get? slot with
      | some id => d.edit id fun _ => []
      | none => d.addNode slot (.file [])
  | .write id offset bytes => d.edit id fun contents => overwrite contents offset bytes
  | .resize id length => d.edit id fun contents => resize contents length
  | .rename source target =>
      match d.entries.get? source with
      | some id => { d with entries := (d.entries.erase source).insert target id }
      | none => d

/-- What is left of a change that stops after `count` bytes. -/
def Change.cut (count : Nat) : Change → Option Change
  | .write id offset bytes => some (.write id offset (bytes.take count))
  | _ => none

end Disk
end FieldArchive

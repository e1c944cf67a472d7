import FieldArchive.Layout
import FieldArchive.Toml.Parser

/-!
# Configurations

A configuration holds the names of the settings of a session.  They are kept
as text and checked when they are used, in a fixed order.  A configuration is
read from and written to a TOML file; keys that are missing have defaults, and
other keys are ignored.
-/

namespace FieldArchive

/-- When metadata is made durable. -/
inductive Durability where
  /-- When the archive is flushed or closed. -/
  | standard
  /-- After every write. -/
  | always
  deriving DecidableEq, Repr

namespace Durability

def name : Durability → String
  | standard => "standard"
  | always => "always"

def ofName? : String → Option Durability
  | "standard" => some standard
  | "always" => some always
  | _ => none

end Durability

/-- The settings of a session, as text. -/
structure Config where
  precision : String
  endianness : String
  checksum : String
  durability : String
  /-- True if a flush waits for the data file. -/
  syncData : Bool
  deriving DecidableEq, Repr

namespace Config

/-- The configuration without any choice made. -/
def standard : Config :=
  { precision := Precision.double.name
    endianness := Endianness.little.name
    checksum := ChecksumAlgorithm.sha256.name
    durability := Durability.standard.name
    syncData := true }

instance : Inhabited Config := ⟨standard⟩

def withPrecision (c : Config) (p : Precision) : Config := { c with precision := p.name }

def withEndianness (c : Config) (e : Endianness) : Config := { c with endianness := e.name }

def withChecksum (c : Config) (a : ChecksumAlgorithm) : Config := { c with checksum := a.name }

def withDurability (c : Config) (d : Durability) : Config := { c with durability := d.name }

def withSyncData (c : Config) (sync : Bool) : Config := { c with syncData := sync }

/-- Read a setting by its key. -/
def setting {α : Type} (key : String) (parsed : Except UnknownName α) : Except Error α :=
  parsed.mapError fun e => .invalidConfig (.setting key e)

def precisionSetting (c : Config) : Except Error Precision :=
  setting "precision" (Precision.parse c.precision)

def endiannessSetting (c : Config) : Except Error Endianness :=
  setting "endianness" (Endianness.parse c.endianness)

def checksumSetting (c : Config) : Except Error ChecksumAlgorithm :=
  setting "checksum" (ChecksumAlgorithm.parse c.checksum)

def durabilitySetting (c : Config) : Except Error Durability :=
  match Durability.ofName? c.durability with
  | some d => .ok d
  | none => .error (.invalidConfig (.durability c.durability))

/-- The settings of archives created under a configuration. -/
def settings (c : Config) : Except Error Settings := do
  let endianness ← c.endiannessSetting
  let precision ← c.precisionSetting
  let checksum ← c.checksumSetting
  return ⟨endianness, precision, checksum⟩

/-- Check all settings. -/
def validate (c : Config) : Except Error Unit := do
  let _ ← c.settings
  let _ ← c.durabilitySetting

/-- The text of a file with the defaults, for people to edit. -/
def defaultText : String :=
  "# serialbox configuration\n" ++
  "#\n" ++
  "# Floating point precision of real fields: \"single\" or \"double\" (default)\n" ++
  "precision = \"double\"\n" ++
  "\n" ++
  "# Byte order of the data file: \"little\" (default) or \"big\"\n" ++
  "endianness = \"little\"\n" ++
  "\n" ++
  "# Digest used to detect identical snapshots: \"sha256\" (default) or \"xxh3\"\n" ++
  "#   \"xxh3\" is faster but not collision resistant\n" ++
  "checksum = \"sha256\"\n" ++
  "\n" ++
  "# Durability mode: \"standard\" (default) or \"always\"\n" ++
  "#   \"standard\" = metadata rewritten on close\n" ++
  "#   \"always\"   = metadata rewritten after every write\n" ++
  "durability = \"standard\"\n" ++
  "\n" ++
  "# fsync the data file before each metadata rewrite (default: true)\n" ++
  "sync_data = true\n"

/-- The text of a configuration. -/
def text (c : Config) : String :=
  "precision = " ++ Toml.quote c.precision ++ "\n" ++
  "endianness = " ++ Toml.quote c.endianness ++ "\n" ++
  "checksum = " ++ Toml.quote c.checksum ++ "\n" ++
  "durability = " ++ Toml.quote c.durability ++ "\n" ++
  "sync_data = " ++ (if c.syncData then "true" else "false") ++ "\n"

/-- A string under a key, or a default. -/
def stringAt? (entries : Toml.Entries) (key default : String) : Option String :=
  match Toml.get? entries key with
  | none => some default
  | some (.string s) => some s
  | some _ => none

/-- A boolean under a key, or a default. -/
def booleanAt? (entries : Toml.Entries) (key : String) (default : Bool) : Option Bool :=
  match Toml.get? entries key with
  | none => some default
  | some (.boolean b) => some b
  | some _ => none

/-- Read the text of a configuration; the settings are not checked. -/
def parse? (s : String) : Option Config := do
  let entries ← Toml.parse s
  some
    { precision := ← stringAt? entries "precision" standard.precision
      endianness := ← stringAt? entries "endianness" standard.endianness
      checksum := ← stringAt? entries "checksum" standard.checksum
      durability := ← stringAt? entries "durability" standard.durability
      syncData := ← booleanAt? entries "sync_data" standard.syncData }

/-- Read and check a configuration file. -/
def load (disk : Disk) (path : String) : Except Error Config :=
  match disk.readText path with
  | .error e => .error (.invalidConfig (.unreadable path e))
  | .ok s =>
      match parse? s with
      | none => .error (.invalidConfig (.malformed path))
      | some c => do
          c.validate
          return c

/-- Write a text in place of a file. -/
def writeText (path s : String) : Effect Unit :=
  .ofCall do
    let file ← Machine.openEmpty path
    Machine.write file 0 (Disk.textBytes s)

/-- Write a file with the defaults unless there is a file. -/
def writeDefaultIfMissing (path : String) : Effect Unit := do
  if !(← get).disk.exists? path then writeText path defaultText

/-- Write a configuration to a file. -/
def save (c : Config) (path : String) : Effect Unit := writeText path c.text

end Config
end FieldArchive

import FieldArchive.Document.Basic
import FieldArchive.Json.Parser
import FieldArchive.Json.Printer
import FieldArchive.Layout

/-!
# Documents as text

A document is one JSON record.  Its lists may be missing, which stands for
empty ones.

A metadata file is replaced as a whole: the new text is written to a temporary
file, which then takes the name of the old one.  Whoever reads the file meets
either the old text or the new one.
-/

namespace FieldArchive

namespace OffsetEntry

def toJson (e : OffsetEntry) : Json :=
  .record
    [("savepoint", .nat e.savepoint),
     ("field", .str e.field),
     ("checksum", .str e.record.checksum.text),
     ("offset", .nat e.record.extent.offset),
     ("length", .nat e.record.extent.length)]

def ofJson? (j : Json) : Option OffsetEntry := do
  match ← j.fields? ["savepoint", "field", "checksum", "offset", "length"] with
  | [savepoint, field, checksum, offset, length] =>
      some
        { savepoint := ← (← savepoint).nat? wordBound
          field := ← (← field).text?
          record :=
            { checksum := ⟨← (← checksum).text?⟩
              extent := ⟨← (← offset).nat? wordBound, ← (← length).nat? wordBound⟩ } }
  | _ => none

end OffsetEntry

namespace Document

def toJson (d : Document) : Json :=
  .record
    [("format_version", .nat d.formatVersion.toNat),
     ("archive_id", .str d.id.text),
     ("created_at", .str d.createdAt),
     ("updated_at", .str d.updatedAt),
     ("settings", d.settings.toJson),
     ("global_metainfo", d.metainfo.toJson),
     ("fields", .array (d.fields.map FieldInfo.toJson)),
     ("savepoints", .array (d.savepoints.map Savepoint.toJson)),
     ("offsets", .array (d.offsets.map OffsetEntry.toJson)),
     ("data_length", .nat d.dataLength)]

/-- A list that may be missing. -/
def optionalList? {α : Type} (item? : Json → Option α) (j : Option Json) : Option (List α) :=
  j.elim (some []) (Json.list? item?)

def ofJson? (j : Json) : Option Document := do
  match ← j.fields? ["format_version", "archive_id", "created_at", "updated_at", "settings",
      "global_metainfo", "fields", "savepoints", "offsets", "data_length"] with
  | [version, id, createdAt, updatedAt, settings, metainfo, fields, savepoints, offsets,
      dataLength] =>
      some
        { formatVersion := UInt32.ofNat (← (← version).nat? 0x100000000)
          id := ← ArchiveId.parse? (← (← id).text?)
          createdAt := ← (← createdAt).text?
          updatedAt := ← (← updatedAt).text?
          settings := ← Settings.ofJson? (← settings)
          metainfo := ← metainfo.elim (some .empty) Metainfo.ofJson?
          fields := ← optionalList? FieldInfo.ofJson? fields
          savepoints := ← optionalList? Savepoint.ofJson? savepoints
          offsets := ← optionalList? OffsetEntry.ofJson? offsets
          dataLength := ← (← dataLength).nat? wordBound }
  | _ => none

/-- The text of a document. -/
def text (d : Document) : String := d.toJson.pretty

/-- Read the text of a document. -/
def parse? (s : String) : Option Document := do
  ofJson? (← Json.parse s)

/-- Read a metadata file. -/
def load (disk : Disk) (path : String) : Except Error Document :=
  match disk.readText path with
  | .error e => .error (.io e)
  | .ok text =>
      match parse? text with
      | none => .error (.corruptMetadata (.unreadable path))
      | some doc =>
          if doc.formatVersion ≠ currentVersion then
            .error (.corruptMetadata (.unsupportedVersion doc.formatVersion path))
          else .ok doc

/-- Replace a metadata file. -/
def persist (doc : Document) (path temporary : String) : Effect Unit :=
  .ofCall do
    let file ← Machine.openEmpty temporary
    Machine.write file 0 (Disk.textBytes doc.text)
    Machine.sync
    Machine.rename temporary path
    Machine.sync

end Document
end FieldArchive

import FieldArchive.Checksum
import FieldArchive.Json.Record

/-!
# Settings of an archive

An archive declares once how its data is encoded and digested.  Readers take
over what the archive declares; writers must agree with it.
-/

namespace FieldArchive

/-- How the data of an archive is encoded and digested. -/
structure Settings where
  endianness : Endianness
  precision : Precision
  checksum : ChecksumAlgorithm
  deriving DecidableEq, Repr

namespace Settings

/-- Little-endian doubles under SHA-256. -/
def standard : Settings := ⟨.little, .double, .sha256⟩

instance : Inhabited Settings := ⟨standard⟩

/-- The first setting in which a session differs from an archive. -/
structure Difference where
  /-- What differs, after the name of the value. -/
  subject : String
  declared : String
  session : String
  deriving DecidableEq, Repr

def Difference.message (d : Difference) : String :=
  "archive declares " ++ d.declared ++ " " ++ d.subject ++ ", session uses " ++ d.session

/-- Check that a session agrees with what an archive declares. -/
def checkMatches (session declared : Settings) : Except Difference Unit :=
  if session.endianness ≠ declared.endianness then
    .error ⟨"endianness", declared.endianness.name, session.endianness.name⟩
  else if session.precision ≠ declared.precision then
    .error ⟨"precision", declared.precision.name, session.precision.name⟩
  else if session.checksum ≠ declared.checksum then
    .error ⟨"checksums", declared.checksum.name, session.checksum.name⟩
  else .ok ()

def toJson (s : Settings) : Json :=
  .record
    [("endianness", .str s.endianness.name),
     ("precision", .str s.precision.name),
     ("checksum_algorithm", .str s.checksum.name)]

def ofJson? (j : Json) : Option Settings := do
  match ← j.fields? ["endianness", "precision", "checksum_algorithm"] with
  | [endianness, precision, checksum] =>
      some
        { endianness := ← (← endianness).choice? Endianness.ofName?
          precision := ← (← precision).choice? Precision.ofName?
          checksum := ← (← checksum).choice? ChecksumAlgorithm.ofName? }
  | _ => none

end Settings
end FieldArchive

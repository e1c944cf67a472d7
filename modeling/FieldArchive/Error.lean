import FieldArchive.Checksum
import FieldArchive.Disk.Basic
import FieldArchive.FieldInfo
import FieldArchive.Settings
import FieldArchive.Snapshot

/-!
# Errors

Every failure is a cause with the values it is about.  `Error.message` is the
one place where causes are put into words.
-/

namespace FieldArchive

/-- What was asked of an archive that was in no state for it. -/
inductive Operation where
  | addGlobalMetainfo
  | registerField
  | registerSavepoint
  | addFieldMetainfo
  | writeField
  | readField
  | flush
  | listSavepoints
  | listFields
  | describeField
  | lookUpField
  | readGlobalMetainfo
  | collectStats
  | appendData
  deriving DecidableEq, Repr

/-- The operation in the words of messages. -/
def Operation.phrase : Operation → String
  | addGlobalMetainfo => "add global metainfo"
  | registerField => "register a field"
  | registerSavepoint => "register a savepoint"
  | addFieldMetainfo => "add field metainfo"
  | writeField => "write a field"
  | readField => "read a field"
  | flush => "flush"
  | listSavepoints => "list savepoints"
  | listFields => "list fields"
  | describeField => "describe a field"
  | lookUpField => "look up a field"
  | readGlobalMetainfo => "read global metainfo"
  | collectStats => "collect stats"
  | appendData => "append to a data file"

/-- The state of an archive, a session or a data file. -/
inductive Status where
  | openForRead
  | openForWrite
  | closed
  | readOnly
  deriving DecidableEq, Repr

/-- The status in the words of messages. -/
def Status.phrase : Status → String
  | openForRead => "open for read"
  | openForWrite => "open for write"
  | closed => "closed"
  | readOnly => "read-only"

/-- Who holds a metainfo value. -/
inductive Owner where
  | archive
  | field (name : String)
  | savepoint (savepoint : Savepoint)
  deriving Repr

/-- An argument that contradicts itself or the archive. -/
inductive Misuse where
  | defect (defect : FieldInfo.Defect)
  | emptyStem
  | separatorInStem (stem : String)
  | settings (difference : Settings.Difference)
  | notFinite (key : String) (owner : Owner)
  | unregisteredField (name : String)
  | otherName (given described : String)
  | referenceIsPrimary (stem : String)
  deriving Repr

def Misuse.message : Misuse → String
  | defect d => d.message
  | emptyStem => "archive prefix must not be empty"
  | separatorInStem stem =>
      "archive prefix '" ++ stem ++ "' must not contain path separators"
  | settings d => d.message
  | notFinite key .archive =>
      "global metainfo '" ++ key ++ "' is not a finite number and cannot be stored"
  | notFinite key (.field name) =>
      "metainfo '" ++ key ++ "' of field '" ++ name ++
        "' is not a finite number and cannot be stored"
  | notFinite key (.savepoint s) =>
      "metainfo '" ++ key ++ "' of " ++ s.display ++
        " is not a finite number and cannot be stored"
  | unregisteredField name => "field '" ++ name ++ "' is not registered"
  | otherName given described =>
      "field name '" ++ given ++ "' does not match its description '" ++ described ++ "'"
  | referenceIsPrimary stem => "reference prefix '" ++ stem ++ "' names the primary archive"

/-- A document or data file that contradicts itself or the other. -/
inductive Corruption where
  | unreadable (path : String)
  | unsupportedVersion (version : UInt32) (path : String)
  | fieldTwice (name : String)
  | invalidField (name : String) (defect : FieldInfo.Defect)
  | savepointTwice (savepoint : Savepoint)
  | unregisteredField (name : String)
  | otherLength (field : String) (stored required : Nat)
  | unknownSavepoint (field : String) (position count : Nat)
  | entryTwice (field : String) (savepoint : Savepoint)
  | malformedChecksum (algorithm : ChecksumAlgorithm) (checksum : Checksum) (field : String)
  | twoExtents (checksum : Checksum) (first second : Extent)
  | beyondData (field : String) (savepoint : Savepoint) (extent : Extent) (dataLength : Nat)
  | missingData (path : String) (dataLength : Nat)
  | shortData (path : String) (physical recorded : Nat)
  | overflowingRange (extent : Extent)
  | outsideData (extent : Extent) (path : String) (dataLength : Nat)
  | undescribedField (name stem : String)
  deriving Repr

def Corruption.message : Corruption → String
  | unreadable path => "failed to parse metadata file '" ++ path ++ "'"
  | unsupportedVersion version path =>
      "unsupported metadata format version " ++ Digits.text version.toNat ++ " in '" ++ path ++
        "'"
  | fieldTwice name => "field '" ++ name ++ "' registered twice"
  | invalidField name d =>
      "invalid description of field '" ++ name ++ "': Invalid argument: " ++ d.message
  | savepointTwice s => "savepoint " ++ s.display ++ " listed twice"
  | unregisteredField name => "offset entry references unregistered field '" ++ name ++ "'"
  | otherLength field stored required =>
      "field '" ++ field ++ "' stored with " ++ Digits.text stored ++
        " bytes but its description requires " ++ Digits.text required
  | unknownSavepoint field position count =>
      "offset entry for field '" ++ field ++ "' references savepoint #" ++
        Digits.text position ++ " but only " ++ Digits.text count ++ " savepoints exist"
  | entryTwice field s =>
      "duplicate offset entry for field '" ++ field ++ "' at savepoint " ++ s.display
  | malformedChecksum algorithm checksum field =>
      "malformed " ++ algorithm.name ++ " checksum '" ++ checksum.text ++ "' for field '" ++
        field ++ "'"
  | twoExtents checksum first second =>
      "checksum " ++ checksum.text ++ " maps to two ranges (" ++ first.display ++ " and " ++
        second.display ++ ")"
  | beyondData field s extent dataLength =>
      "field '" ++ field ++ "' at savepoint " ++ s.display ++ " references " ++
        Digits.text extent.length ++ " bytes at offset " ++ Digits.text extent.offset ++
        " (end " ++ (extent.stop?.map Digits.text).getD "overflows" ++
        ") beyond data length " ++ Digits.text dataLength
  | missingData path dataLength =>
      "data file " ++ path ++ " is missing but metadata records " ++ Digits.text dataLength ++
        " bytes"
  | shortData path physical recorded =>
      "data file " ++ path ++ " has " ++ Digits.text physical ++
        " bytes but metadata records " ++ Digits.text recorded
  | overflowingRange extent => "range " ++ extent.display ++ " overflows"
  | outsideData extent path dataLength =>
      "range " ++ Digits.text extent.offset ++ ".." ++
        Digits.text (extent.offset + extent.length) ++ " outside data file " ++ path ++
        " of length " ++ Digits.text dataLength
  | undescribedField name stem =>
      "field '" ++ name ++ "' has data but no description in archive '" ++ stem ++ "'"

/-- A configuration that cannot be used. -/
inductive ConfigFault where
  | unreadable (path : String) (cause : IoError)
  | malformed (path : String)
  /-- A setting, by its key, has an unknown value. -/
  | setting (key : String) (cause : UnknownName)
  | durability (given : String)
  deriving DecidableEq, Repr

def ConfigFault.message : ConfigFault → String
  | unreadable path cause =>
      "failed to read config file '" ++ path ++ "': " ++ cause.message
  | malformed path => "failed to parse config file '" ++ path ++ "'"
  | setting key cause => key ++ ": " ++ cause.message
  | durability given =>
      "invalid durability mode '" ++ given ++ "'. Expected \"standard\" or \"always\"."

/-- Everything that can go wrong. -/
inductive Error where
  | invalidState (operation : Operation) (status : Status)
  | typeMismatch (subject expected actual : String)
  | duplicateField (savepoint : Savepoint) (field : String)
  | sizeMismatch (field : String) (expected actual : Nat)
  | fieldNotFound (savepoint : Savepoint) (field : String)
  | savepointNotFound (savepoint : Savepoint)
  | archiveNotFound (path : String)
  | archiveUnwritable (path : String) (cause : IoError)
  | corruptMetadata (cause : Corruption)
  | keyNotFound (key : String)
  | invalidArgument (cause : Misuse)
  | invalidConfig (cause : ConfigFault)
  | io (cause : IoError)
  /-- The bytes of a field do not split into elements of its type, which only a
  description that fails its validation brings about. -/
  | aborted
  deriving Repr

namespace Error

def message : Error → String
  | invalidState operation status =>
      "Invalid state: cannot " ++ operation.phrase ++ " while serializer is " ++ status.phrase
  | typeMismatch subject expected actual =>
      "Type mismatch for field '" ++ subject ++ "': registered as " ++ expected ++ ", got " ++
        actual
  | duplicateField s field =>
      "Field '" ++ field ++ "' already written at savepoint " ++ s.display
  | sizeMismatch field expected actual =>
      "Size mismatch for field '" ++ field ++ "': expected " ++ Digits.text expected ++
        ", got " ++ Digits.text actual
  | fieldNotFound s field => "Field '" ++ field ++ "' not found at savepoint " ++ s.display
  | savepointNotFound s => "Savepoint not found: " ++ s.display
  | archiveNotFound path => "Archive not found at " ++ path
  | archiveUnwritable path cause =>
      "Archive not writable at " ++ path ++ ": " ++ cause.message
  | corruptMetadata cause => "Corrupt metadata: " ++ cause.message
  | keyNotFound key => "Key not found: " ++ key
  | invalidArgument cause => "Invalid argument: " ++ cause.message
  | invalidConfig cause => "Invalid config: " ++ cause.message
  | io cause => "I/O error: " ++ cause.message
  | aborted => "field bytes do not split into elements"

/-- True for the two ways in which a read misses. -/
def isMiss : Error → Bool
  | fieldNotFound _ _ | savepointNotFound _ => true
  | _ => false

end Error
end FieldArchive

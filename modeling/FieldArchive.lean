import FieldArchive.Archive.Basic
import FieldArchive.Archive.Operations
import FieldArchive.ArchiveId
import FieldArchive.Arena
import FieldArchive.Buffer
import FieldArchive.Catalog
import FieldArchive.Checksum
import FieldArchive.Codec
import FieldArchive.Config
import FieldArchive.Digest.Sha256
import FieldArchive.Digest.Xxh3
import FieldArchive.Disk.Basic
import FieldArchive.Disk.Edit
import FieldArchive.Disk.Machine
import FieldArchive.Document.Basic
import FieldArchive.Document.Text
import FieldArchive.Element
import FieldArchive.Error
import FieldArchive.FieldInfo
import FieldArchive.Hex
import FieldArchive.Index
import FieldArchive.Json.Basic
import FieldArchive.Json.Number
import FieldArchive.Json.Parser
import FieldArchive.Json.Printer
import FieldArchive.Json.Record
import FieldArchive.Layout
import FieldArchive.Metainfo.Basic
import FieldArchive.Metainfo.Json
import FieldArchive.Metainfo.Lookup
import FieldArchive.Number.Binary
import FieldArchive.Number.Digits
import FieldArchive.Number.Shortest
import FieldArchive.Offsets
import FieldArchive.Proofs.Archive.Agreement
import FieldArchive.Proofs.Archive.Append
import FieldArchive.Proofs.Archive.Boundaries
import FieldArchive.Proofs.Archive.Bystanders
import FieldArchive.Proofs.Archive.Coherence
import FieldArchive.Proofs.Archive.Commands
import FieldArchive.Proofs.Archive.Crash
import FieldArchive.Proofs.Archive.Failing
import FieldArchive.Proofs.Archive.Fields
import FieldArchive.Proofs.Archive.Flushing
import FieldArchive.Proofs.Archive.Growing
import FieldArchive.Proofs.Archive.History
import FieldArchive.Proofs.Archive.Lengths
import FieldArchive.Proofs.Archive.Loaded
import FieldArchive.Proofs.Archive.Opening
import FieldArchive.Proofs.Archive.Progress
import FieldArchive.Proofs.Archive.Publishing
import FieldArchive.Proofs.Archive.Reading
import FieldArchive.Proofs.Archive.Recording
import FieldArchive.Proofs.Archive.Refusing
import FieldArchive.Proofs.Archive.Reloading
import FieldArchive.Proofs.Archive.Reopening
import FieldArchive.Proofs.Archive.Requests
import FieldArchive.Proofs.Archive.Resuming
import FieldArchive.Proofs.Archive.Saved
import FieldArchive.Proofs.Archive.Serving
import FieldArchive.Proofs.Archive.Sparing
import FieldArchive.Proofs.Archive.Steps
import FieldArchive.Proofs.Arena
import FieldArchive.Proofs.Catalog
import FieldArchive.Proofs.Checksum
import FieldArchive.Proofs.Codec
import FieldArchive.Proofs.Codec.Inverse
import FieldArchive.Proofs.Directories
import FieldArchive.Proofs.Disk.Basic
import FieldArchive.Proofs.Disk.Locating
import FieldArchive.Proofs.Disk.Path
import FieldArchive.Proofs.Document.Acceptance
import FieldArchive.Proofs.Document.Presence
import FieldArchive.Proofs.Document.RoundTrip
import FieldArchive.Proofs.Document.Tables
import FieldArchive.Proofs.Document.Text
import FieldArchive.Proofs.FieldInfo
import FieldArchive.Proofs.Hex
import FieldArchive.Proofs.Index
import FieldArchive.Proofs.Json.Record
import FieldArchive.Proofs.Json.Text
import FieldArchive.Proofs.Layout
import FieldArchive.Proofs.Ledger.Commuting
import FieldArchive.Proofs.Ledger.Rereading
import FieldArchive.Proofs.Ledger.Tables
import FieldArchive.Proofs.Metainfo.Hashing
import FieldArchive.Proofs.Metainfo.History
import FieldArchive.Proofs.Metainfo.Identity
import FieldArchive.Proofs.Metainfo.Text
import FieldArchive.Proofs.Number.Shortest
import FieldArchive.Proofs.Offsets
import FieldArchive.Proofs.Offsets.Forms
import FieldArchive.Proofs.Offsets.Storing
import FieldArchive.Proofs.Offsets.Updates
import FieldArchive.Proofs.Packing
import FieldArchive.Proofs.Session.Accounting
import FieldArchive.Proofs.Session.Alike
import FieldArchive.Proofs.Session.Answering
import FieldArchive.Proofs.Session.Calls
import FieldArchive.Proofs.Session.Commuting
import FieldArchive.Proofs.Session.Descriptions
import FieldArchive.Proofs.Session.Driving
import FieldArchive.Proofs.Session.Following
import FieldArchive.Proofs.Session.Isolation
import FieldArchive.Proofs.Session.Lifecycle
import FieldArchive.Proofs.Session.Progress
import FieldArchive.Proofs.Session.Refusals
import FieldArchive.Proofs.Session.RefusedOpening
import FieldArchive.Proofs.Session.Resolution
import FieldArchive.Proofs.Session.Restoring
import FieldArchive.Proofs.Session.RoundTrip
import FieldArchive.Proofs.Session.Storage
import FieldArchive.Proofs.Session.Visiting
import FieldArchive.Proofs.Siblings
import FieldArchive.Proofs.Sparing
import FieldArchive.Session
import FieldArchive.Settings
import FieldArchive.Snapshot
import FieldArchive.Toml.Basic
import FieldArchive.Toml.Parser
import FieldArchive.Toml.Scalar
import FieldArchive.Toml.Text

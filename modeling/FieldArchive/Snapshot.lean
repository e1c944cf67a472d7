import FieldArchive.Metainfo.Json

/-!
# Where a snapshot is taken and stored

A savepoint is a named point of capture, told apart from others of its name by
metainfo such as a step number.  Savepoints built independently are the same
point if their names are equal and their metainfo is interchangeable.

The bytes of a snapshot are one range of the data file, given by its offset and
its length.  Both are below the 64-bit bound, but their sum need not be.
-/

namespace FieldArchive

/-- A point of capture. -/
structure Savepoint where
  name : String
  metainfo : Metainfo
  deriving Repr, Inhabited

namespace Savepoint

protected def beq (a b : Savepoint) : Bool := a.name == b.name && a.metainfo == b.metainfo

instance : BEq Savepoint := ⟨Savepoint.beq⟩

/-- What a hash of a savepoint is computed from. -/
def hashInput (s : Savepoint) : String × Nat × List (String × MetaValue) :=
  (s.name, s.metainfo.hashInput)

/-- The text of a savepoint in messages. -/
def display (s : Savepoint) : String := s.name ++ s.metainfo.display

def toJson (s : Savepoint) : Json :=
  .record [("name", .str s.name), ("metainfo", s.metainfo.toJson)]

def ofJson? (j : Json) : Option Savepoint := do
  match ← j.fields? ["name", "metainfo"] with
  | [name, metainfo] =>
      some ⟨← (← name).text?, ← metainfo.elim (some .empty) Metainfo.ofJson?⟩
  | _ => none

end Savepoint

/-- A range of the data file. -/
structure Extent where
  offset : Nat
  length : Nat
  deriving DecidableEq, Repr

namespace Extent

/-- One past the end of an extent, unless that is above 64 bits. -/
def stop? (e : Extent) : Option Nat :=
  if e.offset + e.length < wordBound then some (e.offset + e.length) else none

/-- The text of an extent in messages. -/
def display (e : Extent) : String := Digits.text e.offset ++ "+" ++ Digits.text e.length

end Extent
end FieldArchive

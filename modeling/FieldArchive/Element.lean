/-!
# Elements of a field

The element kinds a field may hold, the precision an archive fixes for its
real fields, and the byte order of its data, each with the name under which it
is written in documents, configurations and messages.
-/

namespace FieldArchive

/-- A name that is none of the names a setting may have. -/
structure UnknownName where
  /-- What the name was read for. -/
  subject : String
  given : String
  /-- The two names that are accepted. -/
  choices : String × String
  deriving DecidableEq, Repr

/-- The text reported for an unknown name. -/
def UnknownName.message (e : UnknownName) : String :=
  "unknown " ++ e.subject ++ " '" ++ e.given ++ "', expected \"" ++ e.choices.1 ++
    "\" or \"" ++ e.choices.2 ++ "\""

/-- The kind of a field's elements. -/
inductive ElementType where
  | int32
  | int64
  | float32
  | float64
  deriving DecidableEq, Repr, Inhabited

/-- The floating point width of all real fields of an archive. -/
inductive Precision where
  | single
  | double
  deriving DecidableEq, Repr, Inhabited

/-- The order of the bytes of one element. -/
inductive Endianness where
  | little
  | big
  deriving DecidableEq, Repr, Inhabited

namespace ElementType

/-- Bytes that one element takes. -/
def byteWidth : ElementType → Nat
  | int32 | float32 => 4
  | int64 | float64 => 8

def isFloating : ElementType → Bool
  | int32 | int64 => false
  | float32 | float64 => true

/-- The real type that a precision selects. -/
def real : Precision → ElementType
  | .single => float32
  | .double => float64

def name : ElementType → String
  | int32 => "int32"
  | int64 => "int64"
  | float32 => "float32"
  | float64 => "float64"

def ofName? : String → Option ElementType
  | "int32" => some int32
  | "int64" => some int64
  | "float32" => some float32
  | "float64" => some float64
  | _ => none

@[simp] theorem ofName?_name (t : ElementType) : ofName? t.name = some t := by
  cases t <;> rfl

end ElementType

namespace Precision

def name : Precision → String
  | single => "single"
  | double => "double"

def ofName? : String → Option Precision
  | "single" => some single
  | "double" => some double
  | _ => none

/-- Read a precision by name. -/
def parse (s : String) : Except UnknownName Precision :=
  match ofName? s with
  | some p => .ok p
  | none => .error ⟨"precision", s, ("single", "double")⟩

@[simp] theorem ofName?_name (p : Precision) : ofName? p.name = some p := by
  cases p <;> rfl

end Precision

namespace Endianness

def name : Endianness → String
  | little => "little"
  | big => "big"

def ofName? : String → Option Endianness
  | "little" => some little
  | "big" => some big
  | _ => none

/-- Read a byte order by name. -/
def parse (s : String) : Except UnknownName Endianness :=
  match ofName? s with
  | some e => .ok e
  | none => .error ⟨"endianness", s, ("little", "big")⟩

@[simp] theorem ofName?_name (e : Endianness) : ofName? e.name = some e := by
  cases e <;> rfl

end Endianness
end FieldArchive

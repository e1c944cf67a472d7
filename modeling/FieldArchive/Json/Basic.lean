import FieldArchive.Number.Digits

/-!
# JSON trees

Documents are JSON text.  A tree keeps what the text says before any type is
asked for: numbers stay numerals, and repeated members of an object all stay.
The escapes of a string may name halves of surrogate pairs that stand alone.
Such a string has no text, which is an error only where its text is needed.
-/

namespace FieldArchive

/-- A number as it is written. -/
structure Numeral where
  negative : Bool
  /-- Digits before the point; `0` starts no longer run. -/
  whole : List Digit
  /-- Digits after the point; empty if there is none. -/
  fraction : List Digit
  /-- The power of ten, if one is written. -/
  exponent : Option Int
  deriving DecidableEq, Repr

/-- A JSON value. -/
inductive Json where
  | null
  | bool (value : Bool)
  | number (numeral : Numeral)
  | string (text : Option String)
  | array (items : List Json)
  | object (members : List (Option String × Json))
  deriving Repr, Inhabited

namespace Json

/-- A string with a text. -/
def str (text : String) : Json := .string (some text)

/-- A natural number. -/
def nat (n : Nat) : Json := .number ⟨false, Digits.ofNat n, [], none⟩

/-- An integer. -/
def int (n : Int) : Json := .number ⟨decide (n < 0), Digits.ofNat n.natAbs, [], none⟩

/-- An object with the given members. -/
def record (members : List (String × Json)) : Json :=
  .object (members.map fun m => (some m.1, m.2))

end Json
end FieldArchive

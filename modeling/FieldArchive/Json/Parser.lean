import FieldArchive.Hex
import FieldArchive.Json.Basic

/-!
# Reading JSON text

`Json.parse` reads one value that fills a text, blanks around it apart.  The
grammar is the strict one: no leading zeros, no bare control characters in
strings, no trailing commas.  The readers return what they read and the rest of
the text.
-/

namespace FieldArchive.Json

/-- The four characters that may stand between tokens. -/
def isBlank (c : Char) : Bool := c == ' ' || c == '\n' || c == '\t' || c == '\r'

/-- A text without the blanks at its start. -/
def skipBlanks (cs : List Char) : List Char := cs.dropWhile isBlank

/-- A piece of a string: a character, or half of a surrogate pair. -/
inductive Piece where
  | scalar (c : Char)
  | surrogate (code : Nat)
  deriving DecidableEq, Repr

/-- The piece that an escaped code unit stands for. -/
def Piece.ofCode (code : Nat) : Piece :=
  if 0xD800 ≤ code ∧ code < 0xE000 then .surrogate code else .scalar (Char.ofNat code)

/-- The character of an escape of two characters. -/
def unescape? : Char → Option Char
  | '"' => some '"'
  | '\\' => some '\\'
  | '/' => some '/'
  | 'b' => some '\x08'
  | 'f' => some '\x0c'
  | 'n' => some '\n'
  | 'r' => some '\r'
  | 't' => some '\t'
  | _ => none

/-- The pieces of a string up to its closing quote. -/
def pieces : List Char → Option (List Piece × List Char)
  | [] => none
  | '"' :: rest => some ([], rest)
  | '\\' :: 'u' :: a :: b :: c :: d :: rest => do
      let code ← [a, b, c, d].mapM Hex.value?
      let (more, rest) ← pieces rest
      some (Piece.ofCode (Hex.toNat code) :: more, rest)
  | '\\' :: c :: rest => do
      let c ← unescape? c
      let (more, rest) ← pieces rest
      some (.scalar c :: more, rest)
  | c :: rest => do
      if c < ' ' || c == '\\' then none
      let (more, rest) ← pieces rest
      some (.scalar c :: more, rest)

/-- The characters that pieces stand for; every half of a surrogate pair needs
its other half. -/
def joinPieces : List Piece → Option (List Char)
  | [] => some []
  | .scalar c :: rest => (joinPieces rest).map (c :: ·)
  | .surrogate high :: .surrogate low :: rest =>
      if high < 0xDC00 ∧ 0xDC00 ≤ low then
        (joinPieces rest).map
          (Char.ofNat (0x10000 + (high - 0xD800) * 0x400 + (low - 0xDC00)) :: ·)
      else none
  | .surrogate _ :: _ => none

/-- A string after its opening quote. -/
def quoted (cs : List Char) : Option (Option String × List Char) := do
  let (ps, rest) ← pieces cs
  some ((joinPieces ps).map String.ofList, rest)

/-- One digit or more. -/
def someDigits (cs : List Char) : Option (List Digit × List Char) :=
  match Digits.span cs with
  | ([], _) => none
  | (digits, rest) => some (digits, rest)

/-- The digits before the point; a leading zero stands alone. -/
def wholePart (cs : List Char) : Option (List Digit × List Char) :=
  match someDigits cs with
  | some (d :: e :: digits, rest) => if d.val = 0 then none else some (d :: e :: digits, rest)
  | other => other

/-- The digits after the point, if there is one. -/
def fractionPart : List Char → Option (List Digit × List Char)
  | '.' :: rest => someDigits rest
  | rest => some ([], rest)

/-- An exponent after its mark. -/
def signedExponent : List Char → Option (Int × List Char)
  | '+' :: rest => (someDigits rest).map fun (ds, rest) => ((Digits.toNat ds : Int), rest)
  | '-' :: rest => (someDigits rest).map fun (ds, rest) => (-(Digits.toNat ds : Int), rest)
  | rest => (someDigits rest).map fun (ds, rest) => ((Digits.toNat ds : Int), rest)

/-- The exponent, if there is one. -/
def exponentPart : List Char → Option (Option Int × List Char)
  | 'e' :: rest => (signedExponent rest).map fun (e, rest) => (some e, rest)
  | 'E' :: rest => (signedExponent rest).map fun (e, rest) => (some e, rest)
  | rest => some (none, rest)

/-- A numeral after its sign. -/
def unsignedNumeral (negative : Bool) (cs : List Char) : Option (Numeral × List Char) := do
  let (whole, cs) ← wholePart cs
  let (fraction, cs) ← fractionPart cs
  let (exponent, cs) ← exponentPart cs
  some (⟨negative, whole, fraction, exponent⟩, cs)

/-- A numeral. -/
def numeral : List Char → Option (Numeral × List Char)
  | '-' :: rest => unsignedNumeral true rest
  | cs => unsignedNumeral false cs

mutual

/-- One value.  Every step takes fuel; twice the length of the text is enough. -/
def value : (fuel : Nat) → List Char → Option (Json × List Char)
  | 0, _ => none
  | fuel + 1, cs =>
      match skipBlanks cs with
      | 'n' :: 'u' :: 'l' :: 'l' :: rest => some (.null, rest)
      | 't' :: 'r' :: 'u' :: 'e' :: rest => some (.bool true, rest)
      | 'f' :: 'a' :: 'l' :: 's' :: 'e' :: rest => some (.bool false, rest)
      | '"' :: rest => (quoted rest).map fun (t, rest) => (.string t, rest)
      | '[' :: rest =>
          match skipBlanks rest with
          | ']' :: rest => some (.array [], rest)
          | rest => (items fuel rest).map fun (xs, rest) => (.array xs, rest)
      | '\x7b' :: rest =>
          match skipBlanks rest with
          | '\x7d' :: rest => some (.object [], rest)
          | rest => (members fuel rest).map fun (xs, rest) => (.object xs, rest)
      | rest => (numeral rest).map fun (n, rest) => (.number n, rest)

/-- The items of an array up to its closing bracket. -/
def items : (fuel : Nat) → List Char → Option (List Json × List Char)
  | 0, _ => none
  | fuel + 1, cs => do
      let (x, cs) ← value fuel cs
      match skipBlanks cs with
      | ',' :: rest => (items fuel rest).map fun (xs, rest) => (x :: xs, rest)
      | ']' :: rest => some ([x], rest)
      | _ => none

/-- The members of an object up to its closing bracket. -/
def members : (fuel : Nat) → List Char → Option (List (Option String × Json) × List Char)
  | 0, _ => none
  | fuel + 1, cs =>
      match skipBlanks cs with
      | '"' :: cs => do
          let (key, cs) ← quoted cs
          match skipBlanks cs with
          | ':' :: cs => do
              let (x, cs) ← value fuel cs
              match skipBlanks cs with
              | ',' :: rest => (members fuel rest).map fun (xs, rest) => ((key, x) :: xs, rest)
              | '\x7d' :: rest => some ([(key, x)], rest)
              | _ => none
          | _ => none
      | _ => none

end

/-- The value that a text consists of. -/
def parse (text : String) : Option Json := do
  let cs := text.toList
  let (j, rest) ← value (2 * cs.length + 2) cs
  if (skipBlanks rest).isEmpty then some j else none

end FieldArchive.Json

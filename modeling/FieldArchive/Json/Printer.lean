import FieldArchive.Hex
import FieldArchive.Json.Basic

/-!
# JSON text

A tree is written either without blanks or, for files that people read, with
one item to a line and two blanks for each level.  The style says only which
blanks stand between the tokens.
-/

namespace FieldArchive.Json

/-- The blanks between the tokens of a text. -/
structure Style where
  /-- Before an item and before a closing bracket, by level. -/
  lineBreak : Nat → List Char
  /-- After the colon of a member. -/
  afterColon : List Char

/-- No blanks. -/
def Style.compact : Style := ⟨fun _ => [], []⟩

/-- A line for each item, indented by two blanks a level. -/
def Style.pretty : Style := ⟨fun level => '\n' :: List.replicate (2 * level) ' ', [' ']⟩

/-- A character inside quotes. -/
def escape (c : Char) : List Char :=
  match c with
  | '"' => ['\\', '"']
  | '\\' => ['\\', '\\']
  | '\x08' => ['\\', 'b']
  | '\t' => ['\\', 't']
  | '\n' => ['\\', 'n']
  | '\x0c' => ['\\', 'f']
  | '\r' => ['\\', 'r']
  | c =>
      if c < ' ' then '\\' :: 'u' :: (Hex.digitsOf 4 c.toNat).map Hex.digit
      else [c]

/-- A string in quotes.  One without a text is written as half a surrogate
pair. -/
def quote : Option String → List Char
  | some text => '"' :: text.toList.flatMap escape ++ ['"']
  | none => '"' :: '\\' :: 'u' :: 'd' :: '8' :: '0' :: '0' :: ['"']

end FieldArchive.Json

namespace FieldArchive.Numeral

/-- A numeral as it is written; an exponent always has a sign. -/
def chars (n : Numeral) : List Char :=
  (if n.negative then ['-'] else []) ++ Digits.chars n.whole ++
    (if n.fraction.isEmpty then [] else '.' :: Digits.chars n.fraction) ++
    match n.exponent with
    | none => []
    | some e => 'e' :: (if e < 0 then '-' else '+') :: Digits.chars (Digits.ofNat e.natAbs)

end FieldArchive.Numeral

namespace FieldArchive.Json

mutual

/-- The text of a value that stands at `level`. -/
def render (style : Style) (level : Nat) : Json → List Char
  | .null => "null".toList
  | .bool true => "true".toList
  | .bool false => "false".toList
  | .number n => n.chars
  | .string t => quote t
  | .array [] => ['[', ']']
  | .array (item :: items) =>
      '[' :: style.lineBreak (level + 1) ++ render style (level + 1) item ++
        renderItems style (level + 1) items ++ style.lineBreak level ++ [']']
  | .object [] => ['\x7b', '\x7d']
  | .object ((key, value) :: members) =>
      '\x7b' :: style.lineBreak (level + 1) ++ quote key ++ ':' :: style.afterColon ++
        render style (level + 1) value ++ renderMembers style (level + 1) members ++
        style.lineBreak level ++ ['\x7d']

/-- Further items of an array. -/
def renderItems (style : Style) (level : Nat) : List Json → List Char
  | [] => []
  | item :: items =>
      ',' :: style.lineBreak level ++ render style level item ++ renderItems style level items

/-- Further members of an object. -/
def renderMembers (style : Style) (level : Nat) : List (Option String × Json) → List Char
  | [] => []
  | (key, value) :: members =>
      ',' :: style.lineBreak level ++ quote key ++ ':' :: style.afterColon ++
        render style level value ++ renderMembers style level members

end

/-- Text without blanks. -/
def compact (j : Json) : String := String.ofList (render .compact 0 j)

/-- Text with a line for each item. -/
def pretty (j : Json) : String := String.ofList (render .pretty 0 j)

end FieldArchive.Json

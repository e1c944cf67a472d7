import FieldArchive.Toml.Basic
import FieldArchive.Toml.Scalar
import FieldArchive.Toml.Text

/-!
# Reading TOML text

A text is a sequence of lines: headers, keys with values, comments and blanks.
Values in brackets may span lines.  Everything takes fuel, for which the length
of the text is enough, and values nest to a fixed depth only.
-/

namespace FieldArchive.Toml

/-- A text without the blanks at its start. -/
def skipBlanks (cs : List Char) : List Char := cs.dropWhile fun c => c == ' ' || c == '\t'

/-- What follows a comment, if one starts here. -/
def skipComment : List Char → Option (List Char)
  | '#' :: rest =>
      let body := rest.takeWhile fun c => c != '\n'
      let next := rest.drop body.length
      -- A carriage return ends a line only together with a line feed.
      let body := if next.isEmpty || body.getLast? != some '\r' then body else body.dropLast
      if body.any isControl then none else some next
  | cs => some cs

/-- What follows the line break that must stand here; a text may also end. -/
def endLine (cs : List Char) : Option (List Char) :=
  match cs with
  | [] => some []
  | '\n' :: rest => some rest
  | '\r' :: '\n' :: rest => some rest
  | _ => none

/-- Skip blanks, comments and line breaks inside brackets. -/
def skipLines : (fuel : Nat) → List Char → Option (List Char)
  | 0, _ => none
  | fuel + 1, cs =>
      match skipBlanks cs with
      | '#' :: rest => do skipLines fuel (← skipComment ('#' :: rest))
      | '\n' :: rest => skipLines fuel rest
      | '\r' :: '\n' :: rest => skipLines fuel rest
      | rest => some rest

/-- Characters of a key without quotes. -/
def isBare (c : Char) : Bool := c.isAlphanum || c == '_' || c == '-'

/-- One part of a key. -/
def keyPart (cs : List Char) : Option (String × List Char) :=
  match cs with
  | '"' :: _ | '\'' :: _ => (quotedLine cs).map fun (key, rest) => (String.ofList key, rest)
  | _ =>
      let key := cs.takeWhile isBare
      if key.isEmpty then none else some (String.ofList key, cs.drop key.length)

/-- The parts of a key, with dots between them. -/
def keyPath : (fuel : Nat) → List Char → Option (List String × List Char)
  | 0, _ => none
  | fuel + 1, cs => do
      let (part, rest) ← keyPart (skipBlanks cs)
      match skipBlanks rest with
      | '.' :: rest => (keyPath fuel rest).map fun (parts, rest) => (part :: parts, rest)
      | rest => some ([part], rest)

/-- The depth to which values nest, and the number of parts of a key. -/
def maxDepth : Nat := 79

/-- A key of a bounded number of parts. -/
def boundedKey (cs : List Char) : Option (List String × List Char) := do
  let (path, rest) ← keyPath (cs.length + 1) cs
  if path.length ≤ maxDepth then some (path, rest) else none

/-- The characters of a word. -/
def isWordChar (c : Char) : Bool :=
  c.isAlphanum || c == '_' || c == '+' || c == '-' || c == '.' || c == ':'

/-- A value that is a word; a blank may stand between a date and a time. -/
def word (cs : List Char) : Option (Toml × List Char) :=
  let first := cs.takeWhile isWordChar
  let rest := cs.drop first.length
  let (token, rest) :=
    match rest with
    | ' ' :: c :: more =>
        if isDate first && c.isDigit then
          let second := (c :: more).takeWhile isWordChar
          (first ++ ' ' :: second, (c :: more).drop second.length)
        else (first, rest)
    | _ => (first, rest)
  if token == "true".toList then some (.boolean true, rest)
  else if token == "false".toList then some (.boolean false, rest)
  else if isLiteral token then some (.literal (String.ofList token), rest)
  else none

mutual

/-- One value. -/
def value : (fuel depth : Nat) → List Char → Option (Toml × List Char)
  | 0, _, _ => none
  | fuel + 1, depth, cs =>
      match cs with
      | '"' :: _ | '\'' :: _ => (quoted cs).map fun (s, rest) => (.string (String.ofList s), rest)
      | '[' :: rest =>
          if depth = 0 then none
          else (items fuel (depth - 1) rest).map fun (xs, rest) => (.array xs, rest)
      | '\x7b' :: rest =>
          if depth = 0 then none
          else
            match skipBlanks rest with
            | '\x7d' :: rest => some (.table .inline [], rest)
            | rest =>
                (pairs fuel (depth - 1) [] rest).map fun (es, rest) => (.table .inline es, rest)
      | cs => word cs

/-- The items of an array up to its closing bracket. -/
def items : (fuel depth : Nat) → List Char → Option (List Toml × List Char)
  | 0, _, _ => none
  | fuel + 1, depth, cs => do
      match ← skipLines (cs.length + 1) cs with
      | ']' :: rest => some ([], rest)
      | cs =>
          let (x, rest) ← value fuel depth cs
          match ← skipLines (rest.length + 1) rest with
          | ',' :: rest => (items fuel depth rest).map fun (xs, rest) => (x :: xs, rest)
          | ']' :: rest => some ([x], rest)
          | _ => none

/-- The keys and values of a table in braces up to its closing one. -/
def pairs : (fuel depth : Nat) → Entries → List Char → Option (Entries × List Char)
  | 0, _, _, _ => none
  | fuel + 1, depth, entries, cs => do
      let (path, rest) ← boundedKey cs
      match skipBlanks rest with
      | '=' :: rest =>
          let (x, rest) ← value fuel depth (skipBlanks rest)
          let entries ← assign x .inline false path entries
          match skipBlanks rest with
          | ',' :: rest => pairs fuel depth entries rest
          | '\x7d' :: rest => some (entries, rest)
          | _ => none
      | _ => none

end

/-- The path and the key of a header. -/
def headerOf (parts : List String) : Option (List String × String) :=
  parts.getLast?.map fun key => (parts.dropLast, key)

/-- One line, without the comment and the line break at its end. -/
def statement (cs : List Char) : Option (Option Statement × List Char) :=
  match cs with
  | '[' :: '[' :: rest => do
      let (parts, rest) ← boundedKey rest
      let (path, key) ← headerOf parts
      match rest with
      | ']' :: ']' :: rest => some (some (.nextHeader path key), rest)
      | _ => none
  | '[' :: rest => do
      let (parts, rest) ← boundedKey rest
      let (path, key) ← headerOf parts
      match rest with
      | ']' :: rest => some (some (.header path key), rest)
      | _ => none
  | [] => some (none, [])
  | '#' :: rest => some (none, '#' :: rest)
  | '\n' :: rest => some (none, '\n' :: rest)
  | '\r' :: rest => some (none, '\r' :: rest)
  | cs => do
      let (path, rest) ← boundedKey cs
      match rest with
      | '=' :: rest =>
          let (x, rest) ← value (2 * rest.length + 2) maxDepth (skipBlanks rest)
          some (some (.assign path x), rest)
      | _ => none

/-- The lines of a text. -/
def statements : (fuel : Nat) → List Char → Option (List Statement)
  | 0, _ => none
  | _ + 1, [] => some []
  | fuel + 1, cs => do
      let (s, rest) ← statement (skipBlanks cs)
      let rest ← endLine (← skipComment (skipBlanks rest))
      let more ← statements fuel rest
      some (s.toList ++ more)

/-- The root table of a text; a byte order mark at its start does not count. -/
def parse (text : String) : Option Entries := do
  let cs := match text.toList with
    | '\uFEFF' :: rest => rest
    | cs => cs
  build (← statements (cs.length + 1) cs)

end FieldArchive.Toml

import FieldArchive.Hex

/-!
# Strings in TOML

Strings stand in double quotes with escapes or in single quotes without, on one
line or, between threefold quotes, on several.  A string is written in the
plainest form that can hold it.
-/

namespace FieldArchive.Toml

/-- Characters that no line may hold as they are. -/
def isControl (c : Char) : Bool := (c < ' ' && c != '\t') || c == '\x7f'

/-- The character of an escape of two characters. -/
def unescape? : Char → Option Char
  | 'b' => some '\x08'
  | 't' => some '\t'
  | 'n' => some '\n'
  | 'f' => some '\x0c'
  | 'r' => some '\r'
  | '"' => some '"'
  | '\\' => some '\\'
  | _ => none

/-- The character with a code given by hexadecimal digits. -/
def ofCode? (digits : List Char) : Option Char := do
  let code := Hex.toNat (← digits.mapM Hex.value?)
  if code < 0xD800 ∨ (0xE000 ≤ code ∧ code < 0x110000) then some (Char.ofNat code) else none

/-- An escape after its backslash. -/
def escaped (cs : List Char) : Option (Char × List Char) :=
  match cs with
  | 'u' :: rest =>
      if rest.length < 4 then none else (ofCode? (rest.take 4)).map fun c => (c, rest.drop 4)
  | 'U' :: rest =>
      if rest.length < 8 then none else (ofCode? (rest.take 8)).map fun c => (c, rest.drop 8)
  | c :: rest => (unescape? c).map fun c => (c, rest)
  | [] => none

/-- A string after its opening double quote. -/
def basic : (fuel : Nat) → List Char → Option (List Char × List Char)
  | 0, _ => none
  | _ + 1, '"' :: rest => some ([], rest)
  | fuel + 1, '\\' :: rest => do
      let (c, rest) ← escaped rest
      let (cs, rest) ← basic fuel rest
      some (c :: cs, rest)
  | fuel + 1, c :: rest =>
      if isControl c then none
      else (basic fuel rest).map fun (cs, rest) => (c :: cs, rest)
  | _ + 1, [] => none

/-- A string after its opening single quote. -/
def plain : List Char → Option (List Char × List Char)
  | [] => none
  | '\'' :: rest => some ([], rest)
  | c :: rest =>
      if isControl c then none
      else (plain rest).map fun (cs, rest) => (c :: cs, rest)

/-- A text without the blanks and line breaks at its start. -/
def skipSpace : List Char → List Char
  | '\r' :: '\n' :: rest => skipSpace rest
  | '\n' :: rest => skipSpace rest
  | ' ' :: rest => skipSpace rest
  | '\t' :: rest => skipSpace rest
  | rest => rest

/-- What follows a backslash at the end of a line: the next character that is
neither a blank nor a line break. -/
def afterLineEnd (cs : List Char) : Option (List Char) :=
  match cs.dropWhile fun c => c == ' ' || c == '\t' with
  | '\n' :: rest => some (skipSpace rest)
  | '\r' :: '\n' :: rest => some (skipSpace rest)
  | _ => none

/-- The end of a threefold quoted string: three quotes, before which two more
may belong to the string. -/
def closing? (quote : Char) (cs : List Char) : Option (List Char × List Char) :=
  let run := (cs.takeWhile fun c => c == quote).length
  if run < 3 then none
  else if run ≤ 5 then some (List.replicate (run - 3) quote, cs.drop run)
  else some (List.replicate 2 quote, cs.drop 5)

/-- A string of several lines after its opening quotes. -/
def lines (quote : Char) : (fuel : Nat) → List Char → Option (List Char × List Char)
  | 0, _ => none
  | fuel + 1, cs =>
      match closing? quote cs with
      | some result => some result
      | none =>
          match cs with
          | [] => none
          | '\r' :: '\n' :: rest =>
              (lines quote fuel rest).map fun (cs, rest) => ('\n' :: cs, rest)
          | '\n' :: rest => (lines quote fuel rest).map fun (cs, rest) => ('\n' :: cs, rest)
          | c :: rest =>
              if c == '\\' && quote == '"' then
                match escaped rest with
                | some (c, rest) =>
                    (lines quote fuel rest).map fun (cs, rest) => (c :: cs, rest)
                | none => do lines quote fuel (← afterLineEnd rest)
              else if isControl c then none
              else (lines quote fuel rest).map fun (cs, rest) => (c :: cs, rest)

/-- A string of several lines, without a line break right after the quotes. -/
def multiline (quote : Char) (cs : List Char) : Option (List Char × List Char) :=
  match cs with
  | '\n' :: rest => lines quote (rest.length + 1) rest
  | '\r' :: '\n' :: rest => lines quote (rest.length + 1) rest
  | cs => lines quote (cs.length + 1) cs

/-- A string that may be a key: one line, in quotes. -/
def quotedLine : List Char → Option (List Char × List Char)
  | '"' :: rest => basic (rest.length + 1) rest
  | '\'' :: rest => plain rest
  | _ => none

/-- A string in quotes. -/
def quoted : List Char → Option (List Char × List Char)
  | '"' :: '"' :: '"' :: rest => multiline '"' rest
  | '\'' :: '\'' :: '\'' :: rest => multiline '\'' rest
  | cs => quotedLine cs

/-- A character inside double quotes. -/
def escape (keepLines : Bool) (c : Char) : List Char :=
  match c with
  | '\x08' => ['\\', 'b']
  | '\t' => ['\\', 't']
  | '\n' => if keepLines then ['\n'] else ['\\', 'n']
  | '\x0c' => ['\\', 'f']
  | '\r' => ['\\', 'r']
  | '\\' => ['\\', '\\']
  | c =>
      if isControl c then
        '\\' :: 'u' :: ((Hex.digitsOf 4 c.toNat).map Hex.digit).map Char.toUpper
      else [c]

/-- Characters inside double quotes; after `allowed` quotes in a row the next is
escaped. -/
def escapeAll (keepLines : Bool) (allowed : Nat) : (run : Nat) → List Char → List Char
  | _, [] => []
  | run, c :: rest =>
      if c == '"' then
        if allowed ≤ run then '\\' :: '"' :: escapeAll keepLines allowed 0 rest
        else '"' :: escapeAll keepLines allowed (run + 1) rest
      else escape keepLines c ++ escapeAll keepLines allowed 0 rest

/-- The longest run of a character. -/
def longestRun (quote : Char) : (run : Nat) → List Char → Nat
  | run, [] => run
  | run, c :: rest =>
      if c == quote then longestRun quote (run + 1) rest
      else max run (longestRun quote 0 rest)

/-- A string in quotes: double ones if nothing has to be escaped, else single
ones, else threefold ones, else double ones with escapes. -/
def quote (text : String) : String :=
  let cs := text.toList
  let hasControl := cs.any fun c => isControl c && c != '\n'
  let hasBackslash := cs.contains '\\'
  let hasLines := cs.contains '\n'
  let doubles := longestRun '"' 0 cs
  let singles := longestRun '\'' 0 cs
  let threefold := fun (q : Char) (body : List Char) =>
    String.ofList ([q, q, q] ++ (if hasLines then ['\n'] else []) ++ body ++ [q, q, q])
  if !hasControl && !hasBackslash && doubles == 0 && !hasLines then
    String.ofList ('"' :: escapeAll false 0 0 cs ++ ['"'])
  else if !hasControl && singles == 0 && !hasLines then
    String.ofList ('\'' :: cs ++ ['\''])
  else if !hasControl && !hasBackslash && decide (doubles ≤ 2) then
    threefold '"' (escapeAll true 2 0 cs)
  else if !hasControl && decide (singles ≤ 2) then threefold '\'' cs
  else if hasLines then threefold '"' (escapeAll true 2 0 cs)
  else String.ofList ('"' :: escapeAll false 0 0 cs ++ ['"'])

end FieldArchive.Toml

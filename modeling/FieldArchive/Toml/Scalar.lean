import FieldArchive.Number.Binary
import FieldArchive.Number.Digits

/-!
# Numbers and times in TOML

Values that are neither strings nor in brackets are words.  A word is a
boolean, an integer of 64 bits, a float, a date, a time or both.
-/

namespace FieldArchive.Toml

/-- Digits of a base with single underscores between them. -/
def separated (isDigit : Char → Bool) : List Char → Bool
  | [] => false
  | [c] => isDigit c
  | c :: '_' :: rest => isDigit c && separated isDigit rest
  | c :: rest => isDigit c && separated isDigit rest

/-- The value of a digit of any base up to sixteen. -/
def digitValue (c : Char) : Nat :=
  if c.isDigit then c.toNat - 48
  else if 'a' ≤ c ∧ c ≤ 'f' then c.toNat - 87
  else c.toNat - 55

def isHexDigit (c : Char) : Bool :=
  c.isDigit || ('a' ≤ c && c ≤ 'f') || ('A' ≤ c && c ≤ 'F')

/-- The number that digits of a base stand for, underscores apart. -/
def valueOf (base : Nat) (cs : List Char) : Nat :=
  (cs.filter fun c => c != '_').foldl (fun n c => base * n + digitValue c) 0

/-- A word without its sign, and the sign. -/
def splitSign : List Char → Option Char × List Char
  | '+' :: rest => (some '+', rest)
  | '-' :: rest => (some '-', rest)
  | cs => (none, cs)

/-- Decimal digits without a superfluous zero at the start. -/
def isDecimal (cs : List Char) : Bool :=
  separated Char.isDigit cs && (cs.head? != some '0' || cs.length == 1)

/-- Integers of 64 bits with a sign stay below this bound. -/
def integerBound : Nat := 0x8000000000000000

/-- An integer within 64 bits. -/
def isInteger (cs : List Char) : Bool :=
  match cs with
  | '0' :: 'x' :: rest => separated isHexDigit rest && decide (valueOf 16 rest < integerBound)
  | '0' :: 'o' :: rest =>
      separated (fun c => '0' ≤ c && c ≤ '7') rest && decide (valueOf 8 rest < integerBound)
  | '0' :: 'b' :: rest =>
      separated (fun c => c == '0' || c == '1') rest && decide (valueOf 2 rest < integerBound)
  | _ =>
      let (sign, digits) := splitSign cs
      isDecimal digits &&
        decide (valueOf 10 digits < if sign = some '-' then integerBound + 1 else integerBound)

/-- Split at the first character with a property, which is dropped. -/
def splitAtFirst (p : Char → Bool) (cs : List Char) : List Char × Option (List Char) :=
  match cs.dropWhile fun c => !p c with
  | [] => (cs, none)
  | _ :: rest => (cs.takeWhile fun c => !p c, some rest)

/-- True if `digits * 10 ^ exponent` is below what rounds to infinity. -/
def isFiniteDecimal (digits : List Char) (exponent : Int) : Bool :=
  let significant := digits.dropWhile fun c => c == '0'
  let order : Int := significant.length + exponent
  if significant.isEmpty || decide (order < 300) then true
  else if 320 < order then false
  else
    let n := valueOf 10 significant
    let pattern :=
      if exponent < 0 then Format.double.ofRatio n (Digits.powerOfTen exponent.natAbs)
      else Format.double.ofRatio (n * Digits.powerOfTen exponent.natAbs) 1
    decide (pattern < Format.double.infinity)

/-- A float; a positive one must be finite unless it is written as infinite. -/
def isFloat (cs : List Char) : Bool :=
  let (sign, digits) := splitSign cs
  if digits == ['i', 'n', 'f'] || digits == ['n', 'a', 'n'] then true
  else
    let (mantissa, exponent) := splitAtFirst (fun c => c == 'e' || c == 'E') digits
    let (whole, fraction) := splitAtFirst (fun c => c == '.') mantissa
    let exponentDigits := exponent.map fun e => splitSign e
    (exponent.isSome || fraction.isSome) && isDecimal whole &&
      (fraction.elim true (separated Char.isDigit)) &&
      (exponentDigits.elim true fun e => separated Char.isDigit e.2) &&
      (sign == some '-' ||
        let plain := fun (part : List Char) => part.filter fun c => c != '_'
        let places := plain (fraction.getD [])
        let power : Int := exponentDigits.elim 0 fun e =>
          if e.1 = some '-' then -(valueOf 10 e.2 : Int) else valueOf 10 e.2
        isFiniteDecimal (plain whole ++ places) (power - places.length))

/-- A number of exactly two digits in a range. -/
def isTwoDigits (first last : Nat) (cs : List Char) : Bool :=
  cs.length == 2 && cs.all Char.isDigit &&
    decide (first ≤ valueOf 10 cs ∧ valueOf 10 cs ≤ last)

/-- Days of a month. -/
def daysOf (year month : Nat) : Nat :=
  if month = 2 then
    if year % 4 = 0 ∧ (year % 100 ≠ 0 ∨ year % 400 = 0) then 29 else 28
  else if month = 4 ∨ month = 6 ∨ month = 9 ∨ month = 11 then 30
  else 31

/-- A date such as `1979-05-27`. -/
def isDate (cs : List Char) : Bool :=
  let year := cs.take 4
  let month := (cs.drop 5).take 2
  let day := cs.drop 8
  year.length == 4 && year.all Char.isDigit && cs[4]? == some '-' && cs[7]? == some '-' &&
    isTwoDigits 1 12 month &&
    isTwoDigits 1 (daysOf (valueOf 10 year) (valueOf 10 month)) day

/-- A time of day such as `07:32:00.5`. -/
def isTime (cs : List Char) : Bool :=
  isTwoDigits 0 23 (cs.take 2) && cs[2]? == some ':' &&
    isTwoDigits 0 59 ((cs.drop 3).take 2) && cs[5]? == some ':' &&
    isTwoDigits 0 60 ((cs.drop 6).take 2) &&
    match cs.drop 8 with
    | [] => true
    | '.' :: rest => !rest.isEmpty && rest.all Char.isDigit
    | _ => false

/-- An offset from universal time such as `Z` or `-07:00`. -/
def isZone : List Char → Bool
  | ['Z'] | ['z'] => true
  | c :: rest =>
      (c == '+' || c == '-') && isTwoDigits 0 23 (rest.take 2) && rest[2]? == some ':' &&
        isTwoDigits 0 59 (rest.drop 3)
  | [] => false

/-- A time of day with or without an offset. -/
def isZonedTime (cs : List Char) : Bool :=
  let time := cs.takeWhile fun c => c.isDigit || c == ':' || c == '.'
  let zone := cs.drop time.length
  isTime time && (zone.isEmpty || isZone zone)

/-- A date, a time of day, or a date and a time. -/
def isDateTime (cs : List Char) : Bool :=
  isDate cs || isTime cs ||
    (isDate (cs.take 10) &&
      match cs.drop 10 with
      | c :: rest => (c == 'T' || c == 't' || c == ' ') && isZonedTime rest
      | [] => false)

/-- A number or a time. -/
def isLiteral (cs : List Char) : Bool := isInteger cs || isFloat cs || isDateTime cs

end FieldArchive.Toml

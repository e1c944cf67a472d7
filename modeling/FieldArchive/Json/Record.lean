import FieldArchive.Json.Basic

/-!
# Records in JSON

A record is an object whose members stand in any order, or an array of its
members in their order.  Unknown members of an object are passed over, whatever
they hold; a known one must not come twice.  A member that is missing is an
error unless the record has a default for it, which its reader decides.
-/

namespace FieldArchive.Json

/-- The text of a string. -/
def text? : Json → Option String
  | .string t => t
  | _ => none

def bool? : Json → Option Bool
  | .bool b => some b
  | _ => none

/-- The items of an array, each read in the same way. -/
def list? {α : Type} (item? : Json → Option α) : Json → Option (List α)
  | .array items => items.mapM item?
  | _ => none

/-- The values under a key, in order. -/
def valuesOf (key : String) (members : List (Option String × Json)) : List Json :=
  (members.filter fun m => m.1 == some key).map Prod.snd

/-- The value under a key, `none` if there is none; two are an error. -/
def single? (key : String) (members : List (Option String × Json)) : Option (Option Json) :=
  match valuesOf key members with
  | [] => some none
  | [j] => some (some j)
  | _ => none

/-- The members of a record with the given names, each if it is present. -/
def fields? (names : List String) : Json → Option (List (Option Json))
  | .object members => do
      if members.any fun m => m.1.isNone then none
      names.mapM fun name => single? name members
  | .array items =>
      if items.length ≤ names.length then
        some (items.map some ++ List.replicate (names.length - items.length) none)
      else none
  | _ => none

/-- A name out of a fixed set: a string, or an object that maps it to null. -/
def choice? {α : Type} (ofName? : String → Option α) : Json → Option α
  | .string (some name) => ofName? name
  | .object [(some name, .null)] => ofName? name
  | _ => none

end FieldArchive.Json

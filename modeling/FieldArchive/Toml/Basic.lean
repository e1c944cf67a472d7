/-!
# TOML documents

A document is a tree of tables.  How a table came to be decides what may still
be added to it, so every table carries its origin.  Numbers and times are only
checked and keep their text, because no setting has one as its value.
-/

namespace FieldArchive

/-- How a table came to be. -/
inductive Toml.Origin where
  /-- By a header of its own, or as the root. -/
  | header
  /-- On the way to a table with a header. -/
  | implied
  /-- On the way to a key with dots. -/
  | dotted
  /-- As a value in braces. -/
  | inline
  deriving DecidableEq, Repr

/-- A value. -/
inductive Toml where
  | string (text : String)
  | boolean (value : Bool)
  /-- A number or a time. -/
  | literal (text : String)
  | array (items : List Toml)
  | table (origin : Toml.Origin) (entries : List (String × Toml))
  /-- Tables that share a header in double brackets; the last comes first. -/
  | tables (latest : List (String × Toml)) (earlier : List (List (String × Toml)))
  deriving Repr, Inhabited

namespace Toml

/-- The entries of a table. -/
abbrev Entries := List (String × Toml)

/-- The value under a key. -/
def get? (entries : Entries) (key : String) : Option Toml :=
  (entries.find? fun e => e.1 == key).map Prod.snd

/-- Put a value under a key, in place of one that is there. -/
def put (key : String) (value : Toml) : Entries → Entries
  | [] => [(key, value)]
  | (k, v) :: rest => if k == key then (k, value) :: rest else (k, v) :: put key value rest

/-- Add a value under a new key. -/
def add? (entries : Entries) (key : String) (value : Toml) : Option Entries :=
  if (get? entries key).isSome then none else some (entries ++ [(key, value)])

/-- Change the table that a header's path leads to; tables on the way are made
where there are none. -/
def atHeader (f : Entries → Option Entries) : List String → Entries → Option Entries
  | [], entries => f entries
  | key :: path, entries =>
      match get? entries key with
      | none => (atHeader f path []).map fun inner => put key (.table .implied inner) entries
      | some (.table .inline _) => none
      | some (.table origin inner) =>
          (atHeader f path inner).map fun inner => put key (.table origin inner) entries
      | some (.tables latest earlier) =>
          (atHeader f path latest).map fun inner => put key (.tables inner earlier) entries
      | some _ => none

/-- Open the table with a header, which must not have had one. -/
def openTable (path : List String) (key : String) : Entries → Option Entries :=
  atHeader (fun entries =>
    match get? entries key with
    | none => some (entries ++ [(key, .table .header [])])
    | some (.table .implied inner) => some (put key (.table .header inner) entries)
    | some _ => none) path

/-- Open one more of the tables that share a header. -/
def openNext (path : List String) (key : String) : Entries → Option Entries :=
  atHeader (fun entries =>
    match get? entries key with
    | none => some (entries ++ [(key, .tables [] [])])
    | some (.tables latest earlier) => some (put key (.tables [] (latest :: earlier)) entries)
    | some _ => none) path

/-- Add a value under a key with dots.  `nested` says that the table at hand was
reached by a part of the key, and then it must have been made that way. -/
def assign (value : Toml) (origin : Origin) (nested : Bool) :
    List String → Entries → Option Entries
  | [], _ => none
  | [key], entries =>
      if nested && decide (origin ≠ .dotted) then none else add? entries key value
  | key :: path, entries =>
      match get? entries key with
      | none =>
          (assign value .dotted true path []).map fun inner =>
            entries ++ [(key, .table .dotted inner)]
      | some (.table .dotted inner) =>
          (assign value .dotted true path inner).map fun inner =>
            put key (.table .dotted inner) entries
      | some (.table .implied inner) =>
          (assign value .implied true path inner).map fun inner =>
            put key (.table .implied inner) entries
      | some (.tables latest earlier) =>
          (assign value .header true path latest).map fun inner =>
            put key (.tables inner earlier) entries
      | some _ => none

/-- One line of a document. -/
inductive Statement where
  | header (path : List String) (key : String)
  | nextHeader (path : List String) (key : String)
  | assign (path : List String) (value : Toml)
  deriving Repr

/-- The document so far, and the path of the table that keys go to. -/
structure Builder where
  root : Entries
  current : List String
  deriving Repr

/-- Carry out one line. -/
def Builder.step (b : Builder) : Statement → Option Builder
  | .header path key =>
      (openTable path key b.root).map fun root => ⟨root, path ++ [key]⟩
  | .nextHeader path key =>
      (openNext path key b.root).map fun root => ⟨root, path ++ [key]⟩
  | .assign path value =>
      (atHeader (assign value .header false path) b.current b.root).map fun root =>
        { b with root := root }

/-- The root table that the lines describe. -/
def build (statements : List Statement) : Option Entries :=
  (statements.foldlM Builder.step ⟨[], []⟩).map Builder.root

end Toml
end FieldArchive

import PortableSql.Number.Binary
import PortableSql.Table

/-!
TOML documents as trees, and how the statements of a document build its tree. A table remembers what
brought it about, because that decides what may be added to it later: a table that only lies on the way
to another one may still get a header, one that dotted keys made grows by dotted keys alone, and one
that was written in braces is closed.
-/
namespace PortableSql.Toml

open Number

/-- What brought a table about. -/
inductive Origin
  /-- A header of its own. -/
  | header
  /-- The header of a table inside it. -/
  | implied
  /-- A dotted key. -/
  | dotted
  /-- A pair of braces. -/
  | braces
  deriving DecidableEq, Repr

/-- A value. Tables keep their entries in ascending order of the keys. -/
inductive Value
  | string (s : String)
  | integer (n : Int)
  | float (x : Double)
  | boolean (b : Bool)
  /-- A date, a time of day or both, as written. -/
  | dateTime (text : String)
  | array (items : List Value)
  | table (origin : Origin) (entries : List (String × Value))
  /-- The tables of an array that headers make, one after the other: there is always a last one. -/
  | tables (earlier : List (List (String × Value))) (last : List (String × Value))
  deriving Repr

abbrev Entries := List (String × Value)

/-- A dotted key: the tables on the way, and the key inside the last of them. -/
structure Key where
  path : List String
  name : String
  deriving DecidableEq, Repr

/-- Changes the table at the end of a path of keys, which starts at a table of some origin. Tables that
are missing on the way are made. Headers pass through every table that is not closed, dotted keys only
through those that have no header; the way through an array of tables goes to the last one. -/
def changeAt (way : Origin) (change : Origin → Entries → Option Entries) (origin : Origin)
    (entries : Entries) : List String → Option Entries
  | [] => change origin entries
  | key :: path =>
    let next : Option Value :=
      match Table.findEntry key entries with
      | none => (changeAt way change way [] path).map (.table way)
      | some (.table .braces _) => none
      | some (.table inner below) =>
        if way = .dotted ∧ inner = .header then none
        else (changeAt way change inner below path).map (.table inner)
      | some (.tables earlier last) =>
        (changeAt way change .header last path).map (.tables earlier)
      | some _ => none
    next.map fun value => Table.insertEntry key value entries

/-- Adds a value under a dotted key. The table that the key leads to must have been made by dotted keys,
and nothing may be there yet. -/
def addValue (key : Key) (value : Value) (origin : Origin) (entries : Entries) : Option Entries :=
  changeAt .dotted
    (fun reached entries =>
      if key.path ≠ [] ∧ reached ≠ .dotted then none
      else if (Table.findEntry key.name entries).isSome then none
      else some (Table.insertEntry key.name value entries))
    origin entries key.path

/-- Opens the table that a header names. It must be new, or implied by the headers before. -/
def openTable (key : Key) (entries : Entries) : Option Entries :=
  changeAt .implied
    (fun _ entries =>
      match Table.findEntry key.name entries with
      | none => some (Table.insertEntry key.name (.table .header []) entries)
      | some (.table .implied below) =>
        some (Table.insertEntry key.name (.table .header below) entries)
      | some _ => none)
    .header entries key.path

/-- Adds a table to the array of tables that a header names. -/
def openElement (key : Key) (entries : Entries) : Option Entries :=
  changeAt .implied
    (fun _ entries =>
      match Table.findEntry key.name entries with
      | none => some (Table.insertEntry key.name (.tables [] []) entries)
      | some (.tables earlier last) =>
        some (Table.insertEntry key.name (.tables (earlier ++ [last]) []) entries)
      | some _ => none)
    .header entries key.path

/-- One statement of a document. -/
inductive Statement
  | table (key : Key)
  | element (key : Key)
  | value (key : Key) (value : Value)

/-- A document under construction: its entries, and the path of the header that values are under. -/
structure Draft where
  entries : Entries
  header : List String

namespace Draft

def empty : Draft := ⟨[], []⟩

/-- Carries out one statement. -/
def add (draft : Draft) : Statement → Option Draft
  | .table key => (openTable key draft.entries).map fun entries => ⟨entries, key.path ++ [key.name]⟩
  | .element key =>
    (openElement key draft.entries).map fun entries => ⟨entries, key.path ++ [key.name]⟩
  | .value key value =>
    (changeAt .implied (addValue key value) .header draft.entries draft.header).map fun entries =>
      { draft with entries := entries }

end Draft

end PortableSql.Toml

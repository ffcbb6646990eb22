import Modulation.Config.Value

set_option autoImplicit false

/-! # Tables under construction

A configuration text builds its tables piece by piece: a header opens a table, dotted keys reach
into tables below it, and a table may be opened after one of its own subtables. A `Draft` remembers
how each table came about, since that decides what may still be added:

* a table may be opened by a header once, and only if no dotted key has made it;
* a dotted key may enter tables that dotted keys have made, and pass through tables that only the
  paths of headers have mentioned, but not through tables that a header has opened;
* a value is never entered, and no key is given twice.

A table stands where it was first mentioned, except that opening a table which was only mentioned in
the paths of headers moves it behind its siblings. -/

namespace Modulation.Toml

open Modulation.Config

/-- How a table came about. -/
inductive Origin where
  /-- It was opened by a header of its own. -/
  | header
  /-- It was mentioned in the path of a header. -/
  | path
  /-- It was made by a dotted key. -/
  | dotted
  deriving DecidableEq

/-- A value under construction. -/
inductive Draft where
  | value (v : Value Float)
  | table (origin : Origin) (entries : List (String × Draft))
  | tables (items : List (List (String × Draft)))

namespace Draft

mutual

/-- The finished value. -/
def toValue : Draft → Value Float
  | value v => v
  | table _ entries => .table (toSection entries)
  | tables items => .list (toTables items)

/-- The finished section. -/
def toSection : List (String × Draft) → Section Float
  | [] => []
  | (key, draft) :: rest => (key, draft.toValue) :: toSection rest

/-- The finished tables of a list. -/
def toTables : List (List (String × Draft)) → List (Value Float)
  | [] => []
  | entries :: rest => .table (toSection entries) :: toTables rest

end

/-- A change of the table that a path leads to, given how that table came about. -/
abbrev Change := Origin → Entries Draft → Option (Entries Draft)

/-- Follows a path from a table, which itself came about by `origin`, and changes the table it leads
    to. Missing tables are made on the way; among several tables under one name the path goes
    through the last. -/
def within (byKey : Bool) (change : Change) :
    (origin : Origin) → (path : List String) → Entries Draft → Option (Entries Draft)
  | origin, [], entries => change origin entries
  | _, key :: path, entries =>
    match entries.get? key with
    | none =>
      let origin := if byKey then .dotted else .path
      (within byKey change origin path []).map fun inner => entries.set key (.table origin inner)
    | some (.value _) => none
    | some (.table origin inner) =>
      if byKey ∧ origin = .header then none
      else
        (within byKey change origin path inner).map fun inner =>
          entries.set key (.table origin inner)
    | some (.tables items) =>
      match items.getLast? with
      | none => none
      | some last =>
        (within byKey change .header path last).map fun inner =>
          entries.set key (.tables (items.dropLast ++ [inner]))

/-- A key with the keys that lead to it, and its value. -/
structure Assignment where
  path : List String
  key : String
  value : Value Float

/-- Enters a value. A table that a dotted key reaches must have been made by dotted keys. -/
def assign (entries : Entries Draft) (assignment : Assignment) : Option (Entries Draft) :=
  within true (fun origin table =>
    if (!assignment.path.isEmpty && origin != .dotted) || table.has assignment.key then none
    else some (table.set assignment.key (.value assignment.value))) .header assignment.path entries

/-- Enters values in turn. -/
def assignAll (entries : Entries Draft) (assignments : List Assignment) : Option (Entries Draft) :=
  assignments.foldlM assign entries

/-- Opens the table under a key of a table and enters values. -/
def openTable (key : String) (assignments : List Assignment) : Change := fun _ table =>
  match table.get? key with
  | none => (assignAll [] assignments).map fun inner => table.set key (.table .header inner)
  | some (.table .path inner) =>
    (assignAll inner assignments).map fun inner => (table.erase key).set key (.table .header inner)
  | some _ => none

/-- Adds a table to the list of tables under a key of a table and enters values. -/
def addTable (key : String) (assignments : List Assignment) : Change := fun _ table =>
  match table.get? key with
  | none => (assignAll [] assignments).map fun inner => table.set key (.tables [inner])
  | some (.tables items) =>
    (assignAll [] assignments).map fun inner => table.set key (.tables (items ++ [inner]))
  | some _ => none

end Draft

end Modulation.Toml

import Modulation.Toml.MomentTable
import Modulation.Toml.Term

set_option autoImplicit false

/-! # Reading configuration text

A text is a sequence of blocks: the assignments before the first header, and then each header with
the assignments that follow it. Blocks are added to the root table in turn; a text that breaks a
rule of the notation, or of `Draft`, is refused as a whole.

`tables?` reads what is written; `parse` also gives the tables that stand for dates and times their
meaning. -/

namespace Modulation.Toml

open Modulation.Config

/-- A line that says something. -/
inductive Statement where
  | assignment (assignment : Draft.Assignment)
  /-- A header for a table of its own. -/
  | tableHeader (path : List String) (key : String)
  /-- A header for one more table in a list. -/
  | itemHeader (path : List String) (key : String)

/-- Reads a header after its first bracket. -/
def header? : Scan Statement
  | '[' :: text => do
    let ((path, key), rest) ← key? text
    let rest ← word? [']', ']'] rest
    some (.itemHeader path key, rest)
  | text => do
    let ((path, key), rest) ← key? text
    let rest ← word? [']'] rest
    some (.tableHeader path key, rest)

/-- Reads a header or an assignment. -/
def statement? : Scan Statement
  | '[' :: rest => header? rest
  | text =>
    (assignment? (value? (depthLimit - 1)) text).map fun (assignment, rest) =>
      (.assignment assignment, rest)

/-- Reads the statements of a text, each on a line of its own. -/
def statements : (fuel : Nat) → List Char → Option (List Statement)
  | 0, _ => none
  | fuel + 1, text =>
    match skipBlanks text with
    | [] => some []
    | '#' :: rest => do statements fuel (← lineEnd? ('#' :: rest))
    | '\n' :: rest => statements fuel rest
    | '\r' :: rest => do statements fuel (← newline? ('\r' :: rest))
    | text => do
      let (statement, rest) ← statement? text
      let following ← statements fuel (← lineEnd? rest)
      some (statement :: following)

/-- The assignments before the next header, and the statements from there on. -/
def block : List Statement → List Draft.Assignment × List Statement
  | .assignment a :: rest => let (assignments, rest) := block rest; (a :: assignments, rest)
  | rest => ([], rest)

/-- Adds the blocks of the headers that follow to the root table. -/
def addBlocks : (fuel : Nat) → Entries Draft → List Statement → Option (Entries Draft)
  | 0, _, _ => none
  | fuel + 1, root, statements =>
    match statements with
    | [] => some root
    | .tableHeader path key :: rest => do
      let (assignments, rest) := block rest
      let root ← Draft.within false (Draft.openTable key assignments) .header path root
      addBlocks fuel root rest
    | .itemHeader path key :: rest => do
      let (assignments, rest) := block rest
      let root ← Draft.within false (Draft.addTable key assignments) .header path root
      addBlocks fuel root rest
    | .assignment _ :: _ => none

/-- A text without the mark of its byte order. -/
def skipMark : List Char → List Char
  | c :: rest => if c = '\uFEFF' then rest else c :: rest
  | [] => []

/-- Reads the tables of a configuration text as they are written. -/
def tables? (text : String) : Option (Section Float) := do
  let chars := skipMark text.toList
  let (assignments, rest) := block (← statements (chars.length + 1) chars)
  let root ← Draft.assignAll [] assignments
  let root ← addBlocks (rest.length + 1) root rest
  some (Draft.toSection root)

/-- Reads a configuration text. The root table stands for itself, whatever its first key is. -/
def parse (text : String) : Option (Section Float) :=
  (tables? text).bind entriesWithMoments?

end Modulation.Toml

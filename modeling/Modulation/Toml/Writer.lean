import Modulation.Config.Layout
import Modulation.Decimal.Layout
import Modulation.Toml.Spelling

set_option autoImplicit false

/-! # Writing configuration text

A section is written as blocks: its own plain values on lines, then a block under a header for each
table below it, depth first. A table whose values are all tables needs no header, and a list that
holds tables only is written as one block for each. Tables in other lists stand in braces. -/

namespace Modulation.Toml

open Modulation.Config

/-- Floats are written with all their digits and a point. -/
def floatLayout : Decimal.Layout where
  positional := none
  keepsPoint := true
  tie := .up
  nan := "nan"
  infinite := "inf"
  negativeInfinite := "-inf"

mutual

/-- Writes a value on its line. -/
def valueText : Value Float → String
  | .text content => textSpelling content
  | .integer n => toString n
  | .float x => floatLayout.render x
  | .boolean b => if b then "true" else "false"
  | .datetime moment => moment.text
  | .list items =>
    match itemTexts items with
    | [] => "[]"
    | [item] => "[" ++ item ++ "]"
    | items => "[\n" ++ String.join (items.map fun item => "    " ++ item ++ ",\n") ++ "]"
  | .table entries =>
    match entryTexts entries with
    | [] => "\x7b\x7d"
    | entries => "\x7b " ++ ", ".intercalate entries ++ " \x7d"

/-- Writes the items of a list. -/
def itemTexts : List (Value Float) → List String
  | [] => []
  | item :: rest => valueText item :: itemTexts rest

/-- Writes named values. -/
def entryTexts : List (String × Value Float) → List String
  | [] => []
  | (key, value) :: rest => (keySpelling key ++ " = " ++ valueText value) :: entryTexts rest

end

/-- The lines of the plain values of a section. -/
def leafLines (entries : Section Float) : String :=
  String.join ((entryTexts (Section.leaves entries)).map fun line => line ++ "\n")

/-- The full name of a table. -/
def pathText (path : List String) : String :=
  ".".intercalate (path.map keySpelling)

mutual

/-- The blocks of a value that has blocks of its own, under its full name. -/
def branchBlocks (path : List String) : Value Float → List String
  | .table entries =>
    let own :=
      if (Section.leaves entries).isEmpty && !entries.isEmpty then []
      else ["[" ++ pathText path ++ "]\n" ++ leafLines entries]
    own ++ sectionBlocks path entries
  | .list items => if (Value.list items).isBranch then itemBlocks path items else []
  | _ => []

/-- The blocks of the branches of a section. -/
def sectionBlocks (path : List String) : List (String × Value Float) → List String
  | [] => []
  | (key, value) :: rest => branchBlocks (path ++ [key]) value ++ sectionBlocks path rest

/-- The blocks of a list of tables. -/
def itemBlocks (path : List String) : List (Value Float) → List String
  | [] => []
  | .table entries :: rest =>
    ("[[" ++ pathText path ++ "]]\n" ++ leafLines entries) :: sectionBlocks path entries
      ++ itemBlocks path rest
  | _ :: rest => itemBlocks path rest

end

/-- Writes a section as a configuration text. -/
def render (entries : Section Float) : String :=
  let own := if (Section.leaves entries).isEmpty then [] else [leafLines entries]
  "\n".intercalate (own ++ sectionBlocks [] entries)

end Modulation.Toml

import Modulation.Toml.Draft
import Modulation.Toml.Moment
import Modulation.Toml.Number
import Modulation.Toml.Quoted

set_option autoImplicit false

/-! # Keys and values in text

A key is a bare word or a quoted text, or several of them joined by points. A value is a text, a
number, a moment, a truth value, a list in square brackets or a table in braces. Values nest fewer
than eighty levels deep and keys have fewer than eighty parts. -/

namespace Modulation.Toml

open Modulation.Config

/-- Nested values and dotted keys stay below this depth. -/
def depthLimit : Nat := 80

/-! ## Keys -/

/-- Characters of a bare key. -/
def isBare (c : Char) : Bool :=
  c.isAlphanum || c == '-' || c == '_'

/-- Reads one part of a key. -/
def keyPart? : Scan String := fun text =>
  match text.takeWhile isBare with
  | [] => line? text
  | bare => some (String.ofList bare, text.dropWhile isBare)

/-- Reads the parts of a key with the blanks around them: those that lead to the last, and the
    last. -/
def keyFrom : (fuel : Nat) → Scan (List String × String)
  | 0, _ => none
  | fuel + 1, text => do
    let (part, rest) ← keyPart? (skipBlanks text)
    match skipBlanks rest with
    | '.' :: rest =>
      let ((path, key), rest) ← keyFrom fuel rest
      some ((part :: path, key), rest)
    | rest => some (([], part), rest)

/-- Reads a key with the blanks around it. -/
def key? : Scan (List String × String) :=
  keyFrom (depthLimit - 1)

/-! ## Values -/

/-- Reads a key, an equals sign and a value. -/
def assignment? (value : Scan (Value Float)) : Scan Draft.Assignment := fun text => do
  let ((path, key), rest) ← key? text
  let rest ← word? ['='] rest
  let (v, rest) ← value (skipBlanks rest)
  some (⟨path, key, v⟩, rest)

/-- Reads the items of a list up to its closing bracket; a comma may follow the last. -/
def listFrom (value : Scan (Value Float)) : (fuel : Nat) → Scan (List (Value Float))
  | 0, _ => none
  | fuel + 1, text =>
    match skipSpace text with
    | ']' :: rest => some ([], rest)
    | text => do
      let (item, rest) ← value text
      match skipSpace rest with
      | ']' :: rest => some ([item], rest)
      | ',' :: rest =>
        let (items, rest) ← listFrom value fuel rest
        some (item :: items, rest)
      | _ => none

/-- Reads the assignments of a table up to its closing brace; they stand on one line and no comma
    follows the last. -/
def assignmentsFrom (value : Scan (Value Float)) : (fuel : Nat) → Scan (List Draft.Assignment)
  | 0, _ => none
  | fuel + 1, text => do
    let (assignment, rest) ← assignment? value text
    match skipBlanks rest with
    | '}' :: rest => some ([assignment], rest)
    | ',' :: rest =>
      let (assignments, rest) ← assignmentsFrom value fuel rest
      some (assignment :: assignments, rest)
    | _ => none

/-- Reads a value that is neither a list nor a table. -/
def simple? : Scan (Value Float) := fun text =>
  match text with
  | '"' :: _ => (quoted? text).map fun (content, rest) => (.text content, rest)
  | '\'' :: _ => (quoted? text).map fun (content, rest) => (.text content, rest)
  | 't' :: _ => (word? ['t', 'r', 'u', 'e'] text).map fun rest => (.boolean true, rest)
  | 'f' :: _ => (word? ['f', 'a', 'l', 's', 'e'] text).map fun rest => (.boolean false, rest)
  | _ =>
    if startsDate text || startsTime text then
      (moment? text).map fun (moment, rest) => (.datetime moment, rest)
    else number? text

/-- Reads a value in which lists and tables nest at most so many levels deep. -/
def value? : (levels : Nat) → Scan (Value Float)
  | 0, '[' :: _ => none
  | 0, '{' :: _ => none
  | levels + 1, '[' :: rest => do
    let (items, rest) ← listFrom (value? levels) (rest.length + 1) rest
    some (.list items, rest)
  | levels + 1, '{' :: rest => do
    match skipBlanks rest with
    | '}' :: rest => some (.table [], rest)
    | text =>
      let (assignments, rest) ← assignmentsFrom (value? levels) (text.length + 1) text
      let entries ← Draft.assignAll [] assignments
      some (.table (Draft.toSection entries), rest)
  | _, text => simple? text

end Modulation.Toml

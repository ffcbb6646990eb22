import Modulation.Toml.Term

set_option autoImplicit false

/-! # Writing keys and quoted text

A text is written in the plainest form that holds it: on one line between double quotes, then
between single quotes, then on several lines, and with escapes only when no form without them
fits. Keys are bare where possible and stay on one line. -/

namespace Modulation.Toml

/-- Controls, which no form holds without an escape. -/
def isControl (c : Char) : Bool :=
  (c.toNat ≤ 0x1F && c != '\t' && c != '\n') || c.toNat == 0x7F

/-- The greatest number of quotes in a row in a text, given the length of the current row. -/
def longestRun (quote : Char) : (current : Nat) → List Char → Nat
  | current, [] => current
  | current, c :: rest =>
    if c = quote then longestRun quote (current + 1) rest
    else max current (longestRun quote 0 rest)

/-- The digit of a value below sixteen. -/
def hexDigit (n : Nat) : Char :=
  if n < 10 then Char.ofNat ('0'.toNat + n) else Char.ofNat ('A'.toNat + n - 10)

/-- Writes a character between double quotes; quotes themselves are left to the caller. -/
def escaped (c : Char) : List Char :=
  if c = '\\' then ['\\', '\\']
  else if c = '\t' then ['\\', 't']
  else if c = '\n' then ['\\', 'n']
  else if c = '\r' then ['\\', 'r']
  else if c.toNat = 0x08 then ['\\', 'b']
  else if c.toNat = 0x0C then ['\\', 'f']
  else if isControl c then
    ['\\', 'u', '0', '0', hexDigit (c.toNat / 16), hexDigit (c.toNat % 16)]
  else [c]

/-- Writes the inside of a one-line text in double quotes. -/
def escapedLine (text : List Char) : List Char :=
  text.flatMap fun c => if c = '"' then ['\\', '"'] else escaped c

/-- Writes the inside of a text on several lines in double quotes. Line feeds stand for themselves,
    and so do quotes but for each third in a row, since three would close the text. -/
def escapedLines : (run : Nat) → List Char → List Char
  | _, [] => []
  | run, c :: rest =>
    if c = '"' then
      if run = 2 then '\\' :: '"' :: escapedLines 0 rest else '"' :: escapedLines (run + 1) rest
    else if c = '\n' then '\n' :: escapedLines 0 rest
    else escaped c ++ escapedLines 0 rest

/-- Puts quotes around a text. -/
def enclose (quotes : String) (inside : List Char) : String :=
  quotes ++ String.ofList inside ++ quotes

/-- Puts quotes around a text on several lines; when it has a line feed it starts on the next
    line. -/
def encloseLines (quotes : String) (text inside : List Char) : String :=
  if text.contains '\n' then enclose quotes ('\n' :: inside) else enclose quotes inside

/-- Writes a text in the plainest form that holds it. -/
def textSpelling (content : String) : String :=
  let text := content.toList
  let controls := text.any isControl
  let lines := text.contains '\n'
  if !controls && !lines && !text.contains '\\' && !text.contains '"' then
    enclose "\"" (escapedLine text)
  else if !controls && !lines && !text.contains '\'' then
    enclose "'" text
  else if !controls && !text.contains '\\' && longestRun '"' 0 text ≤ 2 then
    encloseLines "\"\"\"" text (escapedLines 0 text)
  else if !controls && longestRun '\'' 0 text ≤ 2 then
    encloseLines "'''" text text
  else if lines then
    encloseLines "\"\"\"" text (escapedLines 0 text)
  else
    enclose "\"" (escapedLine text)

/-- Writes a key. -/
def keySpelling (key : String) : String :=
  let text := key.toList
  let controls := text.any fun c => isControl c || c == '\n'
  if !text.isEmpty && text.all isBare then key
  else if !controls && !text.contains '\\' && !text.contains '"' then
    enclose "\"" (escapedLine text)
  else if !controls && !text.contains '\'' then enclose "'" text
  else enclose "\"" (escapedLine text)

end Modulation.Toml

set_option autoImplicit false

/-! # Scanning text

A `Scan β` reads a `β` off the front of a text and gives the rest, or refuses. Here are the scans
that the parts of a configuration text share: blanks, line ends, comments and digits. -/

namespace Modulation.Toml

/-- Reads a value off the front of a text. -/
abbrev Scan (β : Type) := List Char → Option (β × List Char)

/-- Whether a character stands for itself beyond ASCII. -/
def isWide (c : Char) : Bool :=
  0x80 ≤ c.toNat

/-- Blanks are spaces and tabs. -/
def isBlank (c : Char) : Bool :=
  c == ' ' || c == '\t'

/-- A comment may hold every character but controls other than the tab. -/
def inComment (c : Char) : Bool :=
  c == '\t' || (0x20 ≤ c.toNat && c.toNat ≤ 0x7E) || isWide c

/-- Passes over blanks. -/
def skipBlanks (text : List Char) : List Char :=
  text.dropWhile isBlank

/-- Passes over a line end, with or without a carriage return. -/
def newline? : List Char → Option (List Char)
  | '\n' :: rest => some rest
  | '\r' :: '\n' :: rest => some rest
  | _ => none

/-- Passes over a comment that starts here, up to its line end. -/
def skipComment : List Char → List Char
  | '#' :: rest => rest.dropWhile inComment
  | text => text

/-- Passes over the end of a line: blanks, a comment, and a line end or the end of the text. -/
def lineEnd? (text : List Char) : Option (List Char) :=
  match skipComment (skipBlanks text) with
  | [] => some []
  | rest => newline? rest

/-- Passes over blanks, line ends and comments. The flag says whether a comment is open; a character
    that no comment may hold stops the pass. -/
def skipSpaceFrom : (inside : Bool) → List Char → List Char
  | _, '\n' :: rest => skipSpaceFrom false rest
  | _, '\r' :: '\n' :: rest => skipSpaceFrom false rest
  | false, '#' :: rest => skipSpaceFrom true rest
  | true, c :: rest => if inComment c then skipSpaceFrom true rest else c :: rest
  | false, c :: rest => if isBlank c then skipSpaceFrom false rest else c :: rest
  | _, [] => []

/-- Passes over blanks, line ends and comments. -/
def skipSpace (text : List Char) : List Char :=
  skipSpaceFrom false text

/-- Passes over a given word. -/
def word? : (word : List Char) → List Char → Option (List Char)
  | [], text => some text
  | w :: word, c :: text => if w = c then word? word text else none
  | _ :: _, [] => none

/-! ## Digits -/

/-- The value of a digit in bases up to sixteen. -/
def digitValue (c : Char) : Nat :=
  if c.isDigit then c.toNat - '0'.toNat
  else if 'a' ≤ c ∧ c ≤ 'f' then c.toNat - 'a'.toNat + 10
  else c.toNat - 'A'.toNat + 10

/-- Whether a character is a digit of a base up to sixteen. -/
def isDigitOf (base : Nat) (c : Char) : Bool :=
  (c.isDigit || ('a' ≤ c && c ≤ 'f') || ('A' ≤ c && c ≤ 'F')) && digitValue c < base

/-- The number that digits write in a base. -/
def valueOf (base : Nat) (digits : List Char) : Nat :=
  digits.foldl (fun value digit => base * value + digitValue digit) 0

/-- Reads digits of a base; an underscore may stand between two of them. -/
def digits? (base : Nat) : Scan (List Char)
  | [] => none
  | c :: rest =>
    if isDigitOf base c then
      match rest with
      | '_' :: next => (digits? base next).map fun (digits, last) => (c :: digits, last)
      | d :: next =>
        if isDigitOf base d then
          (digits? base (d :: next)).map fun (digits, last) => (c :: digits, last)
        else some ([c], d :: next)
      | [] => some ([c], [])
    else none

/-- Reads exactly the given number of digits. -/
def fixedDigits? (base : Nat) (count : Nat) : Scan Nat := fun text =>
  let digits := text.take count
  if digits.length = count ∧ digits.all (isDigitOf base) then
    some (valueOf base digits, text.drop count)
  else none

end Modulation.Toml

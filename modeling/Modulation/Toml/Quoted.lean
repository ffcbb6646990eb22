import Modulation.Toml.Scan

set_option autoImplicit false

/-! # Quoted text

Text stands between quotes in four ways: on one line or on several, between double quotes with
escapes or between single quotes without. The forms on several lines open and close with three
quotes; a line end right after the opening does not count, each other line end counts as a line
feed, and one or two quotes in a row belong to the text. -/

namespace Modulation.Toml

/-- Characters that stand for themselves between the given quotes on one line. -/
def isPlain (quote c : Char) : Bool :=
  c == '\t' || (0x20 ≤ c.toNat && c.toNat ≤ 0x7E && c != quote) || isWide c

/-- Reads the rest of an escape, after its backslash. -/
def escape? : Scan Char
  | 'b' :: rest => some (Char.ofNat 0x08, rest)
  | 't' :: rest => some ('\t', rest)
  | 'n' :: rest => some ('\n', rest)
  | 'f' :: rest => some (Char.ofNat 0x0C, rest)
  | 'r' :: rest => some ('\r', rest)
  | '"' :: rest => some ('"', rest)
  | '\\' :: rest => some ('\\', rest)
  | 'u' :: rest => codePoint 4 rest
  | 'U' :: rest => codePoint 8 rest
  | _ => none
where
  /-- Reads a code point of so many hexadecimal digits; surrogates are none. -/
  codePoint (count : Nat) : Scan Char := fun text => do
    let (n, rest) ← fixedDigits? 16 count text
    if n.isValidChar then some (Char.ofNat n, rest) else none

/-- Reads the rest of a one-line text in double quotes; an item of fuel is used for each character
    or escape. -/
def basicFrom : (fuel : Nat) → Scan (List Char)
  | 0, _ => none
  | _ + 1, '"' :: rest => some ([], rest)
  | fuel + 1, '\\' :: rest => do
    let (c, rest) ← escape? rest
    let (text, rest) ← basicFrom fuel rest
    some (c :: text, rest)
  | fuel + 1, c :: rest =>
    if isPlain '"' c then (basicFrom fuel rest).map fun (text, rest) => (c :: text, rest) else none
  | _ + 1, [] => none

/-- Reads the rest of a one-line text in single quotes. -/
def literalFrom : Scan (List Char)
  | '\'' :: rest => some ([], rest)
  | c :: rest =>
    if isPlain '\'' c then (literalFrom rest).map fun (text, rest) => (c :: text, rest) else none
  | [] => none

/-- After the backslash that ends a line: passes over the blanks before the line end and over all
    blanks and line ends after it. -/
def continuation? (text : List Char) : Option (List Char) :=
  (newline? (skipBlanks text)).map skipLines
where
  /-- Passes over blanks and line ends. -/
  skipLines : List Char → List Char
    | '\r' :: '\n' :: rest => skipLines rest
    | c :: rest => if isBlank c || c == '\n' then skipLines rest else c :: rest
    | [] => []

/-- Reads the closing quotes: three close the text, and up to two before them belong to it. -/
def closing? (quote : Char) (text : List Char) : Option (List Char × List Char) :=
  let count := min 5 (text.takeWhile (· == quote)).length
  if 3 ≤ count then some (List.replicate (count - 3) quote, text.drop count) else none

/-- Reads the rest of a text on several lines. -/
def linesFrom (quote : Char) (escapes : Bool) : (fuel : Nat) → Scan (List Char)
  | 0, _ => none
  | _ + 1, [] => none
  | fuel + 1, c :: rest =>
    if c = quote then
      match closing? quote (c :: rest) with
      | some closed => some closed
      | none => (linesFrom quote escapes fuel rest).map fun (text, rest) => (c :: text, rest)
    else if c = '\\' ∧ escapes then
      match continuation? rest with
      | some rest => linesFrom quote escapes fuel rest
      | none => do
        let (c, rest) ← escape? rest
        let (text, rest) ← linesFrom quote escapes fuel rest
        some (c :: text, rest)
    else
      match newline? (c :: rest) with
      | some rest =>
        (linesFrom quote escapes fuel rest).map fun (text, rest) => ('\n' :: text, rest)
      | none =>
        if isPlain quote c then
          (linesFrom quote escapes fuel rest).map fun (text, rest) => (c :: text, rest)
        else none

/-- Reads a one-line text with its quotes. -/
def line? : Scan String
  | '"' :: rest =>
    (basicFrom (rest.length + 1) rest).map fun (text, rest) => (String.ofList text, rest)
  | '\'' :: rest => (literalFrom rest).map fun (text, rest) => (String.ofList text, rest)
  | _ => none

/-- Reads a text with its quotes, on one line or on several. -/
def quoted? : Scan String
  | '"' :: '"' :: '"' :: rest => several '"' true rest
  | '\'' :: '\'' :: '\'' :: rest => several '\'' false rest
  | text => line? text
where
  /-- Reads a text on several lines, after its opening quotes. -/
  several (quote : Char) (escapes : Bool) : Scan String := fun text =>
    let body := (newline? text).getD text
    (linesFrom quote escapes (body.length + 1) body).map fun (text, rest) =>
      (String.ofList text, rest)

end Modulation.Toml

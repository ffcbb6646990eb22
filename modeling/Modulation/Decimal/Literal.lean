set_option autoImplicit false

/-! # Reading numbers

`toDouble` is the double nearest to a decimal. `number?` reads a number in the notation of plain
number lists and `word64?` a whole number of sixty-four bits; both take the whole text or refuse
it. -/

namespace Modulation.Decimal

/-- The double nearest to `digits * 10 ^ exponent`. Decimals far outside the range of doubles are
    answered at once, since their powers of ten would be too long to write down. -/
def toDouble (negative : Bool) (digits : Nat) (exponent : Int) : Float :=
  let bits := Int.ofNat digits.log2 * 1000 + exponent * 3321
  let magnitude : Float :=
    if digits = 0 then 0.0
    else if 0 < exponent ∧ 1100000 < bits then 1.0 / 0.0
    else if exponent < 0 ∧ bits < -1200000 then 0.0
    else Float.ofScientific digits (decide (exponent < 0)) exponent.natAbs
  if negative then -magnitude else magnitude

/-- The number that decimal digits write. -/
def digitsValue (digits : List Char) : Nat :=
  digits.foldl (fun value digit => 10 * value + (digit.toNat - '0'.toNat)) 0

/-! ## White space -/

/-- The characters of Unicode's `White_Space` property. -/
def isBlank (c : Char) : Bool :=
  let n := c.toNat
  (0x09 ≤ n && n ≤ 0x0D) || n == 0x20 || n == 0x85 || n == 0xA0 || n == 0x1680
    || (0x2000 ≤ n && n ≤ 0x200A) || n == 0x2028 || n == 0x2029 || n == 0x202F || n == 0x205F
    || n == 0x3000

/-- A text without the white space at its ends. -/
def trim (text : List Char) : List Char :=
  ((text.dropWhile isBlank).reverse.dropWhile isBlank).reverse

/-! ## Plain numbers -/

/-- Splits a sign off a text: whether it is a minus, and the rest. -/
def takeSign : List Char → Bool × List Char
  | '-' :: rest => (true, rest)
  | '+' :: rest => (false, rest)
  | text => (false, text)

/-- Reads the exponent part of a number, which may be missing but must end the text. -/
def exponent? : List Char → Option Int
  | [] => some 0
  | mark :: rest =>
    if mark = 'e' ∨ mark = 'E' then
      let (negative, digits) := takeSign rest
      if digits ≠ [] ∧ digits.all Char.isDigit then
        let value := Int.ofNat (digitsValue digits)
        some (if negative then -value else value)
      else none
    else none

/-- Reads digits with an optional point and an optional exponent part; one digit before or after
    the point is enough. -/
def unsigned? (negative : Bool) (text : List Char) : Option Float :=
  let whole := text.takeWhile Char.isDigit
  let afterWhole := text.dropWhile Char.isDigit
  let (fraction, rest) :=
    match afterWhole with
    | '.' :: tail => (tail.takeWhile Char.isDigit, tail.dropWhile Char.isDigit)
    | tail => ([], tail)
  if whole = [] ∧ fraction = [] then none
  else
    (exponent? rest).map fun exponent =>
      toDouble negative (digitsValue (whole ++ fraction)) (exponent - fraction.length)

/-- Reads a number: an optional sign, then digits or one of the words `inf`, `infinity` and `nan` in
    any case. White space around it is skipped. -/
def number? (text : String) : Option Float :=
  let (negative, body) := takeSign (trim text.toList)
  let word := String.ofList (body.map Char.toLower)
  if word = "inf" ∨ word = "infinity" then some (if negative then -1.0 / 0.0 else 1.0 / 0.0)
  else if word = "nan" then some (0.0 / 0.0)
  else unsigned? negative body

/-- Reads a whole number below `2 ^ 64`: an optional plus sign and ASCII digits. -/
def word64? (text : String) : Option UInt64 :=
  let digits :=
    match text.toList with
    | '+' :: rest => rest
    | digits => digits
  if digits ≠ [] ∧ digits.all Char.isDigit then
    let value := digitsValue digits
    if value < UInt64.size then some (UInt64.ofNat value) else none
  else none

end Modulation.Decimal

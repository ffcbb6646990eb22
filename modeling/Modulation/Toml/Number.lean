import Modulation.Decimal.Literal
import Modulation.Config.Value
import Modulation.Toml.Scan

set_option autoImplicit false

/-! # Numbers in text

A number is an integer of sixty-four bits in base ten, sixteen, eight or two, or a float with a
point or an exponent. Underscores may stand between digits. A float that is too large to be one is
refused. -/

namespace Modulation.Toml

open Modulation.Config

/-- Whether an integer fits in sixty-four bits. -/
def fitsWord (n : Int) : Bool :=
  Int64.minValue.toInt ≤ n && n ≤ Int64.maxValue.toInt

/-- Reads the digits of a number in base ten; only zero itself starts with a zero. -/
def whole? : Scan (List Char)
  | '0' :: rest => some (['0'], rest)
  | text => digits? 10 text

/-- Reads an exponent part with its sign. -/
def exponent? : Scan Int := fun text => do
  let (negative, rest) := Decimal.takeSign text
  let (digits, rest) ← digits? 10 rest
  let value := Int.ofNat (valueOf 10 digits)
  some (if negative then -value else value, rest)

/-- Whether an exponent part starts with this character. -/
def marksExponent (c : Char) : Bool :=
  c == 'e' || c == 'E'

/-- The float of a sign, digits and an exponent, unless it exceeds all doubles. -/
def float? (negative : Bool) (digits : List Char) (exponent : Int) : Option (Value Float) :=
  let x := Decimal.toDouble negative (valueOf 10 digits) exponent
  if x == 1.0 / 0.0 then none else some (.float x)

/-- Reads the rest of a number in base ten, after its sign. -/
def decimal? (negative : Bool) : Scan (Value Float) := fun text => do
  let (digits, rest) ← whole? text
  match rest with
  | '.' :: tail =>
    let (fraction, rest) ← digits? 10 tail
    let (exponent, rest) ←
      match rest with
      | c :: tail => if marksExponent c then exponent? tail else some (0, rest)
      | [] => some (0, rest)
    let value ← float? negative (digits ++ fraction) (exponent - fraction.length)
    some (value, rest)
  | c :: tail =>
    if marksExponent c then
      let (exponent, rest) ← exponent? tail
      let value ← float? negative digits exponent
      some (value, rest)
    else integer digits rest
  | [] => integer digits []
where
  /-- The integer of the digits read. -/
  integer (digits rest : List Char) : Option (Value Float × List Char) :=
    let magnitude := Int.ofNat (valueOf 10 digits)
    let n := if negative then -magnitude else magnitude
    if fitsWord n then some (.integer n, rest) else none

/-- Reads the rest of an integer in another base, after the mark of the base. -/
def based? (base : Nat) : Scan (Value Float) := fun text => do
  let (digits, rest) ← digits? base text
  let n := Int.ofNat (valueOf base digits)
  if fitsWord n then some (.integer n, rest) else none

/-- Reads a number; the words `inf` and `nan` are floats. -/
def number? : Scan (Value Float)
  | '0' :: 'x' :: rest => based? 16 rest
  | '0' :: 'o' :: rest => based? 8 rest
  | '0' :: 'b' :: rest => based? 2 rest
  | text =>
    let (negative, rest) := Decimal.takeSign text
    match word? ['i', 'n', 'f'] rest, word? ['n', 'a', 'n'] rest with
    | some rest, _ => some (.float (if negative then -1.0 / 0.0 else 1.0 / 0.0), rest)
    | _, some rest => some (.float (0.0 / 0.0), rest)
    | none, none => decimal? negative rest

end Modulation.Toml

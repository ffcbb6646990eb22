import Modulation.Decimal.Shortest

set_option autoImplicit false

/-! # Number texts

A `Layout` says how a double is written: between which powers of ten without an exponent, whether a
whole number keeps a zero after the point, how ties between shortest decimals go, and the words for
the values that are no finite numbers. `Layout.render` writes a double so; `fixed` writes it with a
given number of places instead. -/

namespace Modulation.Decimal

/-- A way to write doubles. -/
structure Layout where
  /-- Decimal exponents `n` with `from ≤ n < to` are written without an exponent part; `none`
      stands for all exponents. -/
  positional : Option (Int × Int)
  /-- Whether a whole number is written with `.0`. -/
  keepsPoint : Bool
  /-- How a tie between two shortest decimals goes. -/
  tie : Tie
  /-- The word for a value that is no number. -/
  nan : String
  /-- The word for positive infinity. -/
  infinite : String
  /-- The word for negative infinity. -/
  negativeInfinite : String

/-- The digits of a number without an exponent part. -/
def positionalText (digits : String) (exponent : Int) (keepsPoint : Bool) : String :=
  if 0 ≤ exponent then
    digits ++ "".pushn '0' exponent.toNat ++ (if keepsPoint then ".0" else "")
  else
    let places := (-exponent).toNat
    if digits.length ≤ places then
      "0." ++ "".pushn '0' (places - digits.length) ++ digits
    else
      let whole := digits.length - places
      String.ofList (digits.toList.take whole) ++ "." ++ String.ofList (digits.toList.drop whole)

/-- The digits of a number with one digit before the point and an exponent part. -/
def exponentText (digits : String) (decimalExponent : Int) : String :=
  let mantissa :=
    match digits.toList with
    | [] => ""
    | [digit] => String.singleton digit
    | digit :: rest => String.singleton digit ++ "." ++ String.ofList rest
  mantissa ++ "e" ++ (if 0 ≤ decimalExponent then "+" else "-") ++ toString decimalExponent.natAbs

/-- Writes a double in its fewest digits. -/
def Layout.render (layout : Layout) (x : Float) : String :=
  match Binary64.decode x with
  | .nan => layout.nan
  | .infinite negative => if negative then layout.negativeInfinite else layout.infinite
  | .finite negative mantissa exponent =>
    let body :=
      if mantissa = 0 then positionalText "0" 0 layout.keepsPoint
      else
        let number := shortest layout.tie mantissa exponent
        let digits := toString number.digits
        let decimalExponent := number.exponent + digits.length - 1
        let isPositional :=
          match layout.positional with
          | none => true
          | some (first, last) => first ≤ decimalExponent ∧ decimalExponent < last
        if isPositional then positionalText digits number.exponent layout.keepsPoint
        else exponentText digits decimalExponent
    (if negative then "-" else "") ++ body

/-! ## Fixed places -/

/-- The whole number nearest to `num / den`, a tie going to the even one. -/
def roundDiv (num den : Nat) : Nat :=
  let quotient := num / den
  let rest := num % den
  if den < 2 * rest ∨ den = 2 * rest ∧ quotient % 2 = 1 then quotient + 1 else quotient

/-- Writes a double with the given number of places, rounded from its exact value. The sign of a
    number that rounds to zero is kept. -/
def fixed (places : Nat) (x : Float) : String :=
  match Binary64.decode x with
  | .nan => "NaN"
  | .infinite negative => if negative then "-inf" else "inf"
  | .finite negative mantissa exponent =>
    let scaled :=
      roundDiv (mantissa * Nat.pow 2 exponent.toNat * Nat.pow 10 places)
        (Nat.pow 2 (-exponent).toNat)
    let digits := toString scaled
    let padded := "".pushn '0' (places + 1 - digits.length) ++ digits
    let whole := padded.length - places
    let fraction := String.ofList (padded.toList.drop whole)
    (if negative then "-" else "") ++ String.ofList (padded.toList.take whole)
      ++ (if places = 0 then "" else "." ++ fraction)

end Modulation.Decimal

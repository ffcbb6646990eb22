set_option autoImplicit false

/-! # The parts of a double

A finite double is a sign, a whole mantissa below `2 ^ 53` and a power of two. `decode` takes the
sixty-four bits apart and `ofScaled` puts them together; exact operations on doubles are then
operations on whole numbers. `remainder` is such an operation: the remainder of two doubles by
truncated division is itself a double, so nothing is rounded. -/

namespace Modulation.Binary64

/-- What the bits of a double say. A finite one is `mantissa * 2 ^ exponent` up to its sign. -/
inductive Parts where
  | nan
  | infinite (negative : Bool)
  | finite (negative : Bool) (mantissa : Nat) (exponent : Int)
  deriving DecidableEq, Repr

/-- Takes a double apart. Only a mantissa of full length has its leading bit left out. -/
def decode (x : Float) : Parts :=
  let bits := x.toBits.toNat
  let negative := decide (Nat.pow 2 63 ≤ bits)
  let biased := bits / Nat.pow 2 52 % Nat.pow 2 11
  let fraction := bits % Nat.pow 2 52
  if biased = 2047 then
    if fraction = 0 then .infinite negative else .nan
  else if biased = 0 then
    .finite negative fraction (-1074)
  else
    .finite negative (Nat.pow 2 52 + fraction) (Int.ofNat biased - 1075)

/-- The double `mantissa * 2 ^ exponent`, for a mantissa below `2 ^ 53` and an exponent of at least
    `-1074` whose product is in the range of doubles. The mantissa is moved up as far as the least
    exponent allows, so that equal products have equal bits. -/
def ofScaled (negative : Bool) (mantissa : Nat) (exponent : Int) : Float :=
  let sign := if negative then Nat.pow 2 63 else 0
  let shift := min (52 - mantissa.log2) (exponent + 1074).toNat
  let mantissa := mantissa * Nat.pow 2 shift
  let bits :=
    if mantissa < Nat.pow 2 52 then mantissa
    else (exponent - shift + 1075).toNat * Nat.pow 2 52 + (mantissa - Nat.pow 2 52)
  Float.ofBits (UInt64.ofNat (sign + bits))

/-- The remainder of `x` by `y` by truncated division. It is exact and has the sign of `x`. -/
def remainder (x y : Float) : Float :=
  match decode x, decode y with
  | .finite negative mx ex, .finite _ my ey =>
    if my = 0 then 0.0 / 0.0
    else
      let e := min ex ey
      let rest := (mx * Nat.pow 2 (ex - e).toNat) % (my * Nat.pow 2 (ey - e).toNat)
      ofScaled negative rest e
  | .finite .., .infinite _ => x
  | _, _ => 0.0 / 0.0

end Modulation.Binary64

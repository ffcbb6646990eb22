import Modulation.Binary64.Bits

set_option autoImplicit false

/-! # The fewest digits that read back

A double stands for the interval of reals that round to it. Its shortest decimal is the one with the
fewest digits in that interval, and of several the nearest to the double.

All comparisons are between whole numbers. The interval of `mantissa * 2 ^ exponent` is kept in
quarters of its unit, `2 ^ (exponent - 2)`, in which its ends are whole. For each power of ten, from
one above the double downwards, the two neighbours of the double on the grid of its multiples are
tried: if any multiple lies in the interval then one of the two does, and the first grid with a hit
is the one that needs the fewest digits. -/

namespace Modulation.Decimal

/-- What to do with a number halfway between two candidates. -/
inductive Tie where
  | toEven
  | up
  deriving DecidableEq, Repr

/-- Whether a tie above the candidate `lower` goes up. -/
def Tie.goesUp : Tie → (lower : Nat) → Bool
  | .toEven, lower => lower % 2 == 1
  | .up, _ => true

/-- A whole number of units of a power of ten. -/
structure Scaled where
  digits : Nat
  exponent : Int
  deriving DecidableEq, Repr

/-- The reals that round to `mantissa * 2 ^ exponent`, in quarters of its unit. The ends belong to
    the interval when the mantissa is even, since a tie goes to the even mantissa. -/
structure Interval where
  low : Nat
  value : Nat
  high : Nat
  closed : Bool

/-- The interval of a double. Below a power of two the neighbours are half as far apart. -/
def Interval.ofDouble (mantissa : Nat) (exponent : Int) : Interval where
  low := 4 * mantissa - if mantissa = Nat.pow 2 52 ∧ exponent ≠ -1074 then 1 else 2
  value := 4 * mantissa
  high := 4 * mantissa + 2
  closed := mantissa % 2 == 0

/-- The multiple of `10 ^ place` in the interval that is nearest to the value, if there is one. The
    interval is in units of `2 ^ unit`. -/
def Interval.nearestMultiple (interval : Interval) (unit : Int) (tie : Tie) (place : Int) :
    Option Nat :=
  let toValue := Nat.pow 2 unit.toNat * Nat.pow 10 (-place).toNat
  let toGrid := Nat.pow 2 (-unit).toNat * Nat.pow 10 place.toNat
  let value := interval.value * toValue
  let lower := value / toGrid
  let rest := value % toGrid
  let below := interval.low * toValue
  let above := interval.high * toValue
  let lowerFits :=
    if interval.closed then below ≤ lower * toGrid else below < lower * toGrid
  let upperFits :=
    if interval.closed then (lower + 1) * toGrid ≤ above else (lower + 1) * toGrid < above
  if lower ≠ 0 ∧ lowerFits then
    -- Both neighbours may fit: the nearer one is taken.
    if upperFits ∧ (toGrid < 2 * rest ∨ toGrid = 2 * rest ∧ tie.goesUp lower) then
      some (lower + 1)
    else some lower
  else if upperFits then some (lower + 1)
  else none

/-- Tries the grids from `place` downwards. -/
def Interval.shortestFrom (interval : Interval) (unit : Int) (tie : Tie) :
    (tries : Nat) → (place : Int) → Scaled
  | 0, place => ⟨0, place⟩
  | tries + 1, place =>
    match interval.nearestMultiple unit tie place with
    | some digits => ⟨digits, place⟩
    | none => interval.shortestFrom unit tie tries (place - 1)

/-- The shortest decimal of the positive double `mantissa * 2 ^ exponent`. The search starts at a
    power of ten above the double; seventeen digits always suffice. -/
def shortest (tie : Tie) (mantissa : Nat) (exponent : Int) : Scaled :=
  let bound := (Int.ofNat (mantissa.log2 + 1) + exponent) * 30103 / 100000 + 2
  (Interval.ofDouble mantissa exponent).shortestFrom (exponent - 2) tie 24 bound

end Modulation.Decimal

import Modulation.Binary64.Numeric
import Modulation.Decimal.Layout

set_option autoImplicit false

/-! # Comparing samples

Two series of samples are close when they are equally long and no two samples at the same place are
further apart than a tolerance. A difference that is no number exceeds every tolerance. -/

namespace Modulation

/-- How two series of samples differ. -/
inductive Mismatch where
  | length
  | sample (index : Nat) (actual expected tolerance : Float)

/-- Finds the first pair of samples that are too far apart, counting from an index. -/
def farApart? (tolerance : Float) : (index : Nat) → List (Float × Float) → Option Mismatch
  | _, [] => none
  | index, (actual, expected) :: rest =>
    if (actual - expected).abs ≤ tolerance then farApart? tolerance (index + 1) rest
    else some (.sample index actual expected tolerance)

/-- How two series differ, if they are not close. -/
def mismatch? (actual expected : List Float) (tolerance : Float) : Option Mismatch :=
  if actual.length = expected.length then farApart? tolerance 0 (actual.zip expected)
  else some .length

/-- Numbers in messages are written with all their digits. -/
def messageLayout : Decimal.Layout where
  positional := none
  keepsPoint := false
  tie := .up
  nan := "NaN"
  infinite := "inf"
  negativeInfinite := "-inf"

/-- The words for a mismatch. -/
def Mismatch.message : Mismatch → String
  | length => "length mismatch"
  | sample index actual expected tolerance =>
    "sample " ++ toString index ++ ": " ++ messageLayout.render actual ++ " != "
      ++ messageLayout.render expected ++ " (tolerance " ++ messageLayout.render tolerance ++ ")"

end Modulation

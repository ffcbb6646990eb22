set_option autoImplicit false

/-! # The arithmetic of signals

Signals are defined over any type with the operations below, so that the same definitions run on
machine numbers and can be read over an exact number system.

`%` keeps the sign of its left operand; `residue` is the remainder that is never negative.
`smaller` and `larger` skip an operand that is not a number, which is one that differs from
itself. -/

namespace Modulation

/-- A number system with the operations that signals use. -/
class Numeric (α : Type) extends
    Add α, Sub α, Mul α, Div α, Mod α, Neg α, LT α, LE α, BEq α, OfScientific α where
  /-- Comparison decides. -/
  decLT : DecidableLT α
  /-- Weak comparison decides. -/
  decLE : DecidableLE α
  /-- The number nearest to an integer. -/
  ofInt : Int → α
  /-- The distance from zero. -/
  abs : α → α
  /-- The square root. -/
  sqrt : α → α
  /-- The sine of an angle in radians. -/
  sin : α → α
  /-- The cosine of an angle in radians. -/
  cos : α → α
  /-- A number above all others. -/
  infinity : α
  /-- The result of an operation that has none. -/
  nan : α

attribute [reducible, instance] Numeric.decLT Numeric.decLE

namespace Numeric

variable {α : Type} [Numeric α]

/-- The angle of a full turn. -/
def tau : α := 6.283185307179586

/-- The angle of a half turn. -/
def pi : α := 3.141592653589793

/-- Whether a value is no number: it differs from itself. -/
def isNaN (x : α) : Bool :=
  !(x == x)

/-- The smaller of two numbers; an operand that is no number is skipped. -/
def smaller (a b : α) : α :=
  if isNaN a then b else if b < a then b else a

/-- The larger of two numbers; an operand that is no number is skipped. -/
def larger (a b : α) : α :=
  if isNaN a then b else if a < b then b else a

/-- The remainder of `x` by `range` that is not negative. -/
def residue (x range : α) : α :=
  let r := x % range
  if r < 0.0 then r + abs range else r

/-- The point a share `t` of the way from `low` to `high`. -/
def lerp (low high t : α) : α :=
  low + (high - low) * t

end Numeric

end Modulation

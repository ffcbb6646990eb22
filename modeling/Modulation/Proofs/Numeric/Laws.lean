import Modulation.Numeric

set_option autoImplicit false

/-! # What the theory asks of numbers

The theory of signals holds over every number system in which no two numbers exceed each other and
the distance from zero is at that distance from zero. Nothing is asked of the arithmetic, so that
rounding, overflow and operations without a result are all allowed. -/

namespace Modulation.Numeric

/-- The laws of comparison and distance that signals rely on. -/
class Lawful (α : Type) [Numeric α] : Prop where
  lt_asymm : ∀ {x y : α}, x < y → ¬ y < x
  abs_abs : ∀ x : α, abs (abs x) = abs x

end Modulation.Numeric

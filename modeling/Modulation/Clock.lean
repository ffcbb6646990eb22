import Modulation.Binary64.Numeric

set_option autoImplicit false

/-! # Ticks and seconds

Effects advance by a fixed number of ticks in a second. -/

namespace Modulation

/-- The number of ticks in a second. -/
def ticksPerSecond : Nat := 20

/-- The time of a tick in seconds, where the tick is a word of sixty-four bits. -/
def seconds (tick : UInt64) : Float :=
  tick.toFloat / Float.ofNat ticksPerSecond

/-- The ticks reached by advancing in turn, the start first. -/
def advances (start : UInt64) : List UInt64 → List UInt64
  | [] => [start]
  | delta :: rest => start :: advances (start + delta) rest

end Modulation

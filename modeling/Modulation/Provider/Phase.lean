import Modulation.Numeric

set_option autoImplicit false

/-! # Phases

A periodic provider keeps its phase in `[0, range)`. Each tick advances it by a fraction of the
range, and sums of fractions fall short of a full lap by rounding; a phase within `snapDistance` of
the range therefore starts the next lap. -/

namespace Modulation

variable {α : Type} [Numeric α]

/-- How close to the end of a lap a phase may come. -/
def snapDistance : α := 1e-9

/-- Brings a phase into `[0, range)`. -/
def wrapPhase (phase range : α) : α :=
  let wrapped := Numeric.residue phase range
  if range - wrapped < snapDistance then 0.0 else wrapped

/-- The phase at which a provider starts, given its initial progress. -/
def startPhase (initial range : α) : α :=
  wrapPhase (Numeric.abs initial) range

/-- The phase one tick later, where a lap takes `period` ticks. -/
def nextPhase (phase range period : α) : α :=
  wrapPhase (phase + range / period) range

end Modulation

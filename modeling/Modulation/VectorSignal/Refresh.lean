import Modulation.Signal.Refresh
import Modulation.VectorSignal.Basic

set_option autoImplicit false

/-! # Advancing a vector signal by a tick

As with signals, the parts are refreshed first and in the order in which they are written. -/

namespace Modulation.VectorSignal

variable {α σ : Type} [Numeric α] [RandomSource σ α]

mutual

/-- The vector signal one tick later. -/
def refresh : VectorSignal α → StateM σ (VectorSignal α)
  | constant value => pure (constant value)
  | combined op arguments _ => do
    let arguments ← refreshAll arguments
    pure (combine op arguments)
  | normalized inner _ => do
    let inner ← refresh inner
    pure (normalize inner)
  | scaled vector factor _ => do
    let vector ← refresh vector
    let factor ← factor.refresh
    pure (scale vector factor)
  | rotated about period radius phase _ => do
    let about ← refresh about
    let period ← period.refresh
    let radius ← radius.refresh
    pure (atPhase about period radius (nextPhase phase rotationRange period.value))
  | assembled x y z _ => do
    let x ← x.refresh
    let y ← y.refresh
    let z ← z.refresh
    pure (components x y z)

/-- Vector signals one tick later, refreshed in turn. -/
def refreshAll : List (VectorSignal α) → StateM σ (List (VectorSignal α))
  | [] => pure []
  | signal :: rest => do
    let signal ← refresh signal
    let rest ← refreshAll rest
    pure (signal :: rest)

end

/-- The vector signal a number of ticks later. -/
def refreshTimes : (ticks : Nat) → VectorSignal α → StateM σ (VectorSignal α)
  | 0, signal => pure signal
  | ticks + 1, signal => do refreshTimes ticks (← refresh signal)

/-- The vector signal after each of a number of ticks. -/
def samples : (ticks : Nat) → VectorSignal α → StateM σ (List (VectorSignal α))
  | 0, _ => pure []
  | ticks + 1, signal => do
    let signal ← refresh signal
    let rest ← samples ticks signal
    pure (signal :: rest)

end Modulation.VectorSignal

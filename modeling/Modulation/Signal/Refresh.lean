import Modulation.Random.Source
import Modulation.Signal.Basic

set_option autoImplicit false

/-! # Advancing a signal by a tick

The parts of a signal are refreshed before the signal, in the order in which they are written, so
that a signal reflects the values of its parts at the same tick. A refresh rebuilds the signal by
the functions of `Modulation.Signal.Basic`, which put its bounds in order and compute its value. -/

namespace Modulation.Signal

variable {α σ : Type} [Numeric α] [RandomSource σ α]

mutual

/-- The signal one tick later. -/
def refresh : Signal α → StateM σ (Signal α)
  | constant value => pure (constant value)
  | combined op arguments _ => do
    let arguments ← refreshAll arguments
    pure (combine op arguments)
  | absolute inner _ => do
    let inner ← refresh inner
    pure (abs inner)
  | clamped low high inner _ => do
    let low ← refresh low
    let high ← refresh high
    let inner ← refresh inner
    pure (clamp low high inner)
  | periodic form low high period phase _ => do
    let low ← refresh low
    let high ← refresh high
    let period ← refresh period
    pure (atPhase form low high period (nextPhase phase form.range period.value))
  | drawn low high _ _ => do
    let low ← refresh low
    let high ← refresh high
    let share ← draw
    let bounds := ordered low high
    pure (withLast low high (Numeric.lerp bounds.1.value bounds.2.value share))

/-- Signals one tick later, refreshed in turn. -/
def refreshAll : List (Signal α) → StateM σ (List (Signal α))
  | [] => pure []
  | signal :: rest => do
    let signal ← refresh signal
    let rest ← refreshAll rest
    pure (signal :: rest)

end

/-- The signal a number of ticks later. -/
def refreshTimes : (ticks : Nat) → Signal α → StateM σ (Signal α)
  | 0, signal => pure signal
  | ticks + 1, signal => do refreshTimes ticks (← refresh signal)

/-- The signal after each of a number of ticks. -/
def samples : (ticks : Nat) → Signal α → StateM σ (List (Signal α))
  | 0, _ => pure []
  | ticks + 1, signal => do
    let signal ← refresh signal
    let rest ← samples ticks signal
    pure (signal :: rest)

end Modulation.Signal

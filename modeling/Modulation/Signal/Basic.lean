import Modulation.Signal.Kind

set_option autoImplicit false

/-! # Signals

A `Signal` is a number that changes from tick to tick: a constant, or a value generated from other
signals. Every generated signal holds its current value, so that looking at a signal costs nothing;
the functions that build signals compute it from the values of the parts, and signals are only made
by them. Periodic signals also hold their phase, and random ones the number drawn last.

The two bounds of a signal are kept in order: the one whose value exceeds the other's is the upper
one, whichever way they were given. -/

namespace Modulation

/-- A number that changes from tick to tick. The last field of a generated signal is its current
    value. -/
inductive Signal (α : Type) where
  | constant (value : α)
  | combined (op : Operator) (arguments : List (Signal α)) (value : α)
  | absolute (inner : Signal α) (value : α)
  | clamped (low high inner : Signal α) (value : α)
  | periodic (form : Waveform) (low high period : Signal α) (phase value : α)
  | drawn (low high : Signal α) (last value : α)

namespace Signal

variable {α : Type}

/-- The current value. -/
def value : Signal α → α
  | constant value => value
  | combined _ _ value => value
  | absolute _ value => value
  | clamped _ _ _ value => value
  | periodic _ _ _ _ _ value => value
  | drawn _ _ _ value => value

/-- The kind of a generated signal. -/
def kind? : Signal α → Option SignalKind
  | constant _ => none
  | combined op _ _ => some (.combine op)
  | absolute _ _ => some .abs
  | clamped _ _ _ _ => some .clamp
  | periodic form _ _ _ _ _ => some (.wave form)
  | drawn _ _ _ _ => some .random

/-- Whether a signal is a constant. -/
def isConstant (signal : Signal α) : Bool :=
  signal.kind?.isNone

/-- The phase of a periodic signal. -/
def phase? : Signal α → Option α
  | periodic _ _ _ _ phase _ => some phase
  | _ => none

/-! ## Induction -/

/-- Induction over the signals in a signal: what is proved of a signal may use what holds of its
    parts. -/
theorem partInduction {motive : Signal α → Prop} (constant : ∀ value, motive (constant value))
    (combined : ∀ op arguments value, (∀ argument ∈ arguments, motive argument) →
      motive (combined op arguments value))
    (absolute : ∀ inner value, motive inner → motive (absolute inner value))
    (clamped : ∀ low high inner value, motive low → motive high → motive inner →
      motive (clamped low high inner value))
    (periodic : ∀ form low high period phase value, motive low → motive high → motive period →
      motive (periodic form low high period phase value))
    (drawn : ∀ low high last value, motive low → motive high → motive (drawn low high last value))
    (signal : Signal α) : motive signal :=
  @Signal.rec α motive (fun arguments => ∀ argument ∈ arguments, motive argument) constant combined
    absolute clamped periodic drawn (fun _ hnone => absurd hnone List.not_mem_nil)
    (fun _ _ hfirst hrest => List.forall_mem_cons.2 ⟨hfirst, hrest⟩) signal

/-! ## Building signals -/

variable [Numeric α]

/-- Puts two bounds in order. -/
def ordered (low high : Signal α) : Signal α × Signal α :=
  if low.value > high.value then (high, low) else (low, high)

/-- Combines arguments, however many there are. -/
def combine (op : Operator) (arguments : List (Signal α)) : Signal α :=
  combined op arguments (op.apply (arguments.map value))

/-- Combines arguments if there are as many as the operator admits. -/
def combine? (op : Operator) (arguments : List (Signal α)) : Except Fault (Signal α) :=
  (op.arity.check op.tag "" arguments).map (combine op)

/-- The absolute value of a signal. -/
def abs (inner : Signal α) : Signal α :=
  absolute inner (Numeric.abs inner.value)

/-- A signal kept between two bounds. -/
def clamp (low high inner : Signal α) : Signal α :=
  let bounds := ordered low high
  clamped bounds.1 bounds.2 inner
    (Numeric.larger bounds.1.value (Numeric.smaller bounds.2.value inner.value))

/-- A periodic signal at a given phase. -/
def atPhase (form : Waveform) (low high period : Signal α) (phase : α) : Signal α :=
  let bounds := ordered low high
  periodic form bounds.1 bounds.2 period phase
    (Numeric.lerp bounds.1.value bounds.2.value (form.level phase))

/-- A periodic signal that starts at an initial progress. -/
def wave (form : Waveform) (low high period : Signal α) (initial : α) : Signal α :=
  atPhase form low high period (startPhase initial form.range)

/-- A random signal with a given last number. -/
def withLast (low high : Signal α) (last : α) : Signal α :=
  let bounds := ordered low high
  drawn bounds.1 bounds.2 last last

/-- A random signal before its first draw, at its lower bound. -/
def random (low high : Signal α) : Signal α :=
  withLast low high (ordered low high).1.value

/-! ## Comparison -/

mutual

/-- Whether two signals agree in every part, phases, draws and current values included. -/
def same : Signal α → Signal α → Bool
  | constant v, constant v' => v == v'
  | combined op arguments v, combined op' arguments' v' =>
    op == op' && sameAll arguments arguments' && v == v'
  | absolute inner v, absolute inner' v' => same inner inner' && v == v'
  | clamped low high inner v, clamped low' high' inner' v' =>
    same low low' && same high high' && same inner inner' && v == v'
  | periodic form low high period phase v, periodic form' low' high' period' phase' v' =>
    form == form' && same low low' && same high high' && same period period' && phase == phase'
      && v == v'
  | drawn low high last v, drawn low' high' last' v' =>
    same low low' && same high high' && last == last' && v == v'
  | _, _ => false

/-- Whether two lists of signals agree. -/
def sameAll : List (Signal α) → List (Signal α) → Bool
  | [], [] => true
  | a :: rest, b :: rest' => same a b && sameAll rest rest'
  | _, _ => false

end

end Signal

end Modulation

import Modulation.VectorSignal.Refresh
import Modulation.VectorSignal.Writer

set_option autoImplicit false

/-! # Effects

An effect is a set of named signals and a set of named vector signals that advance together. Both
are kept in order, a name stands at most once in each, and the same name may stand in both. -/

namespace Modulation

/-- Named signals and vector signals, and the number of ticks they have advanced. An effect is loaded
    at tick zero, and a run has fewer than `2 ^ 64` ticks, so its tick is a word of sixty-four
    bits. -/
structure Effect (α : Type) where
  scalars : Entries (Signal α)
  vectors : Entries (VectorSignal α)
  tick : Nat

namespace Effect

variable {α : Type}

/-- The effect without fields. -/
def empty : Effect α :=
  ⟨[], [], 0⟩

/-- Enters a signal; one of the same name is replaced in place. -/
def insertScalar (effect : Effect α) (name : String) (signal : Signal α) : Effect α :=
  { effect with scalars := effect.scalars.set name signal }

/-- Enters a vector signal; one of the same name is replaced in place. -/
def insertVector (effect : Effect α) (name : String) (signal : VectorSignal α) : Effect α :=
  { effect with vectors := effect.vectors.set name signal }

/-- The signal of a name. -/
def scalar? (effect : Effect α) (name : String) : Option (Signal α) :=
  effect.scalars.get? name

/-- The vector signal of a name. -/
def vector? (effect : Effect α) (name : String) : Option (VectorSignal α) :=
  effect.vectors.get? name

/-- The number of fields. -/
def size (effect : Effect α) : Nat :=
  effect.scalars.length + effect.vectors.length

/-! ## Advancing -/

section Refresh

variable {σ : Type} [Numeric α] [RandomSource σ α]

/-- The fields of a table after a step of each, carried out in turn. -/
def refreshEach {β : Type} (step : β → StateM σ β) : Entries β → StateM σ (Entries β)
  | [] => pure []
  | (name, field) :: rest => do
    let field ← step field
    let rest ← refreshEach step rest
    pure ((name, field) :: rest)

/-- The effect one tick later: its signals are refreshed first, then its vector signals. -/
def refresh (effect : Effect α) : StateM σ (Effect α) := do
  let scalars ← refreshEach Signal.refresh effect.scalars
  let vectors ← refreshEach VectorSignal.refresh effect.vectors
  pure ⟨scalars, vectors, effect.tick + 1⟩

/-- The effect a number of ticks later. -/
def refreshTimes : (ticks : Nat) → Effect α → StateM σ (Effect α)
  | 0, effect => pure effect
  | ticks + 1, effect => do refreshTimes ticks (← refresh effect)

/-- The effect after each of a number of ticks. -/
def samples : (ticks : Nat) → Effect α → StateM σ (List (Effect α))
  | 0, _ => pure []
  | ticks + 1, effect => do
    let effect ← refresh effect
    let rest ← samples ticks effect
    pure (effect :: rest)

end Refresh

/-! ## Comparison -/

/-- Whether two sets of named values agree, in the same order. -/
def sameFields {β : Type} (same : β → β → Bool) : Entries β → Entries β → Bool
  | [], [] => true
  | (name, a) :: rest, (name', b) :: rest' =>
    name == name' && same a b && sameFields same rest rest'
  | _, _ => false

/-- Whether two effects agree in every part. -/
def same [Numeric α] (a b : Effect α) : Bool :=
  sameFields Signal.same a.scalars b.scalars && sameFields VectorSignal.same a.vectors b.vectors
    && a.tick == b.tick

end Effect

end Modulation

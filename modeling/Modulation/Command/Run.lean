import Modulation.Binary64.Numeric
import Modulation.Command.Settings
import Modulation.Effect.Report

set_option autoImplicit false

/-! # Running an effect

A run advances an effect tick by tick. After each tick it records the values of all fields, if a
recording was asked for, and prints a status line when the settings say so; neither has a part in
the next tick. -/

namespace Modulation

/-- How far a run has come: the effect and the source of its random numbers, and what has been
    recorded and printed. -/
structure Run (σ : Type) where
  effect : Effect Float
  source : σ
  records : Array (Record Float)
  printed : Array String

namespace Run

variable {σ : Type} [RandomSource σ Float]

/-- A run before its first tick. -/
def start (effect : Effect Float) (source : σ) : Run σ :=
  ⟨effect, source, #[], #[]⟩

/-- The run after one more tick. -/
def step (settings : Settings) (recording : Bool) (run : Run σ) : Run σ :=
  let (effect, source) := (run.effect.refresh).run run.source
  { effect := effect
    source := source
    records := if recording then run.records ++ effect.records else run.records
    printed :=
      if settings.prints effect.tick then run.printed.push effect.statusLine else run.printed }

/-- The run after a number of ticks. -/
def steps (settings : Settings) (recording : Bool) : (ticks : Nat) → Run σ → Run σ
  | 0, run => run
  | ticks + 1, run => steps settings recording ticks (step settings recording run)

/-- The whole run of an effect. -/
def complete (settings : Settings) (recording : Bool) (effect : Effect Float) (source : σ) :
    Run σ :=
  steps settings recording settings.ticks.toNat (start effect source)

end Run

end Modulation

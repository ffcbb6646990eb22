import Modulation.Binary64.Numeric
import Modulation.Proofs.Signal.Agreement

set_option autoImplicit false

/-! # Reachable signals

A signal is reachable when it is read or built, and refreshed any number of times, with any numbers
drawn. The parts of a signal that is built may have been refreshed before.

What the building functions and a refresh keep holds of every reachable signal
(`Reachable.of_closed`); reachable signals are therefore coherent. -/

namespace Modulation.Signal

open Modulation.Config

variable {α : Type} [Numeric α]

/-- The signals that a program can come to hold. -/
inductive Reachable : Signal α → Prop where
  | read {entries : Section α} {key path : String} {default : Option α} {signal : Signal α}
      (h : (read entries key path default).result = .ok signal) : Reachable signal
  | ofSection {entries : Section α} {path : String} {signal : Signal α}
      (h : (ofSection entries path).result = .ok signal) : Reachable signal
  | ofPairs {number? : String → Option α} {tag : String} {pairs : List String} {path : String}
      {signal : Signal α} (h : (ofPairs number? tag pairs path).result = .ok signal) :
      Reachable signal
  | constant (value : α) : Reachable (constant value)
  | combine {op : Operator} {arguments : List (Signal α)} {signal : Signal α}
      (harguments : ∀ argument ∈ arguments, Reachable argument)
      (h : combine? op arguments = .ok signal) : Reachable signal
  | abs {inner : Signal α} (hinner : Reachable inner) : Reachable (abs inner)
  | clamp {low high inner : Signal α} (hlow : Reachable low) (hhigh : Reachable high)
      (hinner : Reachable inner) : Reachable (clamp low high inner)
  | wave {form : Waveform} {low high period : Signal α} (initial : α) (hlow : Reachable low)
      (hhigh : Reachable high) (hperiod : Reachable period) :
      Reachable (wave form low high period initial)
  | random {low high : Signal α} (hlow : Reachable low) (hhigh : Reachable high) :
      Reachable (random low high)
  | refreshed {σ : Type} [RandomSource σ α] {signal : Signal α} (source : σ)
      (h : Reachable signal) : Reachable (refresh signal source).1

theorem Reachable.sub {minuend subtrahend : Signal α} (hminuend : minuend.Reachable)
    (hsubtrahend : subtrahend.Reachable) :
    (Signal.combine .sub [minuend, subtrahend]).Reachable := by
  have hcombine : combine? .sub [minuend, subtrahend]
      = .ok (Signal.combine .sub [minuend, subtrahend]) := rfl
  exact .combine (List.forall_mem_cons.2 ⟨hminuend, List.forall_mem_singleton.2 hsubtrahend⟩) hcombine

/-- What building and refreshing keep holds of every reachable signal. -/
theorem Reachable.of_closed {P : Signal α → Prop} (hP : Closed P)
    (hrefresh : ∀ {σ : Type} [RandomSource σ α] {signal : Signal α} (source : σ),
      P signal → P (refresh signal source).1) {signal : Signal α} (h : signal.Reachable) :
    P signal := by
  induction h with
  | read h => exact (gives_read hP _ _ _ _).of_result h
  | ofSection h => exact (gives_ofValue hP.composes _ _).of_result h
  | ofPairs h => exact (gives_ofPairs hP _ _ _ _).of_result h
  | constant value => exact hP.constant value
  | combine _ h ih =>
    obtain ⟨hadmits, rfl⟩ := combine?_eq_ok_iff.1 h
    exact hP.combine hadmits ih
  | abs _ ih => exact hP.abs ih
  | clamp _ _ _ ihLow ihHigh ihInner => exact hP.clamp ihLow ihHigh ihInner
  | wave initial _ _ _ ihLow ihHigh ihPeriod => exact hP.wave initial ihLow ihHigh ihPeriod
  | random _ _ ihLow ihHigh => exact hP.random ihLow ihHigh
  | refreshed source _ ih => exact hrefresh source ih

theorem Reachable.coherent [Numeric.Lawful α] {signal : Signal α} (h : signal.Reachable) :
    signal.Coherent :=
  h.of_closed coherent_closed fun source hcoherent => coherent_refresh hcoherent source

/-! ## A ramp -/

/-- A ramp from zero to one that takes four ticks. -/
def ramp : Signal Float :=
  wave .cycle (constant 0.0) (constant 1.0) (constant 4.0) 0.0

/-- The ramp one tick later. -/
def rampLater : Signal Float :=
  periodic .cycle (constant 0.0) (constant 1.0) (constant 4.0) 0.25 0.25

theorem ramp_reachable : ramp.Reachable :=
  .wave _ (.constant _) (.constant _) (.constant _)

theorem refresh_ramp {σ : Type} [RandomSource σ Float] (source : σ) :
    refresh ramp source = (rampLater, source) := by
  have hbounds : ordered (constant (0.0 : Float)) (constant 1.0) = (constant 0.0, constant 1.0) :=
    if_neg (by decide +kernel)
  have hphase : nextPhase (startPhase 0.0 1.0) 1.0 4.0 = (0.25 : Float) := by decide +kernel
  have hlevel : Numeric.lerp 0.0 1.0 0.25 = (0.25 : Float) := by decide +kernel
  rw [ramp, wave, atPhase, hbounds]
  show (atPhase .cycle (constant 0.0) (constant 1.0) (constant 4.0)
    (nextPhase (startPhase 0.0 1.0) 1.0 4.0), source) = _
  rw [hphase, atPhase, hbounds]
  show (periodic _ _ _ _ _ (Numeric.lerp 0.0 1.0 0.25), source) = _
  rw [hlevel, rampLater]

end Modulation.Signal

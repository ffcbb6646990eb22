import Modulation.Proofs.Signal.SavedPhases
import Modulation.Proofs.VectorSignal.Phases

set_option autoImplicit false

/-! # Phases in vector signals that are written and read

As for periodic signals, the phase of a rotation comes back as its distance from zero.
`phases_saved` says of every signal and every vector signal that a program can come to hold what
becomes of the phases in it, and that it has the same values as before, now and after every tick, if
no phase in it is the zero with a sign. -/

namespace Modulation.VectorSignal

open Modulation.Config Binary64

/-- If the vector signal has a phase that is a number, the phase comes back, as it does for
    signals. -/
def SavesPhase (signal : VectorSignal Float) : Prop :=
  ∀ lap, signal.lap? = some lap → lap.phase.isNaN = false →
    ∀ {entries : Section Float} {key : String}, entries.get? key = some signal.toValue
        ∨ entries.get? key = some signal.toValue.arranged →
      ∀ (path : String) (default : Option (Vec3 Float)),
        ∃ later again, read entries key path default = .ok later ∧ later.lap? = some again
          ∧ lap.ComesBackAs again

/-- A vector signal with a lap is a rotation, and built anew it has the phase at which it starts. -/
theorem lap?_rebuilt {signal : VectorSignal Float} {lap : Lap} (hlap : signal.lap? = some lap)
    (arrange : List (Signal Float) → List (Signal Float)) :
    IsLap lap.range 1023 ∧ ∃ again, (rebuilt arrange signal).lap? = some again
      ∧ again.range = lap.range ∧ again.phase = startPhase lap.phase lap.range := by
  cases signal with
  | rotated about period radius phase value =>
    cases hlap
    exact ⟨isLap_one, _, rfl, rfl, rfl⟩
  | _ => cases hlap

theorem SavesPhase.of_coherent {signal : VectorSignal Float} (hcoherent : signal.Coherent)
    (hphase : signal.PhaseInLap) : signal.SavesPhase := by
  intro lap hlap hnumber entries key hvalue path default
  rcases hvalue with hvalue | hvalue
  · have hreads := reads_page keeps_id Signal.arranges_id hcoherent
    obtain ⟨hrange, again, hagain, hsame, hstart⟩ := lap?_rebuilt hlap id
    exact ⟨_, again, read_of_holdsAt ⟨_, hvalue, hreads⟩ path default, hagain,
      Lap.comesBackAs hrange (hphase lap hlap) hnumber hsame hstart⟩
  · have hreads := reads_page keeps_arranged Signal.arranges_numbersFirst hcoherent
    obtain ⟨hrange, again, hagain, hsame, hstart⟩ := lap?_rebuilt hlap Signal.numbersFirst
    exact ⟨_, again, read_of_holdsAt ⟨_, hvalue, hreads⟩ path default, hagain,
      Lap.comesBackAs hrange (hphase lap hlap) hnumber hsame hstart⟩

/-! ## Vector signals without a signed zero -/

/-- The phase of a rotation is not the zero with a sign. -/
def UnsignedPhase (signal : VectorSignal Float) : Prop :=
  signal.phase? ≠ some (-0.0)

theorem keepsPhase_iff {signal : VectorSignal Float} (h : signal.PhaseInLap) :
    signal.KeepsPhase ↔ signal.UnsignedPhase := by
  cases signal with
  | rotated about period radius phase value =>
    have hphase : InLap rotationRange phase := h ⟨rotationRange, phase, period⟩ rfl
    show startPhase phase rotationRange = phase ↔ some phase ≠ some (-0.0)
    rw [Ne, Option.some.injEq]
    exact isLap_one.startPhase_eq_self_iff hphase
  | _ => exact iff_of_true trivial (Option.some_ne_none _).symm

/-- A reachable vector signal without a signed zero is read as it was written, but for the vectors
    of three constants in it. -/
theorem read_written {signal : VectorSignal Float} (h : signal.Reachable)
    (hunsigned : signal.Everywhere UnsignedPhase Signal.UnsignedPhase) (entries : Section Float)
    (key path : String) (default : Option (Vec3 Float)) :
    read (signal.write entries key) key path default = .ok signal.collapsed := by
  have hphases : signal.KeepsPhases :=
    (h.phaseInLap.and hunsigned).mono (fun _ hpart => (keepsPhase_iff hpart.1).2 hpart.2)
      fun _ hpart => (Signal.keepsPhase_iff hpart.1).2 hpart.2
  have hvalue : (signal.write entries key).get? key = some signal.toValue := by
    rw [write, Entries.get?_set, if_pos rfl]
  exact read_of_holdsAt ⟨_, hvalue, reads_toValue h.coherent hphases⟩ path default

/-- Every phase that is a number, in every signal and every vector signal that a program can come to
    hold, comes back as its distance from zero when what is written is read, which is the same
    double unless the phase is the zero with a sign. A signal comes back as it was just when no
    phase in it is that zero, and so a vector signal comes back with the values that it had, now and
    after every tick. -/
theorem phases_saved {scalar : Signal Float} {vector : VectorSignal Float}
    (hscalar : scalar.Reachable) (hvector : vector.Reachable) :
    scalar.Everywhere Signal.SavesPhase
      ∧ vector.Everywhere SavesPhase Signal.SavesPhase
      ∧ (∀ entries key path default,
          Signal.read (scalar.write entries key) key path default = .ok scalar
            ↔ scalar.Everywhere Signal.UnsignedPhase)
      ∧ (vector.Everywhere UnsignedPhase Signal.UnsignedPhase → ∀ entries key path default,
          ∃ later, read (vector.write entries key) key path default = .ok later
            ∧ later.value = vector.value
            ∧ ∀ {σ : Type} [RandomSource σ Float] (ticks : Nat) (source : σ),
              (samples ticks later source).1.map value
                = (samples ticks vector source).1.map value) := by
  refine ⟨?_, ?_, Signal.read_written_eq_iff hscalar, ?_⟩
  · exact (hscalar.coherent.parts.and hscalar.phaseInLap).mono fun _ hpart =>
      Signal.SavesPhase.of_coherent hpart.1 hpart.2
  · exact (hvector.coherent.parts.and hvector.phaseInLap).mono
      (fun _ hpart => SavesPhase.of_coherent hpart.1 hpart.2)
      fun _ hpart => Signal.SavesPhase.of_coherent hpart.1 hpart.2
  · intro hunsigned entries key path default
    refine ⟨_, read_written hvector hunsigned entries key path default, collapsed_value vector, ?_⟩
    intro σ _ ticks source
    rw [samples_collapsed hvector.coherent, List.map_map]
    exact List.map_congr_left fun later _ => collapsed_value later

/-- A rotation whose radius is a ramp one tick after the start. -/
def widening : VectorSignal Float :=
  rotate (constant Vec3.up) (.constant 4.0) Signal.rampLater 0.25

theorem rampLater_reachable : Signal.rampLater.Reachable := by
  have hlater : (Signal.refresh Signal.ramp (fun _ => 0.5 : Draws Float)).1 = Signal.rampLater := by
    rw [Signal.refresh_ramp]
  rw [← hlater]
  exact Signal.ramp_reachable.refreshed _

theorem widening_reachable : widening.Reachable :=
  .rotate _ (.constant _) (.constant _) rampLater_reachable

theorem rampLater_unsigned : Signal.rampLater.Everywhere Signal.UnsignedPhase := by
  have hphase : Signal.rampLater.UnsignedPhase := by
    show some (0.25 : Float) ≠ some (-0.0)
    decide +kernel
  exact .periodic hphase (.constant nofun) (.constant nofun) (.constant nofun)

theorem widening_unsigned : widening.Everywhere UnsignedPhase Signal.UnsignedPhase := by
  have hphase : widening.UnsignedPhase := by
    show some (startPhase (0.25 : Float) 1.0) ≠ some (-0.0)
    decide +kernel
  exact .rotated hphase (.constant nofun) (.constant nofun) rampLater_unsigned

/-- What holds of saved phases holds of those of the ramp and of the rotation, and of the phase that
    does not come back as the same double. -/
theorem widening_saved :
    (Signal.retrogradeLater.Reachable ∧ Signal.rampLater.Reachable ∧ widening.Reachable
        ∧ widening.Everywhere UnsignedPhase Signal.UnsignedPhase)
      ∧ Signal.retrogradeLater.Everywhere Signal.SavesPhase
      ∧ widening.Everywhere SavesPhase Signal.SavesPhase
      ∧ Signal.read (Signal.rampLater.write [] "size") "size" "" none = .ok Signal.rampLater
      ∧ ∃ later, read (widening.write [] "path") "path" "" none = .ok later
        ∧ later.value = widening.value := by
  obtain ⟨-, hsaved, hread, hvalues⟩ := phases_saved rampLater_reachable widening_reachable
  obtain ⟨later, hlater, hvalue, -⟩ := hvalues widening_unsigned [] "path" "" none
  exact ⟨⟨Signal.retrogradeLater_reachable, rampLater_reachable, widening_reachable,
      widening_unsigned⟩,
    (phases_saved Signal.retrogradeLater_reachable widening_reachable).1, hsaved,
    (hread [] "size" "" none).2 rampLater_unsigned, later, hlater, hvalue⟩

end Modulation.VectorSignal

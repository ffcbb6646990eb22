import Modulation.Proofs.Signal.Phases

set_option autoImplicit false

/-! # Phases that are written and read

The phase of a signal is written as it is, but reading takes its distance from zero. In its lap a
phase is not negative, so that this is the same number. It is the same double, too, unless it is the
zero with a sign, at which a signal can arrive by a step back (`retrogradeLater`).

A signal is therefore read as it was written just when no phase in it is that zero
(`rebuilt_eq_self_iff`). -/

namespace Modulation

open Binary64

/-- What a lap comes back as: at the same range, with the distance of its phase from zero, which is
    the same number, and the same double unless the phase is the zero with a sign. -/
structure Lap.ComesBackAs (lap again : Lap) : Prop where
  range : again.range = lap.range
  phase : again.phase = lap.phase.abs
  number : (again.phase == lap.phase) = true
  double : again.phase = lap.phase ↔ lap.phase ≠ -0.0

/-- A signal that starts at a number in its lap starts at its distance from zero. -/
theorem Lap.comesBackAs {lap again : Lap} {biased : Nat} (hlap : IsLap lap.range biased)
    (hphase : InLap lap.range lap.phase) (hnumber : lap.phase.isNaN = false)
    (hrange : again.range = lap.range) (hagain : again.phase = startPhase lap.phase lap.range) :
    lap.ComesBackAs again := by
  rcases hphase with hnan | ⟨hzero, hdistance⟩
  · rw [hnumber] at hnan
    cases hnan
  · have hstart := hlap.startPhase_of_inLap hzero hdistance
    have hdouble := hlap.abs_eq_self_iff hzero hdistance
    rw [hstart] at hagain
    refine ⟨hrange, hagain, ?_, hagain ▸ hdouble⟩
    rw [hagain]
    by_cases hsigned : lap.phase = -0.0
    · rw [hsigned]
      decide +kernel
    · rw [hdouble.2 hsigned]
      exact beq_of_not_lt hnumber hnumber (fun h => float_lt_asymm h h) fun h =>
        float_lt_asymm h h

namespace Signal

open Modulation.Config

/-- If the signal has a phase that is a number, the phase comes back when what is written of the
    signal is read, wherever it stands and in whatever order a page puts it. -/
def SavesPhase (signal : Signal Float) : Prop :=
  ∀ lap, signal.lap? = some lap → lap.phase.isNaN = false →
    ∀ {entries : Section Float} {key : String}, entries.get? key = some signal.toValue
        ∨ entries.get? key = some signal.toValue.arranged →
      ∀ (path : String) (default : Option Float),
        ∃ later again, read entries key path default = .ok later ∧ later.lap? = some again
          ∧ lap.ComesBackAs again

/-- The phase of a signal built anew is the one at which it starts. -/
theorem lap?_rebuilt {signal : Signal Float} {lap : Lap} (hlap : signal.lap? = some lap)
    (arrange : List (Signal Float) → List (Signal Float)) :
    ∃ again, (rebuilt arrange signal).lap? = some again ∧ again.range = lap.range
      ∧ again.phase = startPhase lap.phase lap.range := by
  cases signal with
  | periodic form low high period phase value =>
    cases hlap
    exact ⟨_, rfl, rfl, rfl⟩
  | _ => cases hlap

theorem exists_isLap_of_lap? {signal : Signal Float} {lap : Lap} (hlap : signal.lap? = some lap) :
    ∃ biased, IsLap lap.range biased := by
  cases signal with
  | periodic form _ _ _ _ _ =>
    cases hlap
    exact exists_isLap form
  | _ => cases hlap

theorem SavesPhase.of_coherent {signal : Signal Float} (hcoherent : signal.Coherent)
    (hphase : signal.PhaseInLap) : signal.SavesPhase := by
  intro lap hlap hnumber entries key hvalue path default
  obtain ⟨_, hrange⟩ := exists_isLap_of_lap? hlap
  rcases hvalue with hvalue | hvalue
  · have hreads := reads_page keeps_id arranges_id hcoherent
    obtain ⟨again, hagain, hsame, hstart⟩ := lap?_rebuilt hlap id
    exact ⟨_, again, read_of_holdsAt ⟨_, hvalue, hreads⟩ path default, hagain,
      Lap.comesBackAs hrange (hphase lap hlap) hnumber hsame hstart⟩
  · have hreads := reads_page keeps_arranged arranges_numbersFirst hcoherent
    obtain ⟨again, hagain, hsame, hstart⟩ := lap?_rebuilt hlap numbersFirst
    exact ⟨_, again, read_of_holdsAt ⟨_, hvalue, hreads⟩ path default, hagain,
      Lap.comesBackAs hrange (hphase lap hlap) hnumber hsame hstart⟩

/-! ## Signals without a signed zero -/

/-- The phase of a signal is not the zero with a sign. -/
def UnsignedPhase (signal : Signal Float) : Prop :=
  signal.phase? ≠ some (-0.0)

theorem keepsPhase_iff {signal : Signal Float} (h : signal.PhaseInLap) :
    signal.KeepsPhase ↔ signal.UnsignedPhase := by
  cases signal with
  | periodic form low high period phase value =>
    obtain ⟨_, hlap⟩ := exists_isLap form
    have hphase : InLap form.range phase := h ⟨form.range, phase, period⟩ rfl
    show startPhase phase form.range = phase ↔ some phase ≠ some (-0.0)
    rw [Ne, Option.some.injEq]
    exact hlap.startPhase_eq_self_iff hphase
  | _ => exact iff_of_true trivial (Option.some_ne_none _).symm

theorem everywhere_keepsPhase_iff {signal : Signal Float} (h : signal.Everywhere PhaseInLap) :
    signal.Everywhere KeepsPhase ↔ signal.Everywhere UnsignedPhase := by
  constructor
  · intro hkeeps
    exact (h.and hkeeps).mono fun _ hpart => (keepsPhase_iff hpart.1).1 hpart.2
  · intro hunsigned
    exact (h.and hunsigned).mono fun _ hpart => (keepsPhase_iff hpart.1).2 hpart.2

/-- A signal is built anew as it was just when no phase in it is the zero with a sign. -/
theorem rebuilt_eq_self_iff {signal : Signal Float} (hcoherent : signal.Coherent)
    (hphases : signal.Everywhere PhaseInLap) :
    rebuilt id signal = signal ↔ signal.Everywhere UnsignedPhase := by
  rw [← everywhere_keepsPhase_iff hphases]
  constructor
  · intro hself
    have hkeeps : (rebuilt id signal).Everywhere KeepsPhase :=
      closed_rebuilt keepsPhase_closed arranges_id.perm hcoherent
    rwa [hself] at hkeeps
  · intro hkeeps
    exact rebuilt_eq_self hcoherent hkeeps (hcoherent.mono fun part _ => isArranged_id part)

/-- A reachable signal is read as it was written just when no phase in it is the zero with a
    sign. -/
theorem read_written_eq_iff {signal : Signal Float} (h : signal.Reachable)
    (entries : Section Float) (key path : String) (default : Option Float) :
    read (signal.write entries key) key path default = .ok signal
      ↔ signal.Everywhere UnsignedPhase := by
  have hvalue : (signal.write entries key).get? key = some signal.toValue := by
    rw [write, Entries.get?_set, if_pos rfl]
  have hreads := reads_page keeps_id arranges_id h.coherent
  rw [read_of_holdsAt ⟨_, hvalue, hreads⟩ path default,
    ← rebuilt_eq_self_iff h.coherent h.phaseInLap]
  simp [Reading.ok]

/-! ## A step back -/

/-- The reciprocal of a cycle that goes back by a lap at every tick. -/
def retrograde : Signal Float :=
  combine .div
    [constant 1.0, wave .cycle (constant (-0.0)) (constant 1.0) (constant (-1.0)) 0.0]

/-- The same one tick later: the phase is the zero with a sign. -/
def retrogradeLater : Signal Float :=
  combined .div
    [constant 1.0, periodic .cycle (constant (-0.0)) (constant 1.0) (constant (-1.0)) (-0.0) (-0.0)]
    (-Numeric.infinity)

theorem retrograde_reachable : retrograde.Reachable := by
  have hcombine : combine? .div
      [constant 1.0, wave .cycle (constant (-0.0)) (constant 1.0) (constant (-1.0)) 0.0]
      = .ok retrograde := rfl
  refine .combine (List.forall_mem_cons.2 ⟨.constant _, List.forall_mem_singleton.2 ?_⟩) hcombine
  exact .wave _ (.constant _) (.constant _) (.constant _)

theorem refresh_retrograde {σ : Type} [RandomSource σ Float] (source : σ) :
    refresh retrograde source = (retrogradeLater, source) := by
  have hbounds : ordered (constant (-0.0 : Float)) (constant 1.0)
      = (constant (-0.0), constant 1.0) := if_neg (by decide +kernel)
  have hphase : nextPhase (startPhase 0.0 1.0) 1.0 (-1.0) = (-0.0 : Float) := by decide +kernel
  have hlevel : Numeric.lerp (-0.0) 1.0 (-0.0) = (-0.0 : Float) := by decide +kernel
  have hvalue : 1.0 / (-0.0) = (-Numeric.infinity : Float) := by decide +kernel
  rw [retrograde, combine, wave, atPhase, hbounds]
  show (combine .div [constant 1.0, atPhase .cycle (constant (-0.0)) (constant 1.0)
    (constant (-1.0)) (nextPhase (startPhase 0.0 1.0) 1.0 (-1.0))], source) = _
  rw [hphase, atPhase, hbounds]
  show (combined .div [constant 1.0, periodic _ _ _ _ _ (Numeric.lerp (-0.0) 1.0 (-0.0))]
    (1.0 / Numeric.lerp (-0.0) 1.0 (-0.0)), source) = _
  rw [hlevel, hvalue, retrogradeLater]

theorem retrogradeLater_reachable : retrogradeLater.Reachable := by
  have hlater : (refresh retrograde (fun _ => 0.5 : Draws Float)).1 = retrogradeLater := by
    rw [refresh_retrograde]
  rw [← hlater]
  exact retrograde_reachable.refreshed _

/-- The phase comes back as the zero without a sign, and the reciprocal as the opposite infinity. -/
theorem retrogradeLater_read :
    retrogradeLater.Reachable
      ∧ (∃ lap, (periodic .cycle (constant (-0.0)) (constant 1.0) (constant (-1.0)) (-0.0)
            (-0.0)).lap? = some lap ∧ lap.phase.isNaN = false ∧ lap.phase = -0.0)
      ∧ ∃ later, read (retrogradeLater.write [] "field") "field" "" none = .ok later
        ∧ retrogradeLater.value = -Numeric.infinity ∧ later.value = Numeric.infinity
        ∧ later.value ≠ retrogradeLater.value := by
  have hreads := reads_page keeps_id arranges_id retrogradeLater_reachable.coherent
  have hvalue : (retrogradeLater.write [] "field").get? "field" = some retrogradeLater.toValue :=
    rfl
  have hread := read_of_holdsAt ⟨_, hvalue, hreads⟩ "" none
  refine ⟨retrogradeLater_reachable, ⟨_, rfl, by decide +kernel, rfl⟩, _, hread, rfl, ?_, ?_⟩
  all_goals decide +kernel

end Signal

end Modulation

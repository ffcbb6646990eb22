import Modulation.Proofs.Signal.Waveforms
import Modulation.Proofs.VectorSignal.Reachable

set_option autoImplicit false

/-! # Waveforms and rotations in exact arithmetic

`waveforms_stay_within` says that over the rationals waveforms and random signals never leave their
bounds, in every signal and every vector signal. `laps_repeat` says of waveforms and rotations whose
lap takes a whole number of ticks that after the first lap they go on in the same laps for ever. -/

namespace Modulation.VectorSignal

/-! ## Values between bounds -/

section Between

variable {f : ExactFunctions}

/-- The waveforms in a reachable vector signal are between their bounds. -/
theorem Reachable.waveWithin {signal : VectorSignal (Exact f)} (h : signal.Reachable) :
    signal.Everywhere (fun _ => True) Signal.WaveWithin := by
  have hclosed : Signal.Closed (Signal.Everywhere (Signal.WaveWithin (α := Exact f))) :=
    Signal.waveWithin_closed
  exact h.of_closed (everywhere_closed (fun _ _ _ _ => trivial) fun _ _ => trivial) hclosed
    Signal.Reachable.waveWithin fun source _ =>
      everywhere_refresh (fun _ _ _ _ => trivial) (fun _ _ => trivial) Signal.waveWithin_refresh _
        source

theorem within_refreshTimes (ticks : Nat) (signal : VectorSignal (Exact f)) (shares : Shares f) :
    (refreshTimes (ticks + 1) signal shares).1.Everywhere (fun _ => True) Signal.Within := by
  induction ticks generalizing signal shares with
  | zero =>
    exact everywhere_refresh (fun _ _ _ _ => trivial) (fun _ _ => trivial) Signal.within_refresh
      signal shares
  | succ ticks ih => exact ih _ _

/-- Over the rationals the value of a waveform lies between its bounds, in every signal and vector
    signal that a program can come to hold: when it is just built and after every refresh, whatever
    the bounds and the period do and whatever numbers are drawn. The bounds and the period of a
    waveform may be any signals. The value of a random signal lies between its bounds after every
    refresh in which the numbers drawn are in `[0, 1)`. -/
theorem waveforms_stay_within :
    ((∀ {signal : Signal (Exact f)}, signal.Reachable → signal.Everywhere Signal.WaveWithin)
        ∧ ∀ {signal : VectorSignal (Exact f)}, signal.Reachable →
          signal.Everywhere (fun _ => True) Signal.WaveWithin)
      ∧ (∀ form (low high period : Signal (Exact f)) (initial : Exact f) (ticks : Nat) {σ : Type}
          [RandomSource σ (Exact f)] (source : σ),
          ((Signal.wave form low high period initial).refreshTimes ticks source).1.Within)
      ∧ ∀ (ticks : Nat) (shares : Shares f),
        (∀ signal : Signal (Exact f),
            (signal.refreshTimes (ticks + 1) shares).1.Everywhere Signal.Within)
          ∧ ∀ signal : VectorSignal (Exact f),
            (signal.refreshTimes (ticks + 1) shares).1.Everywhere (fun _ => True)
              Signal.Within := by
  refine ⟨⟨fun h => h.waveWithin, fun h => h.waveWithin⟩, ?_, fun ticks shares => ⟨?_, ?_⟩⟩
  · intro form low high period initial ticks σ _ source
    have hstart := Exact.inLap_startPhase (Exact.one_le_range form) initial
    exact Signal.within_refreshTimes_atPhase ticks hstart source
  · exact fun signal => Signal.within_refreshTimes ticks signal shares
  · exact fun signal => within_refreshTimes ticks signal shares

end Between

/-- An exact number system whose sine rises like a saw. -/
def saw : ExactFunctions where
  sqrt _ := 0
  sin x := Int.fract x
  cos _ := 0
  infinity := 0
  nan := 0
  abs_sin_le x := abs_le.2 ⟨by linarith [Int.fract_nonneg x], (Int.fract_lt_one x).le⟩

/-- Halves, without end. -/
def halves : Shares saw where
  draws _ := ⟨1 / 2⟩
  nonneg _ := by norm_num
  lt_one _ := by norm_num

/-- A pulse that runs backwards between a ramp and a fixed bound that the ramp crosses. -/
def crossing : Signal (Exact saw) :=
  .wave .pulse (.wave .cycle (.constant ⟨0⟩) (.constant ⟨2⟩) (.constant ⟨4⟩) ⟨0⟩) (.constant ⟨1⟩)
    (.constant ⟨-3⟩) ⟨1 / 4⟩

theorem crossing_reachable : crossing.Reachable :=
  .wave _ (.wave _ (.constant _) (.constant _) (.constant _)) (.constant _) (.constant _)

theorem crossing_stays_within :
    (crossing.Reachable ∧ (components crossing crossing crossing).Reachable)
      ∧ (crossing.Everywhere Signal.WaveWithin
        ∧ (components crossing crossing crossing).Everywhere (fun _ => True) Signal.WaveWithin)
      ∧ (crossing.refreshTimes 3 (fun _ => ⟨5⟩ : Draws (Exact saw))).1.Within
      ∧ ((Signal.random crossing (.constant ⟨1⟩)).refreshTimes (2 + 1) halves).1.Everywhere
        Signal.Within := by
  have hcomponents := Reachable.components crossing_reachable crossing_reachable crossing_reachable
  exact ⟨⟨crossing_reachable, hcomponents⟩,
    ⟨waveforms_stay_within.1.1 crossing_reachable, waveforms_stay_within.1.2 hcomponents⟩,
    waveforms_stay_within.2.1 _ _ _ _ _ 3 _, (waveforms_stay_within.2.2 2 halves).1 _⟩

/-! ## Laps -/

section Laps

variable {α σ : Type} [Numeric α] [RandomSource σ α]

/-- Where the period is constant, the axis and the radius do not change the phases. -/
theorem phase?_refreshTimes_atPhase (about : VectorSignal α) (radius : Signal α) (period phase : α)
    (ticks : Nat) (source : σ) :
    (refreshTimes ticks (atPhase about (.constant period) radius phase) source).1.phase?
      = some (phases rotationRange period phase ticks) := by
  induction ticks generalizing about radius phase source with
  | zero => rfl
  | succ ticks ih => exact ih _ _ _ _

/-- Where the axis and the radius are constant as well, only the phase moves. -/
theorem refreshTimes_atPhase (about : Vec3 α) (radius period phase : α) (ticks : Nat) :
    (refreshTimes ticks (atPhase (constant about) (.constant period) (.constant radius) phase) :
        StateM σ _)
      = pure (atPhase (constant about) (.constant period) (.constant radius)
          (phases rotationRange period phase ticks)) := by
  induction ticks generalizing phase with
  | zero => rfl
  | succ ticks ih => exact ih _

end Laps

section Exact

variable {f : ExactFunctions}

theorem one_le_rotationRange : 1 ≤ (rotationRange : Exact f).rat := by
  rw [rotationRange, Exact.rat_one]

/-- Over the rationals, where a lap takes a whole number of ticks that are each no shorter than the
    snap distance, the phases of a waveform or a rotation with any initial progress keep to `Laps`,
    whatever its other parts are and do. If these are constant, the whole signal is after every lap
    but the first what it was before. -/
theorem laps_repeat {ticks : Nat} (hpos : 1 ≤ ticks) (hmost : ticks ≤ 10 ^ 9) (initial : Exact f)
    {σ : Type} [RandomSource σ (Exact f)] (source : σ) :
    ((∀ form (low high : Signal (Exact f)),
          Exact.RunsInLaps form.range ticks fun n =>
            ((Signal.wave form low high (.constant (Numeric.ofInt ticks)) initial).refreshTimes n
              source).1.phase?)
        ∧ ∀ (about : VectorSignal (Exact f)) (radius : Signal (Exact f)),
          Exact.RunsInLaps rotationRange ticks fun n =>
            ((rotate about (.constant (Numeric.ofInt ticks)) radius initial).refreshTimes n
              source).1.phase?)
      ∧ (∀ form (low high : Exact f),
          Repeats ticks fun n =>
            (Signal.wave form (.constant low) (.constant high) (.constant (Numeric.ofInt ticks))
              initial).refreshTimes n source)
        ∧ ∀ (about : Vec3 (Exact f)) (radius : Exact f),
          Repeats ticks fun n =>
            (rotate (constant about) (.constant (Numeric.ofInt ticks)) (.constant radius)
              initial).refreshTimes n source := by
  have hwave := fun form : Waveform =>
    Exact.laps_startPhase (Exact.one_le_range form) hpos hmost initial
  have hrotate := Exact.laps_startPhase (f := f) one_le_rotationRange hpos hmost initial
  refine ⟨⟨fun form low high => ⟨_, fun n => ?_, hwave form⟩,
    fun about radius => ⟨_, fun n => ?_, hrotate⟩⟩, ?_, ?_⟩
  · exact Signal.phase?_refreshTimes_atPhase form low high _ _ n source
  · exact phase?_refreshTimes_atPhase about radius _ _ n source
  · intro form low high n hn
    have hstill : ∀ value : Exact f,
        (Signal.refresh (.constant value) : StateM σ _) = pure (.constant value) := fun _ => rfl
    have hrun := Signal.refreshTimes_atPhase form (hstill low) (hstill high) (Numeric.ofInt ticks)
      (startPhase initial form.range)
    simp only [Signal.wave, hrun, (hwave form).repeats n hn]
  · intro about radius n hn
    simp only [rotate, refreshTimes_atPhase, hrotate.repeats n hn]

end Exact

/-- The longest laps, from a start that is snapped at the end of the first of them. -/
theorem longest_laps_repeat :
    (1 ≤ 10 ^ 9 ∧ 10 ^ 9 ≤ 10 ^ 9)
      ∧ ((∀ form (low high : Signal (Exact saw)),
            Exact.RunsInLaps form.range (10 ^ 9) fun n =>
              ((Signal.wave form low high (.constant (Numeric.ofInt (10 ^ 9 : Nat)))
                ⟨1 / (2 * 10 ^ 9)⟩).refreshTimes n halves).1.phase?)
          ∧ ∀ (about : VectorSignal (Exact saw)) (radius : Signal (Exact saw)),
            Exact.RunsInLaps rotationRange (10 ^ 9) fun n =>
              ((rotate about (.constant (Numeric.ofInt (10 ^ 9 : Nat))) radius
                ⟨1 / (2 * 10 ^ 9)⟩).refreshTimes n halves).1.phase?)
      ∧ (∀ form (low high : Exact saw),
            Repeats (10 ^ 9) fun n =>
              (Signal.wave form (.constant low) (.constant high)
                (.constant (Numeric.ofInt (10 ^ 9 : Nat)))
                ⟨1 / (2 * 10 ^ 9)⟩).refreshTimes n halves)
          ∧ ∀ (about : Vec3 (Exact saw)) (radius : Exact saw),
            Repeats (10 ^ 9) fun n =>
              (rotate (constant about) (.constant (Numeric.ofInt (10 ^ 9 : Nat)))
                (.constant radius) ⟨1 / (2 * 10 ^ 9)⟩).refreshTimes n halves := by
  have hmost : (10 ^ 9 : Nat) ≤ 10 ^ 9 := le_rfl
  have hpos : (1 : Nat) ≤ 10 ^ 9 := by norm_num
  exact ⟨⟨hpos, hmost⟩, laps_repeat hpos hmost ⟨1 / (2 * 10 ^ 9)⟩ halves⟩

end Modulation.VectorSignal

import Modulation.Proofs.Rational.Lap
import Modulation.Proofs.Signal.Reachable

set_option autoImplicit false

/-! # Waveforms in exact arithmetic

Over the rationals a waveform never leaves its bounds, wherever they move and however fast: the
phase is in its lap after every tick, whatever the period is, and the bounds are put in order before
the value is computed (`within_atPhase`). The same holds of what a random signal draws
(`within_withLast`). Both are said of every signal in a signal, after any number of refreshes
(`within_refreshTimes`).

Where the period is constant, the phases of a waveform are those of `phases`, whatever its bounds do
(`phase?_refreshTimes_atPhase`); where the bounds stand still as well, the phase settles the whole
signal (`refreshTimes_atPhase`). -/

namespace Modulation.Signal

/-! ## Values between bounds -/

section Between

variable {α : Type} [Numeric α]

/-- The value of a periodic or random signal lies between its bounds. -/
def Within : Signal α → Prop
  | periodic _ low high _ _ value => low.value ≤ value ∧ value ≤ high.value
  | drawn low high _ value => low.value ≤ value ∧ value ≤ high.value
  | _ => True

/-- The value of a signal that has a phase lies between its bounds. -/
def WaveWithin (signal : Signal α) : Prop :=
  ∀ phase, signal.phase? = some phase → signal.Within

theorem WaveWithin.of_phase?_eq_none {signal : Signal α} (h : signal.phase? = none) :
    signal.WaveWithin := by
  intro phase hphase
  rw [h] at hphase
  cases hphase

end Between

variable {f : ExactFunctions}

theorem within_atPhase {form : Waveform} (low high period : Signal (Exact f)) {phase : Exact f}
    (hphase : Exact.InLap form.range phase) : (atPhase form low high period phase).Within := by
  obtain ⟨hlow, hhigh⟩ := Exact.level_between hphase
  exact Exact.lerp_between (inOrder_ordered low high) hlow hhigh

theorem within_wave (form : Waveform) (low high period : Signal (Exact f)) (initial : Exact f) :
    (wave form low high period initial).Within :=
  within_atPhase low high period (Exact.inLap_startPhase (Exact.one_le_range form) initial)

theorem within_next (form : Waveform) (low high period : Signal (Exact f)) (phase : Exact f) :
    (atPhase form low high period (nextPhase phase form.range period.value)).Within :=
  within_atPhase low high period (Exact.inLap_nextPhase (Exact.one_le_range form) phase _)

theorem within_withLast (low high : Signal (Exact f)) {share : Exact f} (hlow : 0 ≤ share.rat)
    (hhigh : share.rat < 1) :
    (withLast low high
      (Numeric.lerp (ordered low high).1.value (ordered low high).2.value share)).Within :=
  Exact.lerp_between (inOrder_ordered low high) hlow hhigh.le

theorem waveWithin_closed : Closed (Everywhere (WaveWithin (α := Exact f))) :=
  everywhere_closed
    (fun form low high period initial _ _ => within_wave form low high period initial)
    fun _ => .of_phase?_eq_none

theorem waveWithin_refresh {σ : Type} [RandomSource σ (Exact f)] (signal : Signal (Exact f))
    (source : σ) : (refresh signal source).1.Everywhere WaveWithin :=
  everywhere_refresh (fun form low high period phase _ _ => within_next form low high period phase)
    (fun _ => .of_phase?_eq_none) signal source

/-- The waveforms in a reachable signal are between their bounds. -/
theorem Reachable.waveWithin {signal : Signal (Exact f)} (h : signal.Reachable) :
    signal.Everywhere WaveWithin :=
  h.of_closed waveWithin_closed fun source _ => waveWithin_refresh _ source

section Refresh

variable {σ : Type} [RandomSource σ (Exact f)]

/-- A waveform is between its bounds after any number of refreshes, whatever its bounds and its
    period are and do. -/
theorem within_refreshTimes_atPhase {form : Waveform} (ticks : Nat)
    {low high period : Signal (Exact f)} {phase : Exact f}
    (hphase : Exact.InLap form.range phase) (source : σ) :
    (refreshTimes ticks (atPhase form low high period phase) source).1.Within := by
  induction ticks generalizing low high period phase source with
  | zero => exact within_atPhase low high period hphase
  | succ ticks ih => exact ih (Exact.inLap_nextPhase (Exact.one_le_range form) phase _) _

end Refresh

/-- After a refresh, the waveforms and the random signals in a signal are between their bounds. -/
theorem within_refresh (signal : Signal (Exact f)) :
    ∀ shares : Shares f, (refresh signal shares).1.Everywhere Within := by
  induction signal using partInduction with
  | constant value => exact fun _ => .constant trivial
  | combined op arguments value ih =>
    exact fun shares => .combined trivial (forall_refreshAll ih shares)
  | absolute inner value ih => exact fun shares => .absolute trivial (ih shares)
  | clamped low high inner value ihLow ihHigh ihInner =>
    intro shares
    obtain ⟨hfirst, hsecond⟩ := ordered_of_both (ihLow shares) (ihHigh (refresh low shares).2)
    exact .clamped trivial hfirst hsecond (ihInner _)
  | periodic form low high period phase value ihLow ihHigh ihPeriod =>
    intro shares
    obtain ⟨hfirst, hsecond⟩ := ordered_of_both (ihLow shares) (ihHigh (refresh low shares).2)
    exact .periodic (within_next form _ _ _ phase) hfirst hsecond (ihPeriod _)
  | drawn low high last value ihLow ihHigh =>
    intro shares
    obtain ⟨hfirst, hsecond⟩ := ordered_of_both (ihLow shares) (ihHigh (refresh low shares).2)
    -- The share is drawn after the bounds are refreshed.
    let later := (refresh high (refresh low shares).2).2
    exact .drawn (within_withLast _ _ (later.nonneg 0) (later.lt_one 0)) hfirst hsecond

theorem within_refreshTimes (ticks : Nat) (signal : Signal (Exact f)) (shares : Shares f) :
    (refreshTimes (ticks + 1) signal shares).1.Everywhere Within := by
  induction ticks generalizing signal shares with
  | zero => exact within_refresh signal shares
  | succ ticks ih => exact ih _ _

/-! ## Constant periods -/

section Laps

variable {α σ : Type} [Numeric α] [RandomSource σ α]

/-- Where the period is constant, the bounds do not change the phases. -/
theorem phase?_refreshTimes_atPhase (form : Waveform) (low high : Signal α) (period phase : α)
    (ticks : Nat) (source : σ) :
    (refreshTimes ticks (atPhase form low high (constant period) phase) source).1.phase?
      = some (phases form.range period phase ticks) := by
  induction ticks generalizing low high phase source with
  | zero => rfl
  | succ ticks ih => exact ih _ _ _ _

theorem ordered_ordered [Numeric.Lawful α] (low high : Signal α) :
    ordered (ordered low high).1 (ordered low high).2 = ordered low high :=
  ordered_eq_self (inOrder_ordered low high)

/-- Where the bounds stand still and the period is constant, only the phase moves. -/
theorem refreshTimes_atPhase [Numeric.Lawful α] (form : Waveform) {low high : Signal α}
    (hlow : (refresh low : StateM σ _) = pure low) (hhigh : (refresh high : StateM σ _) = pure high)
    (period phase : α) (ticks : Nat) :
    (refreshTimes ticks (atPhase form low high (constant period) phase) : StateM σ _)
      = pure (atPhase form low high (constant period) (phases form.range period phase ticks)) := by
  obtain ⟨hfirst, hsecond⟩ := ordered_of_both
    (P := fun signal => (refresh signal : StateM σ _) = pure signal) hlow hhigh
  induction ticks generalizing phase with
  | zero => rfl
  | succ ticks ih =>
    have hrefresh : (refresh (atPhase form low high (constant period) phase) : StateM σ _)
        = pure (atPhase form low high (constant period) (nextPhase phase form.range period)) := by
      simp only [atPhase, refresh, hfirst, hsecond, pure_bind, ordered_ordered, value]
    rw [refreshTimes, hrefresh, pure_bind, ih]
    rfl

end Laps

end Modulation.Signal

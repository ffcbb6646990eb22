import Modulation.Proofs.Signal.Phases
import Modulation.Proofs.VectorSignal.Page

set_option autoImplicit false

/-! # The phases in vector signals

As for periodic signals, the phase of a rotation is in its lap at every tick, or it is no number and
stays so. `phases_in_lap` says of every signal and every vector signal that a program can come to
hold that this holds of all phases in it, and when the phase of a new one is no number. -/

namespace Modulation.VectorSignal

open Modulation.Config Binary64

/-- The lap of a rotation. -/
def lap? : VectorSignal Float → Option Lap
  | rotated _ period _ phase _ => some ⟨rotationRange, phase, period⟩
  | _ => none

/-- The vector signal has a phase, and the phase is no number. -/
def Poisoned (signal : VectorSignal Float) : Prop :=
  ∃ lap, signal.lap? = some lap ∧ lap.phase.isNaN = true

/-- What holds of the lap of a rotation, as of that of a periodic signal. -/
structure LapLaw (signal : VectorSignal Float) (lap : Lap) : Prop where
  inLap : InLap lap.range lap.phase
  refreshed : ∀ {σ : Type} [RandomSource σ Float] (source : σ),
    ∃ next, (refresh signal source).1.lap? = some next ∧ next.range = lap.range
      ∧ (next.phase.isNaN = true ↔ lap.phase.isNaN = true ∨ ¬ next.step.isFinite = true)
  poisoned : lap.phase.isNaN = true →
    ∀ {σ : Type} [RandomSource σ Float] (ticks : Nat) (source : σ),
      (refreshTimes ticks signal source).1.Poisoned
  written : lap.phase.isNaN = true →
    ∀ (entries : Section Float) (key path : String) (default : Option (Vec3 Float)),
      ∃ later, read (signal.write entries key) key path default = .ok later ∧ later.Poisoned
  placed : lap.phase.isNaN = true →
    ∀ {entries : Section Float} {key : String}, entries.get? key = some signal.toValue
        ∨ entries.get? key = some signal.toValue.arranged →
      ∀ (path : String) (default : Option (Vec3 Float)),
        ∃ later, read entries key path default = .ok later ∧ later.Poisoned

/-- If the vector signal has a lap, what holds of laps holds of it. -/
def KeepsLap (signal : VectorSignal Float) : Prop :=
  ∀ lap, signal.lap? = some lap → signal.LapLaw lap

/-! ## Steps -/

theorem lap_refresh {signal : VectorSignal Float} {lap : Lap} (hlap : signal.lap? = some lap)
    (hphase : InLap lap.range lap.phase) {σ : Type} [RandomSource σ Float] (source : σ) :
    ∃ next, (refresh signal source).1.lap? = some next ∧ next.range = lap.range
      ∧ (next.phase.isNaN = true ↔ lap.phase.isNaN = true ∨ ¬ next.step.isFinite = true) := by
  cases signal with
  | rotated about period radius phase value =>
    cases hlap
    exact ⟨_, rfl, rfl, isLap_one.isNaN_nextPhase_iff hphase _⟩
  | _ => cases hlap

/-- A phase that is no number is none after a refresh. -/
theorem Poisoned.refresh {signal : VectorSignal Float} (h : signal.Poisoned) {σ : Type}
    [RandomSource σ Float] (source : σ) : (refresh signal source).1.Poisoned := by
  obtain ⟨lap, hlap, hnan⟩ := h
  obtain ⟨next, hnext, -, hiff⟩ := lap_refresh hlap (Or.inl hnan) source
  exact ⟨next, hnext, hiff.2 (Or.inl hnan)⟩

/-- A phase that is no number is none after any number of refreshes. -/
theorem Poisoned.refreshTimes {σ : Type} [RandomSource σ Float] (ticks : Nat)
    {signal : VectorSignal Float} (h : signal.Poisoned) (source : σ) :
    (refreshTimes ticks signal source).1.Poisoned := by
  induction ticks generalizing signal source with
  | zero => exact h
  | succ ticks ih => exact ih (h.refresh source) _

/-! ## Writing and reading -/

/-- A phase that is no number is none in the vector signal built anew. -/
theorem Poisoned.rebuilt {signal : VectorSignal Float} (h : signal.Poisoned)
    (arrange : List (Signal Float) → List (Signal Float)) :
    (signal.rebuilt arrange).Poisoned := by
  obtain ⟨lap, hlap, hnan⟩ := h
  cases signal with
  | rotated about period radius phase value =>
    cases hlap
    refine ⟨_, rfl, (isLap_one.isNaN_startPhase_iff phase).2 ?_⟩
    rw [not_isFinite_of_isNaN hnan]
    exact Bool.false_ne_true
  | _ => cases hlap

/-- What is written of a vector signal is read as one whose phase is no number either, off a page or
    on it. -/
theorem Poisoned.read_placed {signal : VectorSignal Float} (h : signal.Poisoned)
    (hcoherent : signal.Coherent) {entries : Section Float} {key : String}
    (hvalue : entries.get? key = some signal.toValue
      ∨ entries.get? key = some signal.toValue.arranged)
    (path : String) (default : Option (Vec3 Float)) :
    ∃ later, read entries key path default = .ok later ∧ later.Poisoned := by
  rcases hvalue with hvalue | hvalue
  · have hreads := reads_page keeps_id Signal.arranges_id hcoherent
    exact ⟨_, read_of_holdsAt ⟨_, hvalue, hreads⟩ path default, h.rebuilt id⟩
  · have hreads := reads_page keeps_arranged Signal.arranges_numbersFirst hcoherent
    exact ⟨_, read_of_holdsAt ⟨_, hvalue, hreads⟩ path default, h.rebuilt Signal.numbersFirst⟩

theorem Poisoned.read_written {signal : VectorSignal Float} (h : signal.Poisoned)
    (hcoherent : signal.Coherent) (entries : Section Float) (key path : String)
    (default : Option (Vec3 Float)) :
    ∃ later, read (signal.write entries key) key path default = .ok later ∧ later.Poisoned := by
  refine h.read_placed hcoherent (Or.inl ?_) path default
  rw [write, Entries.get?_set, if_pos rfl]

/-! ## Every reachable vector signal -/

/-- The phase of a rotation is in its lap. -/
def PhaseInLap (signal : VectorSignal Float) : Prop :=
  ∀ lap, signal.lap? = some lap → InLap lap.range lap.phase

theorem PhaseInLap.of_phase?_eq_none {signal : VectorSignal Float} (h : signal.phase? = none) :
    signal.PhaseInLap := by
  cases signal with
  | rotated _ _ _ phase _ => cases h
  | _ => exact nofun

theorem phaseInLap_wrapPhase (about : VectorSignal Float) (period radius : Signal Float)
    (phase : Float) :
    (atPhase about period radius (wrapPhase phase rotationRange)).PhaseInLap := by
  rintro _ ⟨⟩
  exact isLap_one.inLap_wrapPhase phase

theorem Reachable.phaseInLap {signal : VectorSignal Float} (h : signal.Reachable) :
    signal.Everywhere PhaseInLap Signal.PhaseInLap :=
  h.of_closed
    (everywhere_closed (fun about period radius _ => phaseInLap_wrapPhase about period radius _)
      fun _ => .of_phase?_eq_none)
    Signal.phaseInLap_closed Signal.Reachable.phaseInLap
    fun source _ =>
      everywhere_refresh (fun about period radius _ => phaseInLap_wrapPhase about period radius _)
        (fun _ => .of_phase?_eq_none) Signal.phaseInLap_refresh _ source

theorem KeepsLap.of_coherent {signal : VectorSignal Float} (hcoherent : signal.Coherent)
    (hphase : signal.PhaseInLap) : signal.KeepsLap := by
  intro lap hlap
  exact {
    inLap := hphase lap hlap
    refreshed := lap_refresh hlap (hphase lap hlap)
    poisoned := fun hnan _ _ ticks => Poisoned.refreshTimes ticks ⟨lap, hlap, hnan⟩
    written := fun hnan => Poisoned.read_written ⟨lap, hlap, hnan⟩ hcoherent
    placed := fun hnan => Poisoned.read_placed ⟨lap, hlap, hnan⟩ hcoherent }

theorem Reachable.keepsLap {signal : VectorSignal Float} (h : signal.Reachable) :
    signal.Everywhere KeepsLap Signal.KeepsLap :=
  (h.coherent.parts.and h.phaseInLap).mono (fun _ hpart => .of_coherent hpart.1 hpart.2)
    fun _ hpart => .of_coherent hpart.1 hpart.2

/-- The phase of a new periodic signal or rotation is no number just when its initial progress is not
    finite; and what holds of laps holds of every phase in every signal and every vector signal that
    a program can come to hold. -/
theorem phases_in_lap :
    (∀ (form : Waveform) (low high period : Signal Float) (initial : Float),
        ∃ lap, (Signal.wave form low high period initial).lap? = some lap
          ∧ (lap.phase.isNaN = true ↔ ¬ initial.isFinite = true))
      ∧ (∀ (about : VectorSignal Float) (period radius : Signal Float) (initial : Float),
        ∃ lap, (rotate about period radius initial).lap? = some lap
          ∧ (lap.phase.isNaN = true ↔ ¬ initial.isFinite = true))
      ∧ (∀ {signal : Signal Float}, signal.Reachable → signal.Everywhere Signal.KeepsLap)
      ∧ ∀ {signal : VectorSignal Float}, signal.Reachable →
        signal.Everywhere KeepsLap Signal.KeepsLap :=
  ⟨fun form _ _ _ initial => ⟨_, rfl, Signal.isNaN_startPhase_iff form initial⟩,
    fun _ _ _ initial => ⟨_, rfl, isLap_one.isNaN_startPhase_iff initial⟩,
    Signal.Reachable.keepsLap, Reachable.keepsLap⟩

/-- A rotation whose lap takes so little time that the step overflows. -/
def whirling : VectorSignal Float :=
  rotate (constant Vec3.up) (.constant 5e-324) Signal.stalled 0.25

theorem whirling_reachable : whirling.Reachable :=
  .rotate _ (.constant _) (.constant _) Signal.stalled_reachable

theorem refresh_whirling_poisoned {σ : Type} [RandomSource σ Float] (source : σ) :
    (refresh whirling source).1.Poisoned := by
  refine ⟨⟨1.0, nextPhase (startPhase 0.25 1.0) 1.0 5e-324, .constant 5e-324⟩, rfl, ?_⟩
  dsimp only
  decide +kernel

/-- The phases that are lost, that of the rotation and that of its radius, keep what holds of laps
    before and after. -/
theorem whirling_phases :
    (Signal.stalled.Reachable ∧ whirling.Reachable
        ∧ (refresh whirling (fun _ => 0.5 : Draws Float)).1.Reachable)
      ∧ Signal.stalled.Everywhere Signal.KeepsLap
      ∧ whirling.Everywhere KeepsLap Signal.KeepsLap
      ∧ (refresh whirling (fun _ => 0.5 : Draws Float)).1.Everywhere KeepsLap Signal.KeepsLap
      ∧ (Signal.refresh Signal.stalled (fun _ => 0.5 : Draws Float)).1.Poisoned
      ∧ (refresh whirling (fun _ => 0.5 : Draws Float)).1.Poisoned :=
  ⟨⟨Signal.stalled_reachable, whirling_reachable, .refreshed _ whirling_reachable⟩,
    phases_in_lap.2.2.1 Signal.stalled_reachable, phases_in_lap.2.2.2 whirling_reachable,
    phases_in_lap.2.2.2 (.refreshed _ whirling_reachable), Signal.refresh_stalled_poisoned _,
    refresh_whirling_poisoned _⟩

end Modulation.VectorSignal

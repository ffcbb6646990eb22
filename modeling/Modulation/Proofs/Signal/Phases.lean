import Modulation.Proofs.Binary64.Lap
import Modulation.Proofs.Signal.Page

set_option autoImplicit false

/-! # The phases of signals

The phase of a periodic signal is in its lap at every tick, or it is no number. It becomes no number
by a step that is not finite, and then it stays so: through every refresh, and when the signal is
written and read again. `KeepsLap` puts this together for one signal; `Reachable.keepsLap` says it of
every signal in every signal that a program can come to hold, whatever the periods do. -/

namespace Modulation

open Binary64

/-- The phase of a provider that has one, the length of its lap, and the signal for the number of
    ticks that a lap takes. -/
structure Lap where
  range : Float
  phase : Float
  period : Signal Float

/-- By how much a tick advances the phase. -/
def Lap.step (lap : Lap) : Float :=
  lap.range / lap.period.value

theorem exists_isLap (form : Waveform) : ∃ biased, IsLap form.range biased := by
  cases form with
  | pingPong => exact ⟨_, isLap_two⟩
  | cycle => exact ⟨_, isLap_one⟩
  | pulse => exact ⟨_, isLap_one⟩

namespace Signal

open Modulation.Config

/-- The lap of a signal that has a phase. -/
def lap? : Signal Float → Option Lap
  | periodic form _ _ period phase _ => some ⟨form.range, phase, period⟩
  | _ => none

/-- The signal has a phase, and the phase is no number. -/
def Poisoned (signal : Signal Float) : Prop :=
  ∃ lap, signal.lap? = some lap ∧ lap.phase.isNaN = true

/-- What holds of the lap of a signal: the phase is in its lap; a refresh leaves it no number just
    when it was none before or the step is not finite; and what is no number stays so through any
    number of refreshes, and when what is written of the signal is read, wherever it stands and in
    whatever order a page puts it. -/
structure LapLaw (signal : Signal Float) (lap : Lap) : Prop where
  inLap : InLap lap.range lap.phase
  refreshed : ∀ {σ : Type} [RandomSource σ Float] (source : σ),
    ∃ next, (refresh signal source).1.lap? = some next ∧ next.range = lap.range
      ∧ (next.phase.isNaN = true ↔ lap.phase.isNaN = true ∨ ¬ next.step.isFinite = true)
  poisoned : lap.phase.isNaN = true →
    ∀ {σ : Type} [RandomSource σ Float] (ticks : Nat) (source : σ),
      (refreshTimes ticks signal source).1.Poisoned
  written : lap.phase.isNaN = true →
    ∀ (entries : Section Float) (key path : String) (default : Option Float),
      ∃ later, read (signal.write entries key) key path default = .ok later ∧ later.Poisoned
  placed : lap.phase.isNaN = true →
    ∀ {entries : Section Float} {key : String}, entries.get? key = some signal.toValue
        ∨ entries.get? key = some signal.toValue.arranged →
      ∀ (path : String) (default : Option Float),
        ∃ later, read entries key path default = .ok later ∧ later.Poisoned

/-- If the signal has a lap, what holds of laps holds of it. -/
def KeepsLap (signal : Signal Float) : Prop :=
  ∀ lap, signal.lap? = some lap → signal.LapLaw lap

/-! ## Steps -/

/-- The phase at which a periodic signal starts is no number just when its initial progress is not
    finite. -/
theorem isNaN_startPhase_iff (form : Waveform) (initial : Float) :
    (startPhase initial form.range).isNaN = true ↔ ¬ initial.isFinite = true :=
  let ⟨_, hlap⟩ := exists_isLap form
  hlap.isNaN_startPhase_iff initial

theorem lap_refresh {signal : Signal Float} {lap : Lap} (hlap : signal.lap? = some lap)
    (hphase : InLap lap.range lap.phase) {σ : Type} [RandomSource σ Float] (source : σ) :
    ∃ next, (refresh signal source).1.lap? = some next ∧ next.range = lap.range
      ∧ (next.phase.isNaN = true ↔ lap.phase.isNaN = true ∨ ¬ next.step.isFinite = true) := by
  cases signal with
  | periodic form low high period phase value =>
    cases hlap
    obtain ⟨_, hform⟩ := exists_isLap form
    exact ⟨_, rfl, rfl, hform.isNaN_nextPhase_iff hphase _⟩
  | _ => cases hlap

/-- A phase that is no number is none after a refresh. -/
theorem Poisoned.refresh {signal : Signal Float} (h : signal.Poisoned) {σ : Type}
    [RandomSource σ Float] (source : σ) : (refresh signal source).1.Poisoned := by
  obtain ⟨lap, hlap, hnan⟩ := h
  obtain ⟨next, hnext, -, hiff⟩ := lap_refresh hlap (Or.inl hnan) source
  exact ⟨next, hnext, hiff.2 (Or.inl hnan)⟩

/-- A phase that is no number is none after any number of refreshes. -/
theorem Poisoned.refreshTimes {σ : Type} [RandomSource σ Float] (ticks : Nat)
    {signal : Signal Float} (h : signal.Poisoned) (source : σ) :
    (refreshTimes ticks signal source).1.Poisoned := by
  induction ticks generalizing signal source with
  | zero => exact h
  | succ ticks ih => exact ih (h.refresh source) _

/-! ## Writing and reading -/

/-- A phase that is no number is none in the signal built anew. -/
theorem Poisoned.rebuilt {signal : Signal Float} (h : signal.Poisoned)
    (arrange : List (Signal Float) → List (Signal Float)) :
    (signal.rebuilt arrange).Poisoned := by
  obtain ⟨lap, hlap, hnan⟩ := h
  cases signal with
  | periodic form low high period phase value =>
    cases hlap
    refine ⟨_, rfl, (isNaN_startPhase_iff form phase).2 ?_⟩
    rw [not_isFinite_of_isNaN hnan]
    exact Bool.false_ne_true
  | _ => cases hlap

/-- What is written of a signal is read as one whose phase is no number either, off a page or on
    it. -/
theorem Poisoned.read_placed {signal : Signal Float} (h : signal.Poisoned)
    (hcoherent : signal.Coherent) {entries : Section Float} {key : String}
    (hvalue : entries.get? key = some signal.toValue
      ∨ entries.get? key = some signal.toValue.arranged)
    (path : String) (default : Option Float) :
    ∃ later, read entries key path default = .ok later ∧ later.Poisoned := by
  rcases hvalue with hvalue | hvalue
  · have hreads := reads_page keeps_id arranges_id hcoherent
    exact ⟨_, read_of_holdsAt ⟨_, hvalue, hreads⟩ path default, h.rebuilt id⟩
  · have hreads := reads_page keeps_arranged arranges_numbersFirst hcoherent
    exact ⟨_, read_of_holdsAt ⟨_, hvalue, hreads⟩ path default, h.rebuilt numbersFirst⟩

theorem Poisoned.read_written {signal : Signal Float} (h : signal.Poisoned)
    (hcoherent : signal.Coherent) (entries : Section Float) (key path : String)
    (default : Option Float) :
    ∃ later, read (signal.write entries key) key path default = .ok later ∧ later.Poisoned := by
  refine h.read_placed hcoherent (Or.inl ?_) path default
  rw [write, Entries.get?_set, if_pos rfl]

/-! ## Every reachable signal -/

/-- The phase of a signal that has one is in its lap. -/
def PhaseInLap (signal : Signal Float) : Prop :=
  ∀ lap, signal.lap? = some lap → InLap lap.range lap.phase

theorem PhaseInLap.of_phase?_eq_none {signal : Signal Float} (h : signal.phase? = none) :
    signal.PhaseInLap := by
  cases signal with
  | periodic _ _ _ _ phase _ => cases h
  | _ => exact nofun

theorem phaseInLap_wrapPhase (form : Waveform) (low high period : Signal Float) (phase : Float) :
    (atPhase form low high period (wrapPhase phase form.range)).PhaseInLap := by
  rintro _ ⟨⟩
  obtain ⟨_, hform⟩ := exists_isLap form
  exact hform.inLap_wrapPhase phase

theorem phaseInLap_closed : Closed (Everywhere PhaseInLap) :=
  everywhere_closed (fun form low high period _ => phaseInLap_wrapPhase form low high period _)
    fun _ => .of_phase?_eq_none

theorem phaseInLap_refresh {σ : Type} [RandomSource σ Float] (signal : Signal Float) (source : σ) :
    (refresh signal source).1.Everywhere PhaseInLap :=
  everywhere_refresh (fun form low high period _ => phaseInLap_wrapPhase form low high period _)
    (fun _ => .of_phase?_eq_none) signal source

theorem Reachable.phaseInLap {signal : Signal Float} (h : signal.Reachable) :
    signal.Everywhere PhaseInLap :=
  h.of_closed phaseInLap_closed fun source _ => phaseInLap_refresh _ source

theorem KeepsLap.of_coherent {signal : Signal Float} (hcoherent : signal.Coherent)
    (hphase : signal.PhaseInLap) : signal.KeepsLap := by
  intro lap hlap
  exact {
    inLap := hphase lap hlap
    refreshed := lap_refresh hlap (hphase lap hlap)
    poisoned := fun hnan _ _ ticks => Poisoned.refreshTimes ticks ⟨lap, hlap, hnan⟩
    written := fun hnan => Poisoned.read_written ⟨lap, hlap, hnan⟩ hcoherent
    placed := fun hnan => Poisoned.read_placed ⟨lap, hlap, hnan⟩ hcoherent }

/-- What holds of laps holds of every signal in a signal that a program can come to hold. -/
theorem Reachable.keepsLap {signal : Signal Float} (h : signal.Reachable) :
    signal.Everywhere KeepsLap :=
  (h.coherent.parts.and h.phaseInLap).mono fun _ hpart => .of_coherent hpart.1 hpart.2

/-- A cycle whose lap takes no time. -/
def stalled : Signal Float :=
  wave .cycle (constant 0.0) (constant 1.0) (constant 0.0) 0.25

theorem stalled_reachable : stalled.Reachable :=
  .wave _ (.constant _) (.constant _) (.constant _)

/-- The step of a cycle whose lap takes no time is not finite. -/
theorem refresh_stalled_poisoned {σ : Type} [RandomSource σ Float] (source : σ) :
    (refresh stalled source).1.Poisoned := by
  refine ⟨⟨1.0, nextPhase (startPhase 0.25 1.0) 1.0 0.0, constant 0.0⟩, rfl, ?_⟩
  dsimp only
  decide +kernel

end Signal

end Modulation

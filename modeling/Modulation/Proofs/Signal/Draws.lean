import Modulation.Proofs.Random.Stream
import Modulation.Signal.Refresh

set_option autoImplicit false

/-! # What a signal draws

A refresh visits each random signal in a signal once, and nothing else draws. How many numbers a
refresh draws is therefore known from the structure of the signal, whatever its values are. The
bounds of a signal may change places, but then the signals in them change places with them, so that
a refresh leaves the number of random signals as it is (`steady_refresh`). -/

namespace Modulation.Signal

variable {α : Type}

mutual

/-- The number of random signals in a signal. -/
def randomCount : Signal α → Nat
  | constant _ => 0
  | combined _ arguments _ => randomCounts arguments
  | absolute inner _ => inner.randomCount
  | clamped low high inner _ => low.randomCount + high.randomCount + inner.randomCount
  | periodic _ low high period _ _ => low.randomCount + high.randomCount + period.randomCount
  | drawn low high _ _ => low.randomCount + high.randomCount + 1

/-- The number of random signals in a list of signals. -/
def randomCounts : List (Signal α) → Nat
  | [] => 0
  | signal :: rest => signal.randomCount + randomCounts rest

end

variable [Numeric α]

theorem takes_refreshAll {arguments : List (Signal α)}
    (h : ∀ argument ∈ arguments, Takes argument.randomCount fun _ _ => refresh argument) :
    Takes (randomCounts arguments) fun _ _ => refreshAll arguments := by
  induction arguments with
  | nil => exact takes_pure []
  | cons first rest ih =>
    obtain ⟨hfirst, hrest⟩ := List.forall_mem_cons.1 h
    exact hfirst.bind fun _ => (ih hrest).bind fun _ => takes_pure _

/-- A refresh draws a number for each random signal in a signal, and no others. -/
theorem takes_refresh (signal : Signal α) :
    Takes signal.randomCount fun _ _ => refresh signal := by
  induction signal using partInduction with
  | constant value => exact takes_pure (constant value)
  | combined op arguments value ih =>
    exact (takes_refreshAll ih).bind fun _ => takes_pure _
  | absolute inner value ih => exact ih.bind fun _ => takes_pure _
  | clamped low high inner value ihLow ihHigh ihInner =>
    rw [randomCount, Nat.add_assoc]
    exact ihLow.bind fun _ => ihHigh.bind fun _ => ihInner.bind fun _ => takes_pure _
  | periodic form low high period phase value ihLow ihHigh ihPeriod =>
    rw [randomCount, Nat.add_assoc]
    exact ihLow.bind fun _ => ihHigh.bind fun _ => ihPeriod.bind fun _ => takes_pure _
  | drawn low high last value ihLow ihHigh =>
    rw [randomCount, Nat.add_assoc]
    exact ihLow.bind fun _ => ihHigh.bind fun _ => takes_draw.bind fun _ => takes_pure _

/-! ## A refresh keeps the number -/

/-- Two bounds hold as many random signals in order as the other way round. -/
theorem randomCount_ordered (low high : Signal α) :
    (ordered low high).1.randomCount + (ordered low high).2.randomCount
      = low.randomCount + high.randomCount := by
  unfold ordered
  split
  · exact Nat.add_comm _ _
  · rfl

section Refresh

variable {σ : Type} [RandomSource σ α]

theorem randomCounts_refreshAll {arguments : List (Signal α)}
    (h : ∀ argument ∈ arguments, ∀ source : σ,
      (refresh argument source).1.randomCount = argument.randomCount) (source : σ) :
    randomCounts (refreshAll arguments source).1 = randomCounts arguments := by
  induction arguments generalizing source with
  | nil => rfl
  | cons first rest ih =>
    obtain ⟨hfirst, hrest⟩ := List.forall_mem_cons.1 h
    show (refresh first source).1.randomCount + randomCounts (refreshAll rest _).1 = _
    rw [hfirst, ih hrest, randomCounts]

theorem randomCount_refresh (signal : Signal α) :
    ∀ source : σ, (refresh signal source).1.randomCount = signal.randomCount := by
  induction signal using partInduction with
  | constant value => exact fun _ => rfl
  | combined op arguments value ih => exact randomCounts_refreshAll ih
  | absolute inner value ih => exact ih
  | clamped low high inner value ihLow ihHigh ihInner =>
    intro source
    show (ordered _ _).1.randomCount + (ordered _ _).2.randomCount + _ = _
    rw [randomCount_ordered, ihLow, ihHigh, ihInner, randomCount]
  | periodic form low high period phase value ihLow ihHigh ihPeriod =>
    intro source
    show (ordered _ _).1.randomCount + (ordered _ _).2.randomCount + _ = _
    rw [randomCount_ordered, ihLow, ihHigh, ihPeriod, randomCount]
  | drawn low high last value ihLow ihHigh =>
    intro source
    show (ordered _ _).1.randomCount + (ordered _ _).2.randomCount + 1 = _
    rw [randomCount_ordered, ihLow, ihHigh, randomCount]

end Refresh

theorem steady_refresh : Steady (α := α) randomCount fun _ _ => refresh where
  takes := takes_refresh
  keeps := randomCount_refresh

end Modulation.Signal

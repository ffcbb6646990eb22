import Modulation.Proofs.Binary64.Order
import Modulation.Proofs.Signal.Reachable

set_option autoImplicit false

/-! # Bounds in order

The two bounds of a signal are signals themselves, and their values may cross at any tick; they then
change places. In a coherent signal the lower bound never exceeds the upper one, at any depth
(`Coherent.boundsInOrder`), whichever way the bounds were given and however they have moved.

A value that is kept between bounds is therefore between them at every tick, even where it was no
number (`Coherent.keptBetween`). -/

namespace Modulation.Signal

/-- The lower and the upper bound of a signal that has bounds. -/
def bounds? {α : Type} : Signal α → Option (Signal α × Signal α)
  | clamped low high _ _ => some (low, high)
  | periodic _ low high _ _ _ => some (low, high)
  | drawn low high _ _ => some (low, high)
  | _ => none

/-- The bounds of a well made signal are in order. -/
theorem WellMade.inOrder {α : Type} [Numeric α] {signal low high : Signal α}
    (h : signal.WellMade) (hbounds : signal.bounds? = some (low, high)) : InOrder low high := by
  cases signal with
  | clamped _ _ _ _ =>
    cases hbounds
    exact h.1
  | periodic _ _ _ _ _ _ =>
    cases hbounds
    exact h.1
  | drawn _ _ _ _ =>
    cases hbounds
    exact h.1
  | _ => cases hbounds

/-- The lower bound of a signal does not exceed the upper one, so that it is at most the upper one
    unless one of the two is no number. -/
def BoundsInOrder (signal : Signal Float) : Prop :=
  ∀ low high, signal.bounds? = some (low, high) →
    ¬ low.value > high.value
      ∧ (low.value ≤ high.value ∨ low.value.isNaN = true ∨ high.value.isNaN = true)

theorem WellMade.boundsInOrder {signal : Signal Float} (h : signal.WellMade) :
    signal.BoundsInOrder := by
  intro low high hbounds
  have horder : ¬ low.value > high.value := h.inOrder hbounds
  refine ⟨horder, ?_⟩
  cases hlow : low.value.isNaN with
  | true => exact Or.inr (Or.inl rfl)
  | false =>
    cases hhigh : high.value.isNaN with
    | true => exact Or.inr (Or.inr rfl)
    | false => exact Or.inl (Binary64.le_of_not_lt hlow hhigh horder)

theorem Coherent.boundsInOrder {signal : Signal Float} (h : signal.Coherent) :
    signal.Everywhere BoundsInOrder :=
  h.mono fun _ => WellMade.boundsInOrder

/-! ## Values kept between bounds -/

/-- What is kept between two bounds that are numbers lies between them, and it has the value of the
    inner signal where that lies between the bounds. -/
def KeptBetween : Signal Float → Prop
  | clamped low high inner value =>
    (low.value.isNaN = false → high.value.isNaN = false → low.value ≤ value ∧ value ≤ high.value)
      ∧ (low.value ≤ inner.value → inner.value ≤ high.value → (value == inner.value) = true)
  | _ => True

theorem WellMade.keptBetween {signal : Signal Float} (h : signal.WellMade) :
    signal.KeptBetween := by
  cases signal with
  | clamped low high inner value =>
    obtain ⟨horder, rfl⟩ := h
    exact ⟨fun hlow hhigh => Binary64.larger_smaller_between hlow hhigh horder _,
      Binary64.larger_smaller_beq horder⟩
  | _ => exact trivial

theorem Coherent.keptBetween {signal : Signal Float} (h : signal.Coherent) :
    signal.Everywhere KeptBetween :=
  h.mono fun _ => WellMade.keptBetween

/-! ## Bounds that cross -/

/-- A number kept between a ramp and a fixed bound that the ramp overtakes. -/
def overtaken : Signal Float :=
  clamp ramp (constant 0.125) (constant 3.0)

/-- The same one tick later: the bounds have changed places. -/
def overtakenLater : Signal Float :=
  clamped (constant 0.125) rampLater (constant 3.0) 0.25

theorem overtaken_reachable : overtaken.Reachable :=
  .clamp ramp_reachable (.constant _) (.constant _)

theorem refresh_overtaken {σ : Type} [RandomSource σ Float] (source : σ) :
    refresh overtaken source = (overtakenLater, source) := by
  have hbounds : ordered ramp (constant 0.125) = (ramp, constant 0.125) :=
    if_neg (by decide +kernel)
  have hcrossed : ordered rampLater (constant 0.125) = (constant 0.125, rampLater) :=
    if_pos (by decide +kernel)
  have hvalue : Numeric.larger 0.125 (Numeric.smaller 0.25 3.0) = (0.25 : Float) := by
    decide +kernel
  rw [overtaken, clamp, hbounds]
  show (clamp (refresh ramp source).1 (constant 0.125) (constant 3.0), (refresh ramp source).2) = _
  rw [refresh_ramp, clamp, hcrossed]
  show (clamped _ _ _ (Numeric.larger 0.125 (Numeric.smaller 0.25 3.0)), source) = _
  rw [hvalue, overtakenLater]

theorem overtakenLater_reachable : overtakenLater.Reachable := by
  have hlater : (refresh overtaken (fun _ => 0.5 : Draws Float)).1 = overtakenLater := by
    rw [refresh_overtaken]
  rw [← hlater]
  exact overtaken_reachable.refreshed _

/-- What is no number, kept between a ramp and a fixed bound that the ramp overtakes. -/
def lost : Signal Float :=
  clamp ramp (constant 0.125) (constant (0.0 / 0.0))

theorem lost_reachable : lost.Reachable :=
  .clamp ramp_reachable (.constant _) (.constant _)

end Modulation.Signal

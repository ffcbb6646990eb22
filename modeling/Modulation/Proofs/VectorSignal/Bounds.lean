import Modulation.Proofs.Signal.Bounds
import Modulation.Proofs.VectorSignal.Reachable

set_option autoImplicit false

/-! # Bounds in a vector signal

The bounds in a vector signal are those of the signals in it. `bounds_in_order` says of every signal
and every vector signal that a program can come to hold that all bounds in it are in order, when it
is just built as after any number of refreshes. `values_kept_between` says of each of them that the
values that are kept between bounds lie between them. -/

namespace Modulation.VectorSignal

/-- In every signal and every vector signal that a program can come to hold, no lower bound exceeds
    its upper bound. -/
theorem bounds_in_order :
    (∀ {signal : Signal Float}, signal.Reachable → signal.Everywhere Signal.BoundsInOrder)
      ∧ ∀ {signal : VectorSignal Float}, signal.Reachable →
        signal.Everywhere (fun _ => True) Signal.BoundsInOrder :=
  ⟨fun h => h.coherent.boundsInOrder,
    fun h => h.coherent.mono (fun _ _ => trivial) fun _ => Signal.WellMade.boundsInOrder⟩

/-- A direction whose length is kept between bounds that cross. -/
def hemmed : VectorSignal Float :=
  components Signal.overtaken (.constant 1.0) Signal.overtakenLater

theorem hemmed_reachable : hemmed.Reachable :=
  .components Signal.overtaken_reachable (.constant _) Signal.overtakenLater_reachable

/-- The bounds that crossed are in order before and after, each at its depth. -/
theorem overtaken_in_order :
    (Signal.overtaken.Reachable ∧ Signal.overtakenLater.Reachable ∧ hemmed.Reachable)
      ∧ (Signal.refresh Signal.overtaken (fun _ => 0.5 : Draws Float)).1 = Signal.overtakenLater
      ∧ Signal.overtaken.Everywhere Signal.BoundsInOrder
      ∧ Signal.overtakenLater.Everywhere Signal.BoundsInOrder
      ∧ hemmed.Everywhere (fun _ => True) Signal.BoundsInOrder :=
  ⟨⟨Signal.overtaken_reachable, Signal.overtakenLater_reachable, hemmed_reachable⟩,
    congrArg Prod.fst (Signal.refresh_overtaken _),
    bounds_in_order.1 Signal.overtaken_reachable,
    bounds_in_order.1 Signal.overtakenLater_reachable,
    bounds_in_order.2 hemmed_reachable⟩

/-! ## Values kept between bounds -/

/-- In every signal and every vector signal that a program can come to hold, what is kept between
    two bounds lies between the values that they have now, unless one of them is no number, and is
    left as it is where it lies between them. -/
theorem values_kept_between :
    (∀ {signal : Signal Float}, signal.Reachable → signal.Everywhere Signal.KeptBetween)
      ∧ ∀ {signal : VectorSignal Float}, signal.Reachable →
        signal.Everywhere (fun _ => True) Signal.KeptBetween :=
  ⟨fun h => h.coherent.keptBetween,
    fun h => h.coherent.mono (fun _ _ => trivial) fun _ => Signal.WellMade.keptBetween⟩

/-- What is no number is kept between bounds that cross, too, before they do and after. -/
theorem hemmed_kept_between :
    (Signal.overtaken.Reachable ∧ Signal.overtakenLater.Reachable ∧ Signal.lost.Reachable
        ∧ hemmed.Reachable)
      ∧ Signal.overtaken.Everywhere Signal.KeptBetween
      ∧ Signal.overtakenLater.Everywhere Signal.KeptBetween
      ∧ Signal.lost.Everywhere Signal.KeptBetween
      ∧ hemmed.Everywhere (fun _ => True) Signal.KeptBetween :=
  ⟨⟨Signal.overtaken_reachable, Signal.overtakenLater_reachable, Signal.lost_reachable,
      hemmed_reachable⟩,
    values_kept_between.1 Signal.overtaken_reachable,
    values_kept_between.1 Signal.overtakenLater_reachable,
    values_kept_between.1 Signal.lost_reachable,
    values_kept_between.2 hemmed_reachable⟩

end Modulation.VectorSignal

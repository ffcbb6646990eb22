import Modulation.Proofs.Signal.Reachable

set_option autoImplicit false

/-! # Signals that stand still

Only phases and draws move a signal by themselves. A coherent signal without periodic and random
signals in it holds the value that its parts have and has its bounds in order, so that a refresh,
which computes the value and orders the bounds again, gives the signal as it was and draws nothing
(`Coherent.refresh_eq_pure`). -/

namespace Modulation.Signal

variable {α : Type}

/-- A signal that has no phase and draws no numbers. Its parts may. -/
def Timeless : Signal α → Prop
  | periodic _ _ _ _ _ _ | drawn _ _ _ _ => False
  | _ => True

variable [Numeric α] {σ : Type} [RandomSource σ α]

/-- Arguments that a refresh leaves as they are stay so when they are refreshed in turn. -/
theorem refreshAll_eq_pure {arguments : List (Signal α)}
    (h : ∀ argument ∈ arguments, (refresh argument : StateM σ _) = pure argument) :
    (refreshAll arguments : StateM σ _) = pure arguments := by
  induction arguments with
  | nil => rfl
  | cons first rest ih =>
    obtain ⟨hfirst, hrest⟩ := List.forall_mem_cons.1 h
    simp only [refreshAll, hfirst, ih hrest, pure_bind]

/-- A coherent signal in which nothing moves is left as it is by a refresh. -/
theorem Coherent.refresh_eq_pure {signal : Signal α} (hcoherent : signal.Coherent)
    (htimeless : signal.Everywhere Timeless) : (refresh signal : StateM σ _) = pure signal := by
  induction hcoherent with
  | constant _ => rfl
  | @combined op arguments value hmade _ ih =>
    cases htimeless with
    | combined _ harguments =>
      have hall : (refreshAll arguments : StateM σ _) = pure arguments :=
        refreshAll_eq_pure fun argument hmem => ih argument hmem (harguments argument hmem)
      simp only [refresh, hall, pure_bind, combine, ← hmade.2]
  | @absolute inner value hmade _ ih =>
    obtain rfl : value = Numeric.abs inner.value := hmade
    cases htimeless with
    | absolute _ hinner => simp only [refresh, ih hinner, pure_bind, abs]
  | clamped hmade _ _ _ ihLow ihHigh ihInner =>
    cases htimeless with
    | clamped _ hlow hhigh hinner =>
      -- The bounds are in order already, so that they keep their places.
      simp only [refresh, ihLow hlow, ihHigh hhigh, ihInner hinner, pure_bind, clamp,
        ordered_eq_self hmade.1, ← hmade.2]
  | periodic _ _ _ _ _ _ _ =>
    cases htimeless with
    | periodic hmoves _ _ _ => exact hmoves.elim
  | drawn _ _ _ _ _ =>
    cases htimeless with
    | drawn hmoves _ _ => exact hmoves.elim

/-- A signal that a refresh leaves as it is stays so through any number of refreshes. -/
theorem refreshTimes_eq_pure {signal : Signal α} (h : (refresh signal : StateM σ _) = pure signal)
    (ticks : Nat) : (refreshTimes ticks signal : StateM σ _) = pure signal := by
  induction ticks with
  | zero => rfl
  | succ ticks ih => rw [refreshTimes, h, pure_bind, ih]

/-- How far a number is from another, kept between bounds that are given the other way round. -/
def gauge : Signal Float :=
  clamp (constant 2.0) (constant 0.5) (abs (combine .sub [constant 1.0, constant 4.0]))

theorem gauge_reachable : gauge.Reachable :=
  .clamp (.constant _) (.constant _) (.abs (.sub (.constant _) (.constant _)))

theorem gauge_timeless : gauge.Everywhere Timeless := by
  have hconstant : ∀ value : Float, (constant value).Everywhere Timeless :=
    fun _ => .constant trivial
  obtain ⟨hfirst, hsecond⟩ := ordered_of_both (hconstant 2.0) (hconstant 0.5)
  have hinner : (combine .sub [constant (1.0 : Float), constant 4.0]).Everywhere Timeless :=
    .combined trivial
      (List.forall_mem_cons.2 ⟨hconstant _, List.forall_mem_singleton.2 (hconstant _)⟩)
  exact .clamped trivial hfirst hsecond (.absolute trivial hinner)

end Modulation.Signal

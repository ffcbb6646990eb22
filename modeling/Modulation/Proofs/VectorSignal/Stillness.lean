import Modulation.Proofs.Binary64.Word
import Modulation.Proofs.Signal.Stillness
import Modulation.Proofs.VectorSignal.Reachable

set_option autoImplicit false

/-! # Vector signals that stand still

Among vector signals only rotations move by themselves. `timeless_stands_still` says of every signal
and every vector signal that a program can come to hold, and in which nothing moves, that a refresh
leaves it as it is in every part and draws nothing, however often it is done. -/

namespace Modulation.VectorSignal

variable {α : Type}

/-- A vector signal that has no phase. Its parts may have one. -/
def Timeless : VectorSignal α → Prop
  | rotated _ _ _ _ _ => False
  | _ => True

section Refresh

variable [Numeric α] {σ : Type} [RandomSource σ α]

/-- Arguments that a refresh leaves as they are stay so when they are refreshed in turn. -/
theorem refreshAll_eq_pure {arguments : List (VectorSignal α)}
    (h : ∀ argument ∈ arguments, (refresh argument : StateM σ _) = pure argument) :
    (refreshAll arguments : StateM σ _) = pure arguments := by
  induction arguments with
  | nil => rfl
  | cons first rest ih =>
    obtain ⟨hfirst, hrest⟩ := List.forall_mem_cons.1 h
    simp only [refreshAll, hfirst, ih hrest, pure_bind]

/-- A coherent vector signal in which nothing moves is left as it is by a refresh. -/
theorem Coherent.refresh_eq_pure {signal : VectorSignal α} (hcoherent : signal.Coherent)
    (htimeless : signal.Everywhere Timeless Signal.Timeless) :
    (refresh signal : StateM σ _) = pure signal := by
  induction hcoherent with
  | constant _ => rfl
  | @combined op arguments value hmade _ ih =>
    cases htimeless with
    | combined _ harguments =>
      have hall : (refreshAll arguments : StateM σ _) = pure arguments :=
        refreshAll_eq_pure fun argument hmem => ih argument hmem (harguments argument hmem)
      simp only [refresh, hall, pure_bind, combine, ← hmade.2]
  | @normalized inner value hmade _ ih =>
    obtain rfl : value = inner.value.normalize := hmade
    cases htimeless with
    | normalized _ hinner => simp only [refresh, ih hinner, pure_bind, normalize]
  | @scaled vector factor value hmade _ hfactor ih =>
    obtain rfl : value = vector.value.scale factor.value := hmade
    cases htimeless with
    | scaled _ hvector hstill =>
      have hkept := Signal.Coherent.refresh_eq_pure (σ := σ) hfactor hstill
      simp only [refresh, ih hvector, hkept, pure_bind, scale]
  | rotated _ _ _ _ _ =>
    cases htimeless with
    | rotated hmoves _ _ _ => exact hmoves.elim
  | @assembled x y z value hmade hx hy hz =>
    obtain rfl : value = ⟨x.value, y.value, z.value⟩ := hmade
    cases htimeless with
    | assembled _ hstillX hstillY hstillZ =>
      have hkeptX := Signal.Coherent.refresh_eq_pure (σ := σ) hx hstillX
      have hkeptY := Signal.Coherent.refresh_eq_pure (σ := σ) hy hstillY
      have hkeptZ := Signal.Coherent.refresh_eq_pure (σ := σ) hz hstillZ
      simp only [refresh, hkeptX, hkeptY, hkeptZ, pure_bind, components]

/-- A vector signal that a refresh leaves as it is stays so through any number of refreshes. -/
theorem refreshTimes_eq_pure {signal : VectorSignal α}
    (h : (refresh signal : StateM σ _) = pure signal) (ticks : Nat) :
    (refreshTimes ticks signal : StateM σ _) = pure signal := by
  induction ticks with
  | zero => rfl
  | succ ticks ih => rw [refreshTimes, h, pure_bind, ih]

end Refresh

/-- A signal or vector signal that a program can come to hold, and in which there are no periodic
    and random signals and no rotations, is left as it is in every part by a refresh, and by any
    number of them, and no numbers are drawn. -/
theorem timeless_stands_still :
    (∀ {signal : Signal Float}, signal.Reachable → signal.Everywhere Signal.Timeless →
      ∀ {σ : Type} [RandomSource σ Float] (source : σ),
        signal.refresh source = (signal, source)
          ∧ ∀ ticks, signal.refreshTimes ticks source = (signal, source))
      ∧ ∀ {signal : VectorSignal Float}, signal.Reachable →
        signal.Everywhere Timeless Signal.Timeless →
        ∀ {σ : Type} [RandomSource σ Float] (source : σ),
          signal.refresh source = (signal, source)
            ∧ ∀ ticks, signal.refreshTimes ticks source = (signal, source) := by
  refine ⟨fun hreachable htimeless σ _ source => ?_,
    fun hreachable htimeless σ _ source => ?_⟩
  · have hkept := Signal.Coherent.refresh_eq_pure (σ := σ) hreachable.coherent htimeless
    exact ⟨congrFun hkept source,
      fun ticks => congrFun (Signal.refreshTimes_eq_pure hkept ticks) source⟩
  · have hkept := Coherent.refresh_eq_pure (σ := σ) hreachable.coherent htimeless
    exact ⟨congrFun hkept source, fun ticks => congrFun (refreshTimes_eq_pure hkept ticks) source⟩

/-- A direction whose length is a gauge. -/
def pointer : VectorSignal Float :=
  scale (normalize (constant ⟨1.0, 2.0, 2.0⟩)) Signal.gauge

theorem pointer_reachable : pointer.Reachable :=
  .scale (.normalize (.constant _)) Signal.gauge_reachable

theorem pointer_timeless : pointer.Everywhere Timeless Signal.Timeless :=
  .scaled trivial (.normalized trivial (.constant trivial)) Signal.gauge_timeless

theorem pointer_stands_still :
    (Signal.gauge.Reachable ∧ Signal.gauge.Everywhere Signal.Timeless)
      ∧ (pointer.Reachable ∧ pointer.Everywhere Timeless Signal.Timeless)
      ∧ (Signal.gauge.refresh (fun _ => 0.5 : Draws Float) = (Signal.gauge, fun _ => 0.5)
        ∧ ∀ ticks, Signal.gauge.refreshTimes ticks (fun _ => 0.5 : Draws Float)
          = (Signal.gauge, fun _ => 0.5))
      ∧ pointer.refresh (fun _ => 0.5 : Draws Float) = (pointer, fun _ => 0.5)
        ∧ ∀ ticks, pointer.refreshTimes ticks (fun _ => 0.5 : Draws Float)
          = (pointer, fun _ => 0.5) :=
  ⟨⟨Signal.gauge_reachable, Signal.gauge_timeless⟩, ⟨pointer_reachable, pointer_timeless⟩,
    timeless_stands_still.1 Signal.gauge_reachable Signal.gauge_timeless _,
    timeless_stands_still.2 pointer_reachable pointer_timeless _⟩

end Modulation.VectorSignal

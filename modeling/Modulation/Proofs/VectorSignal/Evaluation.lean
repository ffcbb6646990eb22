import Modulation.Proofs.Binary64.Word
import Modulation.Proofs.Signal.Evaluation
import Modulation.Proofs.VectorSignal.Reachable

set_option autoImplicit false

/-! # What a vector signal is worth

As for signals, `eval` computes the value of a vector signal from its parts. `values_current` says
of every signal and vector signal that a program can come to hold, just built or after any refresh,
that it and everything in it hold the values that they have by their parts. -/

namespace Modulation.VectorSignal

variable {α : Type} [Numeric α]

mutual

/-- The value of a vector signal by its parts, without the values that are held in it. -/
def eval : VectorSignal α → Vec3 α
  | constant value => value
  | combined op arguments _ => op.apply (evalAll arguments)
  | normalized inner _ => inner.eval.normalize
  | scaled vector factor _ => vector.eval.scale factor.eval
  | rotated about _ radius phase _ => onCircle about.eval radius.eval phase
  | assembled x y z _ => ⟨x.eval, y.eval, z.eval⟩

/-- The values of vector signals by their parts. -/
def evalAll : List (VectorSignal α) → List (Vec3 α)
  | [] => []
  | signal :: rest => signal.eval :: evalAll rest

end

theorem evalAll_eq_map (arguments : List (VectorSignal α)) :
    evalAll arguments = arguments.map eval := by
  induction arguments with
  | nil => rfl
  | cons first rest ih => rw [evalAll, ih, List.map_cons]

/-- A vector signal holds the value that it has by its parts. -/
def Current (signal : VectorSignal α) : Prop :=
  signal.value = signal.eval

/-- Every vector signal in a coherent vector signal, and every signal in it, holds the value that it
    has by its parts. -/
theorem Coherent.current {signal : VectorSignal α} (h : signal.Coherent) :
    signal.Everywhere Current Signal.Current := by
  induction h with
  | constant _ => exact .constant rfl
  | @combined op arguments value hmade _ ih =>
    have hvalues : arguments.map VectorSignal.value = evalAll arguments := by
      rw [evalAll_eq_map]
      exact List.map_congr_left fun argument hmem => (ih argument hmem).self
    refine .combined (Eq.trans hmade.2 ?_) ih
    show op.apply (arguments.map VectorSignal.value) = op.apply (evalAll arguments)
    rw [hvalues]
  | @normalized inner _ hmade _ ih =>
    refine .normalized (Eq.trans hmade ?_) ih
    show inner.value.normalize = inner.eval.normalize
    rw [ih.self]
  | @scaled vector factor _ hmade _ hfactor ih =>
    have hcurrent := Signal.Coherent.current hfactor
    refine .scaled (Eq.trans hmade ?_) ih hcurrent
    show vector.value.scale factor.value = vector.eval.scale factor.eval
    rw [ih.self, hcurrent.self]
  | @rotated about _ radius phase _ hmade _ hperiod hradius ih =>
    have hcurrent := Signal.Coherent.current hradius
    refine .rotated (Eq.trans hmade ?_) ih (Signal.Coherent.current hperiod) hcurrent
    show onCircle about.value radius.value phase = onCircle about.eval radius.eval phase
    rw [ih.self, hcurrent.self]
  | @assembled x y z _ hmade hx hy hz =>
    have hcurrentX := Signal.Coherent.current hx
    have hcurrentY := Signal.Coherent.current hy
    have hcurrentZ := Signal.Coherent.current hz
    refine .assembled (Eq.trans hmade ?_) hcurrentX hcurrentY hcurrentZ
    show (⟨x.value, y.value, z.value⟩ : Vec3 α) = ⟨x.eval, y.eval, z.eval⟩
    rw [hcurrentX.self, hcurrentY.self, hcurrentZ.self]

/-- Every signal and every vector signal that a program can come to hold has the value that it has by
    its parts, and so has everything in it: when it is just built as after any number of
    refreshes. -/
theorem values_current :
    (∀ {signal : Signal Float}, signal.Reachable → signal.Everywhere Signal.Current)
      ∧ ∀ {signal : VectorSignal Float}, signal.Reachable →
        signal.Everywhere Current Signal.Current :=
  ⟨fun h => h.coherent.current, fun h => h.coherent.current⟩

/-- A direction that a ramp draws out. -/
def growing : VectorSignal Float :=
  scale (constant ⟨1.0, 2.0, 4.0⟩) Signal.ramp

/-- The direction one tick later. -/
def growingLater : VectorSignal Float :=
  scaled (constant ⟨1.0, 2.0, 4.0⟩) Signal.rampLater ⟨0.25, 0.5, 1.0⟩

theorem growing_reachable : growing.Reachable :=
  .scale (.constant _) Signal.ramp_reachable

theorem growingLater_reachable : growingLater.Reachable := by
  have hvalue : Vec3.scale ⟨1.0, 2.0, 4.0⟩ 0.25 = (⟨0.25, 0.5, 1.0⟩ : Vec3 Float) := by
    decide +kernel
  have hlater : (growing.refresh (fun _ => 0.5 : Draws Float)).1 = growingLater := by
    show scale (constant ⟨1.0, 2.0, 4.0⟩) (Signal.ramp.refresh (fun _ => 0.5 : Draws Float)).1 = _
    rw [Signal.refresh_ramp]
    show scaled _ Signal.rampLater (Vec3.scale ⟨1.0, 2.0, 4.0⟩ 0.25) = _
    rw [hvalue, growingLater]
  rw [← hlater]
  exact growing_reachable.refreshed _

theorem growingLater_current :
    (growing.Reachable ∧ growingLater.Reachable ∧ Signal.ramp.Reachable)
      ∧ growing.Everywhere Current Signal.Current
      ∧ growingLater.Everywhere Current Signal.Current
      ∧ Signal.ramp.Everywhere Signal.Current :=
  ⟨⟨growing_reachable, growingLater_reachable, Signal.ramp_reachable⟩,
    values_current.2 growing_reachable, values_current.2 growingLater_reachable,
    values_current.1 Signal.ramp_reachable⟩

end Modulation.VectorSignal

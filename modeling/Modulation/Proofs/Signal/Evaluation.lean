import Modulation.Proofs.Signal.Reachable

set_option autoImplicit false

/-! # What a signal is worth

`eval` computes the value of a signal from its parts down to its constants, from the phase at which
it stands and from the number that it drew last. It looks at no value that a generated signal holds.

A coherent signal holds this value, and so does every signal in it (`Coherent.current`): what a
signal shows is never older than its parts are. -/

namespace Modulation.Signal

variable {α : Type} [Numeric α]

mutual

/-- The value of a signal by its parts, without the values that are held in it. -/
def eval : Signal α → α
  | constant value => value
  | combined op arguments _ => op.apply (evalAll arguments)
  | absolute inner _ => Numeric.abs inner.eval
  | clamped low high inner _ => Numeric.larger low.eval (Numeric.smaller high.eval inner.eval)
  | periodic form low high _ phase _ => Numeric.lerp low.eval high.eval (form.level phase)
  | drawn _ _ last _ => last

/-- The values of signals by their parts. -/
def evalAll : List (Signal α) → List α
  | [] => []
  | signal :: rest => signal.eval :: evalAll rest

end

theorem evalAll_eq_map (arguments : List (Signal α)) : evalAll arguments = arguments.map eval := by
  induction arguments with
  | nil => rfl
  | cons first rest ih => rw [evalAll, ih, List.map_cons]

/-- A signal holds the value that it has by its parts. -/
def Current (signal : Signal α) : Prop :=
  signal.value = signal.eval

/-- Every signal in a coherent signal holds the value that it has by its parts. -/
theorem Coherent.current {signal : Signal α} (h : signal.Coherent) :
    signal.Everywhere Current := by
  induction h with
  | constant _ => exact .constant rfl
  | @combined op arguments value hmade _ ih =>
    have hvalues : arguments.map Signal.value = evalAll arguments := by
      rw [evalAll_eq_map]
      exact List.map_congr_left fun argument hmem => (ih argument hmem).self
    refine .combined (Eq.trans hmade.2 ?_) ih
    show op.apply (arguments.map Signal.value) = op.apply (evalAll arguments)
    rw [hvalues]
  | @absolute inner _ hmade _ ih =>
    refine .absolute (Eq.trans hmade ?_) ih
    show Numeric.abs inner.value = Numeric.abs inner.eval
    rw [ih.self]
  | @clamped low high inner _ hmade _ _ _ ihLow ihHigh ihInner =>
    refine .clamped (Eq.trans hmade.2 ?_) ihLow ihHigh ihInner
    show Numeric.larger low.value (Numeric.smaller high.value inner.value)
      = Numeric.larger low.eval (Numeric.smaller high.eval inner.eval)
    rw [ihLow.self, ihHigh.self, ihInner.self]
  | @periodic form low high _ phase _ hmade _ _ _ ihLow ihHigh ihPeriod =>
    refine .periodic (Eq.trans hmade.2 ?_) ihLow ihHigh ihPeriod
    show Numeric.lerp low.value high.value (form.level phase)
      = Numeric.lerp low.eval high.eval (form.level phase)
    rw [ihLow.self, ihHigh.self]
  | drawn hmade _ _ ihLow ihHigh => exact .drawn hmade.2 ihLow ihHigh

end Modulation.Signal

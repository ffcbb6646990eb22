import Modulation.Proofs.Signal.Page
import Modulation.Proofs.VectorSignal.Resumption

set_option autoImplicit false

/-! # Vector signals on a page

The arguments of vector operators keep their order on a page, but the signals in a vector signal
come back with their constants in front, and a vector of three constants comes back as a constant.
One trip over a page makes both changes, and a further one makes none (`rebuilt_rebuilt`). A vector
signal whose signals have their constants in front, and whose phases are those at which it starts,
comes back collapsed (`rebuilt_numbersFirst_eq_collapsed`). -/

namespace Modulation.VectorSignal

variable {α : Type}

/-- No constant argument of a signal in a vector signal stands behind one that is not, at any
    depth. -/
def NumbersFirst (signal : VectorSignal α) : Prop :=
  signal.Everywhere (fun _ => True) Signal.NumbersFirst

variable [Numeric α]

/-- Constants are in front at every depth of a vector signal that is built anew as from a page. -/
theorem numbersFirst_rebuilt {signal : VectorSignal α} (h : signal.Coherent) :
    (rebuilt Signal.numbersFirst signal).NumbersFirst :=
  closed_rebuilt (everywhere_closed (fun _ _ _ _ => trivial) fun _ _ => trivial)
    Signal.numbersFirst_rebuilt h

theorem coherent_rebuilt [Numeric.Lawful α] {signal : VectorSignal α} (h : signal.Coherent) :
    (rebuilt Signal.numbersFirst signal).Coherent :=
  closed_rebuilt coherent_closed Signal.coherent_rebuilt h

/-- A vector signal is built with the phases at which it starts. -/
theorem keepsPhases_closed :
    Closed (α := Float) KeepsPhases (Signal.Everywhere Signal.KeepsPhase) := by
  refine everywhere_closed (fun _ _ _ initial => ?_) fun signal hphase => ?_
  · exact Binary64.startPhase_startPhase .cycle initial
  · cases signal with
    | rotated _ _ _ phase _ => cases hphase
    | _ => trivial

theorem rebuilt_numbersFirst_eq_collapsed {signal : VectorSignal α} (h : signal.Coherent)
    (hfirst : signal.NumbersFirst) (hphases : signal.KeepsPhases) :
    rebuilt Signal.numbersFirst signal = signal.collapsed :=
  rebuilt_eq_collapsed h hphases
    (hfirst.mono (fun _ _ => trivial) fun part => (Signal.isArranged_numbersFirst_iff part).2)

/-- What came from a page once comes from every further page as it is. -/
theorem rebuilt_rebuilt {signal : VectorSignal Float} (h : signal.Coherent) :
    rebuilt Signal.numbersFirst (rebuilt Signal.numbersFirst signal)
      = rebuilt Signal.numbersFirst signal := by
  have hphases : (rebuilt Signal.numbersFirst signal).KeepsPhases :=
    closed_rebuilt keepsPhases_closed Signal.keepsPhase_rebuilt h
  rw [rebuilt_numbersFirst_eq_collapsed (coherent_rebuilt h) (numbersFirst_rebuilt h) hphases,
    collapsed_rebuilt Signal.numbersFirst h]

end Modulation.VectorSignal

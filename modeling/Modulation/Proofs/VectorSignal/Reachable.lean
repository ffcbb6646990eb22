import Modulation.Proofs.Signal.Reachable
import Modulation.Proofs.VectorSignal.Agreement

set_option autoImplicit false

/-! # Reachable vector signals

As for signals, a vector signal is reachable when it is read or built, from parts that are
reachable, and refreshed any number of times, with any numbers drawn. -/

namespace Modulation.VectorSignal

open Modulation.Config

variable {α : Type} [Numeric α]

/-- The vector signals that a program can come to hold. -/
inductive Reachable : VectorSignal α → Prop where
  | read {entries : Section α} {key path : String} {default : Option (Vec3 α)}
      {signal : VectorSignal α} (h : (read entries key path default).result = .ok signal) :
      Reachable signal
  | ofSection {entries : Section α} {path : String} {signal : VectorSignal α}
      (h : (ofOffers (offersOf entries) path).result = .ok signal) : Reachable signal
  | constant (value : Vec3 α) : Reachable (constant value)
  | combine {op : VectorOperator} {arguments : List (VectorSignal α)} {signal : VectorSignal α}
      (harguments : ∀ argument ∈ arguments, Reachable argument)
      (h : combine? op arguments = .ok signal) : Reachable signal
  | sub {a b : VectorSignal α} (ha : Reachable a) (hb : Reachable b) : Reachable (sub a b)
  | cross {a b : VectorSignal α} (ha : Reachable a) (hb : Reachable b) : Reachable (cross a b)
  | normalize {inner : VectorSignal α} (hinner : Reachable inner) : Reachable (normalize inner)
  | scale {vector : VectorSignal α} {factor : Signal α} (hvector : Reachable vector)
      (hfactor : factor.Reachable) : Reachable (scale vector factor)
  | rotate {about : VectorSignal α} {period radius : Signal α} (initial : α)
      (habout : Reachable about) (hperiod : period.Reachable) (hradius : radius.Reachable) :
      Reachable (rotate about period radius initial)
  | components {x y z : Signal α} (hx : x.Reachable) (hy : y.Reachable) (hz : z.Reachable) :
      Reachable (components x y z)
  | refreshed {σ : Type} [RandomSource σ α] {signal : VectorSignal α} (source : σ)
      (h : Reachable signal) : Reachable (refresh signal source).1

/-- What building and refreshing keep holds of every reachable vector signal. -/
theorem Reachable.of_closed {P : VectorSignal α → Prop} {Q : Signal α → Prop} (hP : Closed P Q)
    (hQ : Signal.Closed Q) (hsignals : ∀ {signal : Signal α}, signal.Reachable → Q signal)
    (hrefresh : ∀ {σ : Type} [RandomSource σ α] {signal : VectorSignal α} (source : σ),
      P signal → P (refresh signal source).1) {signal : VectorSignal α} (h : signal.Reachable) :
    P signal := by
  have hbinary : ∀ {op : VectorOperator} {a b : VectorSignal α}, op.arity = ⟨2, some 2⟩ →
      P a → P b → P (VectorSignal.combine op [a, b]) := by
    intro op a b harity ha hb
    have hadmits : op.arity.Admits [a, b].length := by
      rw [harity, ← Arity.fault?_eq_none_iff]
      rfl
    exact hP.combine hadmits (List.forall_mem_cons.2 ⟨ha, List.forall_mem_singleton.2 hb⟩)
  induction h with
  | read h => exact (gives_read hP hQ _ _ _ _).of_result h
  | ofSection h => exact (gives_ofSection hP hQ _ _).of_result h
  | constant value => exact hP.constant value
  | combine _ h ih =>
    obtain ⟨hadmits, rfl⟩ := combine?_eq_ok_iff.1 h
    exact hP.combine hadmits ih
  | sub _ _ iha ihb => exact hbinary rfl iha ihb
  | cross _ _ iha ihb => exact hbinary rfl iha ihb
  | normalize _ ih => exact hP.normalize ih
  | scale _ hfactor ih => exact hP.scale ih (hsignals hfactor)
  | rotate initial _ hperiod hradius ih =>
    exact hP.rotate initial ih (hsignals hperiod) (hsignals hradius)
  | components hx hy hz => exact hP.components (hsignals hx) (hsignals hy) (hsignals hz)
  | refreshed source _ ih => exact hrefresh source ih

theorem Reachable.coherent [Numeric.Lawful α] {signal : VectorSignal α} (h : signal.Reachable) :
    signal.Coherent :=
  h.of_closed coherent_closed Signal.coherent_closed Signal.Reachable.coherent
    fun source hcoherent => coherent_refresh hcoherent source

end Modulation.VectorSignal

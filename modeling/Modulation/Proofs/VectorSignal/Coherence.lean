import Modulation.Proofs.Signal.Coherence
import Modulation.VectorSignal.Refresh

set_option autoImplicit false

/-! # Coherent vector signals

A vector signal is coherent when each vector signal in it is well made and its signals are coherent.
As for signals, coherence is closed under building and kept by a refresh. -/

namespace Modulation.VectorSignal

variable {α : Type}

/-! ## Vector signals within a vector signal -/

/-- `P` holds of a vector signal and of every vector signal in it, and `Q` of all their signals. -/
inductive Everywhere (P : VectorSignal α → Prop) (Q : Signal α → Prop) :
    VectorSignal α → Prop where
  | constant {value : Vec3 α} (h : P (constant value)) : Everywhere P Q (constant value)
  | combined {op : VectorOperator} {arguments : List (VectorSignal α)} {value : Vec3 α}
      (h : P (combined op arguments value))
      (harguments : ∀ argument ∈ arguments, Everywhere P Q argument) :
      Everywhere P Q (combined op arguments value)
  | normalized {inner : VectorSignal α} {value : Vec3 α} (h : P (normalized inner value))
      (hinner : Everywhere P Q inner) : Everywhere P Q (normalized inner value)
  | scaled {vector : VectorSignal α} {factor : Signal α} {value : Vec3 α}
      (h : P (scaled vector factor value)) (hvector : Everywhere P Q vector)
      (hfactor : factor.Everywhere Q) : Everywhere P Q (scaled vector factor value)
  | rotated {about : VectorSignal α} {period radius : Signal α} {phase : α} {value : Vec3 α}
      (h : P (rotated about period radius phase value)) (habout : Everywhere P Q about)
      (hperiod : period.Everywhere Q) (hradius : radius.Everywhere Q) :
      Everywhere P Q (rotated about period radius phase value)
  | assembled {x y z : Signal α} {value : Vec3 α} (h : P (assembled x y z value))
      (hx : x.Everywhere Q) (hy : y.Everywhere Q) (hz : z.Everywhere Q) :
      Everywhere P Q (assembled x y z value)

theorem Everywhere.mono {P P' : VectorSignal α → Prop} {Q Q' : Signal α → Prop}
    (hP : ∀ signal, P signal → P' signal) (hQ : ∀ signal, Q signal → Q' signal)
    {signal : VectorSignal α} (h : signal.Everywhere P Q) : signal.Everywhere P' Q' := by
  induction h with
  | constant h => exact .constant (hP _ h)
  | combined h _ ih => exact .combined (hP _ h) ih
  | normalized h _ ih => exact .normalized (hP _ h) ih
  | scaled h _ hfactor ih => exact .scaled (hP _ h) ih (hfactor.mono hQ)
  | rotated h _ hperiod hradius ih => exact .rotated (hP _ h) ih (hperiod.mono hQ) (hradius.mono hQ)
  | assembled h hx hy hz => exact .assembled (hP _ h) (hx.mono hQ) (hy.mono hQ) (hz.mono hQ)

theorem Everywhere.self {P : VectorSignal α → Prop} {Q : Signal α → Prop} {signal : VectorSignal α}
    (h : signal.Everywhere P Q) : P signal := by
  cases h <;> assumption

theorem Everywhere.and {P P' : VectorSignal α → Prop} {Q Q' : Signal α → Prop}
    {signal : VectorSignal α} (h : signal.Everywhere P Q) (h' : signal.Everywhere P' Q') :
    signal.Everywhere (fun part => P part ∧ P' part) fun part => Q part ∧ Q' part := by
  induction h with
  | constant h => exact .constant ⟨h, h'.self⟩
  | combined h _ ih =>
    cases h' with
    | combined h' harguments =>
      exact .combined ⟨h, h'⟩ fun argument hmem => ih argument hmem (harguments argument hmem)
  | normalized h _ ih =>
    cases h' with
    | normalized h' hinner => exact .normalized ⟨h, h'⟩ (ih hinner)
  | scaled h _ hfactor ih =>
    cases h' with
    | scaled h' hvector hfactor' => exact .scaled ⟨h, h'⟩ (ih hvector) (hfactor.and hfactor')
  | rotated h _ hperiod hradius ih =>
    cases h' with
    | rotated h' habout hperiod' hradius' =>
      exact .rotated ⟨h, h'⟩ (ih habout) (hperiod.and hperiod') (hradius.and hradius')
  | assembled h hx hy hz =>
    cases h' with
    | assembled h' hx' hy' hz' =>
      exact .assembled ⟨h, h'⟩ (hx.and hx') (hy.and hy') (hz.and hz')

/-- What holds everywhere in a vector signal holds everywhere in each part of it. -/
theorem Everywhere.parts {P : VectorSignal α → Prop} {Q : Signal α → Prop}
    {signal : VectorSignal α} (h : signal.Everywhere P Q) :
    signal.Everywhere (Everywhere P Q) (Signal.Everywhere Q) := by
  induction h with
  | constant h => exact .constant (.constant h)
  | combined h harguments ih => exact .combined (.combined h harguments) ih
  | normalized h hinner ih => exact .normalized (.normalized h hinner) ih
  | scaled h hvector hfactor ih => exact .scaled (.scaled h hvector hfactor) ih hfactor.parts
  | rotated h habout hperiod hradius ih =>
    exact .rotated (.rotated h habout hperiod hradius) ih hperiod.parts hradius.parts
  | assembled h hx hy hz => exact .assembled (.assembled h hx hy hz) hx.parts hy.parts hz.parts

variable [Numeric α]

/-- The arguments are as many as admitted, and the value is the one that the parts of the vector
    signal have now. -/
def WellMade : VectorSignal α → Prop
  | constant _ => True
  | combined op arguments value =>
    op.arity.Admits arguments.length ∧ value = op.apply (arguments.map VectorSignal.value)
  | normalized inner value => value = inner.value.normalize
  | scaled vector factor value => value = vector.value.scale factor.value
  | rotated about _ radius phase value => value = onCircle about.value radius.value phase
  | assembled x y z value => value = ⟨x.value, y.value, z.value⟩

/-- Every vector signal in a vector signal and every signal in it is well made. -/
def Coherent (signal : VectorSignal α) : Prop :=
  signal.Everywhere WellMade Signal.WellMade

/-! ## Building -/

/-- What the functions that build vector signals keep, from signals that have `Q`. -/
structure Closed (P : VectorSignal α → Prop) (Q : Signal α → Prop) : Prop where
  constant : ∀ value, P (constant value)
  combine : ∀ {op arguments}, op.arity.Admits arguments.length →
    (∀ argument ∈ arguments, P argument) → P (combine op arguments)
  normalize : ∀ {inner}, P inner → P (normalize inner)
  scale : ∀ {vector factor}, P vector → Q factor → P (scale vector factor)
  rotate : ∀ {about period radius} initial, P about → Q period → Q radius →
    P (rotate about period radius initial)
  components : ∀ {x y z}, Q x → Q y → Q z → P (components x y z)

/-- What holds of all signals in the parts of a vector signal holds of all signals in it, and so
    does what holds of rotations that are built and of all vector signals without a phase. -/
theorem everywhere_closed {P : VectorSignal α → Prop} {Q : Signal α → Prop}
    (hrotate : ∀ about period radius initial, P (rotate about period radius initial))
    (hother : ∀ signal : VectorSignal α, signal.phase? = none → P signal) :
    Closed (Everywhere P Q) (Signal.Everywhere Q) where
  constant _ := .constant (hother _ rfl)
  combine _ harguments := .combined (hother _ rfl) harguments
  normalize hinner := .normalized (hother _ rfl) hinner
  scale hvector hfactor := .scaled (hother _ rfl) hvector hfactor
  rotate initial habout hperiod hradius :=
    .rotated (hrotate _ _ _ initial) habout hperiod hradius
  components hx hy hz := .assembled (hother _ rfl) hx hy hz

omit [Numeric α] in
/-- A vector put together without its tag is a constant when all of its components are. -/
theorem ofComponents_eq (x y z : Signal α) :
    ofComponents x y z
      = if x.isConstant && y.isConstant && z.isConstant then
          constant ⟨x.value, y.value, z.value⟩
        else components x y z := by
  cases x with
  | constant a =>
    cases y with
    | constant b => cases z <;> rfl
    | _ => rfl
  | _ => rfl

theorem Closed.ofComponents {P : VectorSignal α → Prop} {Q : Signal α → Prop} (h : Closed P Q)
    {x y z : Signal α} (hx : Q x) (hy : Q y) (hz : Q z) : P (ofComponents x y z) := by
  unfold VectorSignal.ofComponents
  split
  · exact h.constant _
  · exact h.components hx hy hz

/-- An operator combines arguments just when they are as many as it admits. -/
theorem combine?_eq_ok_iff {op : VectorOperator} {arguments : List (VectorSignal α)}
    {signal : VectorSignal α} :
    combine? op arguments = .ok signal
      ↔ op.arity.Admits arguments.length ∧ signal = combine op arguments :=
  Arity.check_map_eq_ok_iff

/-- The sign of an initial progress does not count. -/
theorem rotate_abs [Numeric.Lawful α] (about : VectorSignal α) (period radius : Signal α)
    (initial : α) :
    rotate about period radius (Numeric.abs initial) = rotate about period radius initial := by
  rw [rotate, startPhase, Numeric.Lawful.abs_abs]
  rfl

theorem coherent_combine {op : VectorOperator} {arguments : List (VectorSignal α)}
    (hadmits : op.arity.Admits arguments.length)
    (harguments : ∀ argument ∈ arguments, argument.Coherent) : (combine op arguments).Coherent :=
  .combined ⟨hadmits, rfl⟩ harguments

theorem coherent_atPhase {about : VectorSignal α} {period radius : Signal α} (phase : α)
    (habout : about.Coherent) (hperiod : period.Coherent) (hradius : radius.Coherent) :
    (atPhase about period radius phase).Coherent :=
  .rotated rfl habout hperiod hradius

theorem coherent_closed : Closed (α := α) Coherent Signal.Coherent where
  constant _ := .constant trivial
  combine := coherent_combine
  normalize := .normalized rfl
  scale := .scaled rfl
  rotate _ := coherent_atPhase _
  components := .assembled rfl

/-! ## Refreshing -/

section Refresh

variable {σ : Type} [RandomSource σ α]

theorem refreshAll_length (arguments : List (VectorSignal α)) (source : σ) :
    (refreshAll arguments source).1.length = arguments.length := by
  induction arguments generalizing source with
  | nil => rfl
  | cons first rest ih => exact congrArg (· + 1) (ih _)

/-- What every refresh of every argument has, the refreshed arguments have. -/
theorem forall_refreshAll {P : VectorSignal α → Prop} {arguments : List (VectorSignal α)}
    (h : ∀ argument ∈ arguments, ∀ source : σ, P (refresh argument source).1) (source : σ) :
    ∀ argument ∈ (refreshAll arguments source).1, P argument := by
  induction arguments generalizing source with
  | nil => exact fun _ hnone => absurd hnone List.not_mem_nil
  | cons first rest ih =>
    intro argument hmem
    rcases List.mem_cons.1 hmem with rfl | hlater
    · exact h first List.mem_cons_self source
    · exact ih (fun argument hrest => h argument (List.mem_cons_of_mem _ hrest)) _ argument hlater

/-- What holds of rotations that a refresh gives and of all vector signals without a phase holds of
    every part of a refreshed vector signal, if refreshed signals have what is asked of them. -/
theorem everywhere_refresh {P : VectorSignal α → Prop} {Q : Signal α → Prop}
    (hnext : ∀ about period radius phase,
      P (atPhase about period radius (nextPhase phase rotationRange period.value)))
    (hother : ∀ signal : VectorSignal α, signal.phase? = none → P signal)
    (hsignals : ∀ (signal : Signal α) (source : σ), (signal.refresh source).1.Everywhere Q)
    (signal : VectorSignal α) : ∀ source : σ, (refresh signal source).1.Everywhere P Q := by
  induction signal using partInduction with
  | constant value => exact fun _ => .constant (hother _ rfl)
  | combined op arguments value ih =>
    exact fun source => .combined (hother _ rfl) (forall_refreshAll ih source)
  | normalized inner value ih => exact fun source => .normalized (hother _ rfl) (ih source)
  | scaled vector factor value ih =>
    exact fun source => .scaled (hother _ rfl) (ih source) (hsignals factor _)
  | rotated about period radius phase value ih =>
    exact fun source => .rotated (hnext _ _ _ phase) (ih source) (hsignals period _)
      (hsignals radius _)
  | assembled x y z value =>
    exact fun source => .assembled (hother _ rfl) (hsignals x source) (hsignals y _)
      (hsignals z _)

theorem coherent_refresh [Numeric.Lawful α] {signal : VectorSignal α} (h : signal.Coherent) :
    ∀ source : σ, (refresh signal source).1.Coherent := by
  induction h with
  | constant _ => exact fun _ => .constant trivial
  | @combined op arguments _ hmade _ ih =>
    intro source
    have hadmits : op.arity.Admits (refreshAll arguments source).1.length := by
      rw [refreshAll_length]
      exact hmade.1
    exact coherent_combine hadmits (forall_refreshAll ih source)
  | normalized _ _ ih => exact fun source => coherent_closed.normalize (ih source)
  | scaled _ _ hfactor ih =>
    exact fun source => coherent_closed.scale (ih source) (Signal.coherent_refresh hfactor _)
  | rotated _ _ hperiod hradius ih =>
    exact fun source => coherent_atPhase _ (ih source) (Signal.coherent_refresh hperiod _)
      (Signal.coherent_refresh hradius _)
  | assembled _ hx hy hz =>
    exact fun source => coherent_closed.components (Signal.coherent_refresh hx source)
      (Signal.coherent_refresh hy _) (Signal.coherent_refresh hz _)

end Refresh

end Modulation.VectorSignal

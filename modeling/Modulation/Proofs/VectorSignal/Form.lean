import Modulation.Proofs.Signal.Form
import Modulation.Proofs.VectorSignal.Resumption

set_option autoImplicit false

/-! # The form of a vector signal

A vector signal has no bounds of its own, so that vector signals of the same form differ only in
phases, in values and in the form of the signals in them.

`refreshes_keep_form` says of signals and vector signals that after any number of refreshes they
have the form that they had, and that they are written as values of the same form. -/

namespace Modulation.VectorSignal

open Modulation.Config

variable {α : Type}

/-- Two vector signals are the same but for phases, values and the form of the signals in them. -/
inductive SameForm : VectorSignal α → VectorSignal α → Prop where
  | constant (value : Vec3 α) : SameForm (constant value) (constant value)
  | combined {op : VectorOperator} {arguments arguments' : List (VectorSignal α)}
      {value value' : Vec3 α} (hlength : arguments.length = arguments'.length)
      (harguments : ∀ n (h : n < arguments.length) (h' : n < arguments'.length),
        SameForm arguments[n] arguments'[n]) :
      SameForm (combined op arguments value) (combined op arguments' value')
  | normalized {inner inner' : VectorSignal α} {value value' : Vec3 α}
      (hinner : SameForm inner inner') : SameForm (normalized inner value) (normalized inner' value')
  | scaled {vector vector' : VectorSignal α} {factor factor' : Signal α} {value value' : Vec3 α}
      (hvector : SameForm vector vector') (hfactor : factor.SameForm factor') :
      SameForm (scaled vector factor value) (scaled vector' factor' value')
  | rotated {about about' : VectorSignal α} {period period' radius radius' : Signal α}
      {phase phase' : α} {value value' : Vec3 α} (habout : SameForm about about')
      (hperiod : period.SameForm period') (hradius : radius.SameForm radius') :
      SameForm (rotated about period radius phase value) (rotated about' period' radius' phase' value')
  | assembled {x y z x' y' z' : Signal α} {value value' : Vec3 α} (hx : x.SameForm x')
      (hy : y.SameForm y') (hz : z.SameForm z') :
      SameForm (assembled x y z value) (assembled x' y' z' value')

theorem SameForm.refl (signal : VectorSignal α) : SameForm signal signal := by
  induction signal using partInduction with
  | constant value => exact .constant value
  | combined op arguments value ih => exact .combined rfl fun n h _ => ih _ (List.getElem_mem h)
  | normalized inner value ih => exact .normalized ih
  | scaled vector factor value ih => exact .scaled ih (.refl factor)
  | rotated about period radius phase value ih => exact .rotated ih (.refl period) (.refl radius)
  | assembled x y z value => exact .assembled (.refl x) (.refl y) (.refl z)

theorem SameForm.trans {signal signal' signal'' : VectorSignal α} (h : SameForm signal signal')
    (h' : SameForm signal' signal'') : SameForm signal signal'' := by
  induction h generalizing signal'' with
  | constant value => exact h'
  | combined hlength _ ih =>
    cases h' with
    | combined hlength' harguments' =>
      refine .combined (hlength.trans hlength') fun n h h'' => ?_
      exact ih n h (hlength ▸ h) (harguments' n (hlength ▸ h) h'')
  | normalized _ ih =>
    cases h' with
    | normalized hinner' => exact .normalized (ih hinner')
  | scaled _ hfactor ih =>
    cases h' with
    | scaled hvector' hfactor' => exact .scaled (ih hvector') (hfactor.trans hfactor')
  | rotated _ hperiod hradius ih =>
    cases h' with
    | rotated habout' hperiod' hradius' =>
      exact .rotated (ih habout') (hperiod.trans hperiod') (hradius.trans hradius')
  | assembled hx hy hz =>
    cases h' with
    | assembled hx' hy' hz' => exact .assembled (hx.trans hx') (hy.trans hy') (hz.trans hz')

/-! ## Refreshing -/

section Refresh

variable {σ : Type} [Numeric α] [RandomSource σ α]

/-- What ties every argument to what becomes of it ties the arguments to the refreshed ones. -/
theorem forall₂_refreshAll {R : VectorSignal α → VectorSignal α → Prop}
    {arguments : List (VectorSignal α)}
    (h : ∀ argument ∈ arguments, ∀ source : σ, R argument (refresh argument source).1)
    (source : σ) : List.Forall₂ R arguments (refreshAll arguments source).1 := by
  induction arguments generalizing source with
  | nil => exact .nil
  | cons first rest ih =>
    obtain ⟨hfirst, hrest⟩ := List.forall_mem_cons.1 h
    exact .cons (hfirst source) (ih hrest _)

/-- A refresh changes nothing but phases, values and the form of the signals in a vector signal. -/
theorem sameForm_refresh (signal : VectorSignal α) :
    ∀ source : σ, SameForm signal (refresh signal source).1 := by
  have hsignal := Signal.sameForm_refresh (α := α) (σ := σ)
  induction signal using partInduction with
  | constant value => exact fun _ => .constant value
  | combined op arguments value ih =>
    intro source
    obtain ⟨hlength, hparts⟩ := List.forall₂_iff_get.1 (forall₂_refreshAll ih source)
    exact .combined hlength hparts
  | normalized inner value ih => exact fun source => .normalized (ih source)
  | scaled vector factor value ih => exact fun source => .scaled (ih source) (hsignal factor _)
  | rotated about period radius phase value ih =>
    exact fun source => .rotated (ih source) (hsignal period _) (hsignal radius _)
  | assembled x y z value =>
    exact fun source => .assembled (hsignal x source) (hsignal y _) (hsignal z _)

theorem sameForm_refreshTimes (ticks : Nat) (signal : VectorSignal α) (source : σ) :
    SameForm signal (refreshTimes ticks signal source).1 := by
  induction ticks generalizing signal source with
  | zero => exact .refl signal
  | succ ticks ih => exact (sameForm_refresh signal source).trans (ih _ _)

end Refresh

/-! ## Writing -/

/-- Components of the same form are written as sections of the same form. -/
theorem sameForm_componentTable {x y z x' y' z' : Value α} (hx : Value.SameForm x x')
    (hy : Value.SameForm y y') (hz : Value.SameForm z z') :
    Value.SameForm (componentTable x y z) (componentTable x' y' z') :=
  .entry hx (.entry hy (.single _ hz))

/-- Vector signals of the same form are written as values of the same form. -/
theorem SameForm.toValue {signal signal' : VectorSignal α} (h : SameForm signal signal') :
    Value.SameForm signal.toValue signal'.toValue := by
  induction h with
  | constant value => exact .same _
  | @combined op arguments arguments' _ _ hlength _ ih =>
    have hvalues : List.Forall₂ Value.SameForm (toValues arguments) (toValues arguments') := by
      rw [toValues_eq_map, toValues_eq_map, List.forall₂_map_left_iff, List.forall₂_map_right_iff]
      exact List.forall₂_iff_get.2 ⟨hlength, ih⟩
    rw [VectorSignal.toValue, VectorSignal.toValue, argumentSection_eq, argumentSection_eq]
    exact .single _ (.of_entries (Signal.forall₂_keyedArguments hvalues))
  | normalized _ ih => exact .single _ ih
  | scaled _ hfactor ih => exact .single _ (.entry ih (.single _ hfactor.toValue))
  | rotated _ hperiod hradius ih =>
    exact .single _ (.entry ih (.entry hperiod.toValue (.entry hradius.toValue
      (.time (by decide) (.same _)))))
  | assembled hx hy hz => exact sameForm_componentTable hx.toValue hy.toValue hz.toValue

/-- After any number of refreshes, with any numbers drawn, a signal or vector signal has the form
    that it had, and so has the value that it is written as. -/
theorem refreshes_keep_form {σ : Type} [Numeric α] [RandomSource σ α] (ticks : Nat) (source : σ) :
    (∀ signal : Signal α,
      signal.SameForm (signal.refreshTimes ticks source).1
        ∧ Value.SameForm signal.toValue (signal.refreshTimes ticks source).1.toValue)
      ∧ ∀ signal : VectorSignal α,
        signal.SameForm (signal.refreshTimes ticks source).1
          ∧ Value.SameForm signal.toValue (signal.refreshTimes ticks source).1.toValue := by
  refine ⟨fun signal => ?_, fun signal => ?_⟩
  · have hform := Signal.sameForm_refreshTimes ticks signal source
    exact ⟨hform, hform.toValue⟩
  · have hform := sameForm_refreshTimes ticks signal source
    exact ⟨hform, hform.toValue⟩

end Modulation.VectorSignal

import Modulation.Proofs.Config.Form
import Modulation.Proofs.Signal.Resumption

set_option autoImplicit false

/-! # The form of a signal

Two signals have the same form when they differ only in what time changes: in phases, in the numbers
drawn last, in the values held, and in that bounds may have changed places. A trade of bounds is one
of whole signals, whose forms stay.

A refresh keeps the form (`sameForm_refresh`), and so does any number of refreshes
(`sameForm_refreshTimes`). Signals of the same form are written as values of the same form
(`SameForm.toValue`). -/

namespace Modulation.Signal

open Modulation.Config

variable {α : Type}

/-- Two pairs of bounds are the same, or the bounds have changed places. -/
def SameBounds (bounds bounds' : Signal α × Signal α) : Prop :=
  bounds' = bounds ∨ bounds' = bounds.swap

/-- Two signals are the same but for phases, draws, values and bounds that have changed places. The
    bounds `first` and `second` are those of the second signal in the places that they have in the
    first. -/
inductive SameForm : Signal α → Signal α → Prop where
  | constant (value : α) : SameForm (constant value) (constant value)
  | combined {op : Operator} {arguments arguments' : List (Signal α)} {value value' : α}
      (hlength : arguments.length = arguments'.length)
      (harguments : ∀ n (h : n < arguments.length) (h' : n < arguments'.length),
        SameForm arguments[n] arguments'[n]) :
      SameForm (combined op arguments value) (combined op arguments' value')
  | absolute {inner inner' : Signal α} {value value' : α} (hinner : SameForm inner inner') :
      SameForm (absolute inner value) (absolute inner' value')
  | clamped {low high inner first second low' high' inner' : Signal α} {value value' : α}
      (hbounds : SameBounds (first, second) (low', high')) (hlow : SameForm low first)
      (hhigh : SameForm high second) (hinner : SameForm inner inner') :
      SameForm (clamped low high inner value) (clamped low' high' inner' value')
  | periodic {form : Waveform} {low high period first second low' high' period' : Signal α}
      {phase value phase' value' : α} (hbounds : SameBounds (first, second) (low', high'))
      (hlow : SameForm low first) (hhigh : SameForm high second)
      (hperiod : SameForm period period') :
      SameForm (periodic form low high period phase value)
        (periodic form low' high' period' phase' value')
  | drawn {low high first second low' high' : Signal α} {last value last' value' : α}
      (hbounds : SameBounds (first, second) (low', high')) (hlow : SameForm low first)
      (hhigh : SameForm high second) :
      SameForm (drawn low high last value) (drawn low' high' last' value')

theorem SameForm.refl (signal : Signal α) : SameForm signal signal := by
  induction signal using partInduction with
  | constant value => exact .constant value
  | combined op arguments value ih => exact .combined rfl fun n h _ => ih _ (List.getElem_mem h)
  | absolute inner value ih => exact .absolute ih
  | clamped low high inner value ihLow ihHigh ihInner =>
    exact .clamped (Or.inl rfl) ihLow ihHigh ihInner
  | periodic form low high period phase value ihLow ihHigh ihPeriod =>
    exact .periodic (Or.inl rfl) ihLow ihHigh ihPeriod
  | drawn low high last value ihLow ihHigh => exact .drawn (Or.inl rfl) ihLow ihHigh

theorem SameBounds.swap {bounds bounds' : Signal α × Signal α} (h : SameBounds bounds bounds') :
    SameBounds bounds.swap bounds' := by
  rcases h with rfl | rfl
  · exact Or.inr (Prod.swap_swap _).symm
  · exact Or.inl rfl

/-- Bounds that may have changed places twice have changed places or not. -/
theorem SameBounds.trans {first second low high first' second' low' high' : Signal α}
    (h : SameBounds (first, second) (low, high)) (h' : SameBounds (first', second') (low', high'))
    (hlow : SameForm low first') (hhigh : SameForm high second') :
    ∃ first'' second'', SameBounds (first'', second'') (low', high') ∧ SameForm first first''
      ∧ SameForm second second'' := by
  rcases h with heq | heq
  · cases heq
    exact ⟨first', second', h', hlow, hhigh⟩
  · cases heq
    exact ⟨second', first', h'.swap, hhigh, hlow⟩

theorem SameForm.trans {signal signal' signal'' : Signal α} (h : SameForm signal signal')
    (h' : SameForm signal' signal'') : SameForm signal signal'' := by
  induction h generalizing signal'' with
  | constant value => exact h'
  | combined hlength _ ih =>
    cases h' with
    | combined hlength' harguments' =>
      refine .combined (hlength.trans hlength') fun n h h'' => ?_
      exact ih n h (hlength ▸ h) (harguments' n (hlength ▸ h) h'')
  | absolute _ ih =>
    cases h' with
    | absolute hinner' => exact .absolute (ih hinner')
  | clamped hbounds _ _ _ ihLow ihHigh ihInner =>
    cases h' with
    | clamped hbounds' hlow' hhigh' hinner' =>
      obtain ⟨_, _, hboth, hlow, hhigh⟩ := hbounds.trans hbounds' hlow' hhigh'
      exact .clamped hboth (ihLow hlow) (ihHigh hhigh) (ihInner hinner')
  | periodic hbounds _ _ _ ihLow ihHigh ihPeriod =>
    cases h' with
    | periodic hbounds' hlow' hhigh' hperiod' =>
      obtain ⟨_, _, hboth, hlow, hhigh⟩ := hbounds.trans hbounds' hlow' hhigh'
      exact .periodic hboth (ihLow hlow) (ihHigh hhigh) (ihPeriod hperiod')
  | drawn hbounds _ _ ihLow ihHigh =>
    cases h' with
    | drawn hbounds' hlow' hhigh' =>
      obtain ⟨_, _, hboth, hlow, hhigh⟩ := hbounds.trans hbounds' hlow' hhigh'
      exact .drawn hboth (ihLow hlow) (ihHigh hhigh)

/-! ## Refreshing -/

section Refresh

variable {σ : Type} [Numeric α] [RandomSource σ α]

omit [RandomSource σ α] in
/-- Putting bounds in order changes no more than their places. -/
theorem sameBounds_ordered (low high : Signal α) : SameBounds (low, high) (ordered low high) := by
  unfold ordered
  split
  · exact Or.inr rfl
  · exact Or.inl rfl

/-- What ties every argument to what becomes of it ties the arguments to the refreshed ones. -/
theorem forall₂_refreshAll {R : Signal α → Signal α → Prop} {arguments : List (Signal α)}
    (h : ∀ argument ∈ arguments, ∀ source : σ, R argument (refresh argument source).1)
    (source : σ) : List.Forall₂ R arguments (refreshAll arguments source).1 := by
  induction arguments generalizing source with
  | nil => exact .nil
  | cons first rest ih =>
    obtain ⟨hfirst, hrest⟩ := List.forall_mem_cons.1 h
    exact .cons (hfirst source) (ih hrest _)

/-- A refresh changes nothing but phases, draws, values and the places of bounds. -/
theorem sameForm_refresh (signal : Signal α) :
    ∀ source : σ, SameForm signal (refresh signal source).1 := by
  induction signal using partInduction with
  | constant value => exact fun _ => .constant value
  | combined op arguments value ih =>
    intro source
    obtain ⟨hlength, hparts⟩ := List.forall₂_iff_get.1 (forall₂_refreshAll ih source)
    exact .combined hlength hparts
  | absolute inner value ih => exact fun source => .absolute (ih source)
  | clamped low high inner value ihLow ihHigh ihInner =>
    exact fun source =>
      .clamped (sameBounds_ordered _ _) (ihLow source) (ihHigh _) (ihInner _)
  | periodic form low high period phase value ihLow ihHigh ihPeriod =>
    exact fun source =>
      .periodic (sameBounds_ordered _ _) (ihLow source) (ihHigh _) (ihPeriod _)
  | drawn low high last value ihLow ihHigh =>
    exact fun source => .drawn (sameBounds_ordered _ _) (ihLow source) (ihHigh _)

theorem sameForm_refreshTimes (ticks : Nat) (signal : Signal α) (source : σ) :
    SameForm signal (refreshTimes ticks signal source).1 := by
  induction ticks generalizing signal source with
  | zero => exact .refl signal
  | succ ticks ih => exact (sameForm_refresh signal source).trans (ih _ _)

end Refresh

/-! ## Writing -/

/-- Two bounds that have the same form but for their places are written so. -/
theorem SameBounds.written {low high first second low' high' : Signal α}
    (hbounds : SameBounds (first, second) (low', high'))
    (hlow : Value.SameForm low.toValue first.toValue)
    (hhigh : Value.SameForm high.toValue second.toValue) {lowKey highKey : String}
    (hkeys : (lowKey, highKey) ∈ boundKeys) {rest rest' : Section α}
    (hrest : Value.SameForm (.table rest) (.table rest')) :
    Value.SameForm (.table ((lowKey, low.toValue) :: (highKey, high.toValue) :: rest))
      (.table ((lowKey, low'.toValue) :: (highKey, high'.toValue) :: rest')) := by
  rcases hbounds with heq | heq
  · cases heq
    exact .entry hlow (.entry hhigh hrest)
  · cases heq
    exact .trade hkeys hlow hhigh hrest

theorem forall₂_keyedArguments {values values' : List (Value α)}
    (h : List.Forall₂ Value.SameForm values values') :
    List.Forall₂ (fun entry entry' => entry.1 = entry'.1 ∧ Value.SameForm entry.2 entry'.2)
      (keyedArguments values) (keyedArguments values') := by
  obtain ⟨hlength, hvalues⟩ := List.forall₂_iff_get.1 h
  refine List.forall₂_iff_get.2 ⟨by simpa [keyedArguments] using hlength, fun n hn hn' => ?_⟩
  simp only [keyedArguments, List.length_mapIdx] at hn hn'
  simpa [keyedArguments] using hvalues n hn hn'

theorem waveform_boundKeys (form : Waveform) : (form.lowKey, form.highKey) ∈ boundKeys := by
  cases form <;> decide

/-- Signals of the same form are written as values of the same form. -/
theorem SameForm.toValue {signal signal' : Signal α} (h : SameForm signal signal') :
    Value.SameForm signal.toValue signal'.toValue := by
  induction h with
  | constant value => exact .same _
  | @combined op arguments arguments' _ _ hlength _ ih =>
    have hvalues : List.Forall₂ Value.SameForm (toValues arguments) (toValues arguments') := by
      rw [toValues_eq_map, toValues_eq_map, List.forall₂_map_left_iff, List.forall₂_map_right_iff]
      exact List.forall₂_iff_get.2 ⟨hlength, ih⟩
    rw [Signal.toValue, Signal.toValue, argumentSection_eq, argumentSection_eq]
    exact .single _ (.of_entries (forall₂_keyedArguments hvalues))
  | absolute _ ih => exact .single _ ih
  | clamped hbounds _ _ _ ihLow ihHigh ihInner =>
    exact .single _ (hbounds.written ihLow ihHigh (by decide) (.single _ ihInner))
  | @periodic form _ _ _ _ _ _ _ _ _ _ _ _ hbounds _ _ _ ihLow ihHigh ihPeriod =>
    exact .single _ (hbounds.written ihLow ihHigh (waveform_boundKeys form)
      (.entry ihPeriod (.time (by decide) (.same _))))
  | drawn hbounds _ _ ihLow ihHigh =>
    exact .single _ (hbounds.written ihLow ihHigh (by decide) (.time (by decide) (.same _)))

end Modulation.Signal

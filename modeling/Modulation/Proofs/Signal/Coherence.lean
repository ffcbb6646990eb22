import Modulation.Proofs.Numeric.Laws
import Modulation.Proofs.Provider.Choice
import Modulation.Signal.Refresh

set_option autoImplicit false

/-! # Coherent signals

A signal is coherent when each signal in it is well made: it has as many arguments as its operator
admits, its bounds are in order, and the value that it holds is the one that its parts have now.
These are conditions on a signal and its parts as they stand, and they make the functions that build
signals put a coherent signal together again as it was.

`Closed P` says that those functions keep `P`. Coherence is closed (`coherent_closed`) and is kept
by a refresh (`coherent_refresh`). -/

namespace Modulation.Signal

variable {α : Type}

/-! ## Signals within a signal -/

/-- `P` holds of a signal and of every signal in it. -/
inductive Everywhere (P : Signal α → Prop) : Signal α → Prop where
  | constant {value : α} (h : P (constant value)) : Everywhere P (constant value)
  | combined {op : Operator} {arguments : List (Signal α)} {value : α}
      (h : P (combined op arguments value))
      (harguments : ∀ argument ∈ arguments, Everywhere P argument) :
      Everywhere P (combined op arguments value)
  | absolute {inner : Signal α} {value : α} (h : P (absolute inner value))
      (hinner : Everywhere P inner) : Everywhere P (absolute inner value)
  | clamped {low high inner : Signal α} {value : α} (h : P (clamped low high inner value))
      (hlow : Everywhere P low) (hhigh : Everywhere P high) (hinner : Everywhere P inner) :
      Everywhere P (clamped low high inner value)
  | periodic {form : Waveform} {low high period : Signal α} {phase value : α}
      (h : P (periodic form low high period phase value))
      (hlow : Everywhere P low) (hhigh : Everywhere P high) (hperiod : Everywhere P period) :
      Everywhere P (periodic form low high period phase value)
  | drawn {low high : Signal α} {last value : α} (h : P (drawn low high last value))
      (hlow : Everywhere P low) (hhigh : Everywhere P high) :
      Everywhere P (drawn low high last value)

theorem Everywhere.mono {P Q : Signal α → Prop} (hPQ : ∀ signal, P signal → Q signal)
    {signal : Signal α} (h : signal.Everywhere P) : signal.Everywhere Q := by
  induction h with
  | constant h => exact .constant (hPQ _ h)
  | combined h _ ih => exact .combined (hPQ _ h) ih
  | absolute h _ ih => exact .absolute (hPQ _ h) ih
  | clamped h _ _ _ ihLow ihHigh ihInner => exact .clamped (hPQ _ h) ihLow ihHigh ihInner
  | periodic h _ _ _ ihLow ihHigh ihPeriod => exact .periodic (hPQ _ h) ihLow ihHigh ihPeriod
  | drawn h _ _ ihLow ihHigh => exact .drawn (hPQ _ h) ihLow ihHigh

theorem Everywhere.self {P : Signal α → Prop} {signal : Signal α} (h : signal.Everywhere P) :
    P signal := by
  cases h <;> assumption

theorem Everywhere.and {P Q : Signal α → Prop} {signal : Signal α} (hP : signal.Everywhere P)
    (hQ : signal.Everywhere Q) : signal.Everywhere fun part => P part ∧ Q part := by
  induction hP with
  | constant h => exact .constant ⟨h, hQ.self⟩
  | combined h _ ih =>
    cases hQ with
    | combined h' harguments =>
      exact .combined ⟨h, h'⟩ fun argument hmem => ih argument hmem (harguments argument hmem)
  | absolute h _ ih =>
    cases hQ with
    | absolute h' hinner => exact .absolute ⟨h, h'⟩ (ih hinner)
  | clamped h _ _ _ ihLow ihHigh ihInner =>
    cases hQ with
    | clamped h' hlow hhigh hinner =>
      exact .clamped ⟨h, h'⟩ (ihLow hlow) (ihHigh hhigh) (ihInner hinner)
  | periodic h _ _ _ ihLow ihHigh ihPeriod =>
    cases hQ with
    | periodic h' hlow hhigh hperiod =>
      exact .periodic ⟨h, h'⟩ (ihLow hlow) (ihHigh hhigh) (ihPeriod hperiod)
  | drawn h _ _ ihLow ihHigh =>
    cases hQ with
    | drawn h' hlow hhigh => exact .drawn ⟨h, h'⟩ (ihLow hlow) (ihHigh hhigh)

/-- What holds everywhere in a signal holds everywhere in each signal in it. -/
theorem Everywhere.parts {P : Signal α → Prop} {signal : Signal α} (h : signal.Everywhere P) :
    signal.Everywhere (Everywhere P) := by
  induction h with
  | constant h => exact .constant (.constant h)
  | combined h harguments ih => exact .combined (.combined h harguments) ih
  | absolute h hinner ih => exact .absolute (.absolute h hinner) ih
  | clamped h hlow hhigh hinner ihLow ihHigh ihInner =>
    exact .clamped (.clamped h hlow hhigh hinner) ihLow ihHigh ihInner
  | periodic h hlow hhigh hperiod ihLow ihHigh ihPeriod =>
    exact .periodic (.periodic h hlow hhigh hperiod) ihLow ihHigh ihPeriod
  | drawn h hlow hhigh ihLow ihHigh => exact .drawn (.drawn h hlow hhigh) ihLow ihHigh

variable [Numeric α]

/-- Two bounds are in order. -/
def InOrder (low high : Signal α) : Prop :=
  ¬ low.value > high.value

/-- The arguments are as many as admitted, the bounds are in order, and the value is the one that
    the parts of the signal have now. -/
def WellMade : Signal α → Prop
  | constant _ => True
  | combined op arguments value =>
    op.arity.Admits arguments.length ∧ value = op.apply (arguments.map Signal.value)
  | absolute inner value => value = Numeric.abs inner.value
  | clamped low high inner value =>
    InOrder low high ∧ value = Numeric.larger low.value (Numeric.smaller high.value inner.value)
  | periodic form low high _ phase value =>
    InOrder low high ∧ value = Numeric.lerp low.value high.value (form.level phase)
  | drawn low high last value => InOrder low high ∧ value = last

/-- Every signal in a signal is well made. -/
def Coherent (signal : Signal α) : Prop :=
  signal.Everywhere WellMade

/-! ## Bounds -/

theorem ordered_eq_self {low high : Signal α} (h : InOrder low high) :
    ordered low high = (low, high) :=
  if_neg h

/-- What holds of two bounds holds of them in order. -/
theorem ordered_of_both {P : Signal α → Prop} {low high : Signal α} (hlow : P low)
    (hhigh : P high) : P (ordered low high).1 ∧ P (ordered low high).2 := by
  unfold ordered
  split
  · exact ⟨hhigh, hlow⟩
  · exact ⟨hlow, hhigh⟩

theorem inOrder_ordered [Numeric.Lawful α] (low high : Signal α) :
    InOrder (ordered low high).1 (ordered low high).2 := by
  unfold ordered
  split
  -- The bounds change places only once: they cannot exceed each other both ways.
  · next h => exact Numeric.Lawful.lt_asymm h
  · next h => exact h

/-! ## Building -/

/-- What the functions that build signals keep. -/
structure Closed (P : Signal α → Prop) : Prop where
  constant : ∀ value, P (constant value)
  combine : ∀ {op arguments}, op.arity.Admits arguments.length →
    (∀ argument ∈ arguments, P argument) → P (combine op arguments)
  abs : ∀ {inner}, P inner → P (abs inner)
  clamp : ∀ {low high inner}, P low → P high → P inner → P (clamp low high inner)
  wave : ∀ {form low high period} initial, P low → P high → P period →
    P (wave form low high period initial)
  random : ∀ {low high}, P low → P high → P (random low high)
  withLast : ∀ {low high} last, P low → P high → P (withLast low high last)

/-- What holds of the signals with a phase that are built, and of all signals without one, holds of
    every signal in a signal that is built from parts of which it holds. -/
theorem everywhere_closed {P : Signal α → Prop}
    (hwave : ∀ form low high period initial, P (wave form low high period initial))
    (hother : ∀ signal : Signal α, signal.phase? = none → P signal) : Closed (Everywhere P) where
  constant _ := .constant (hother _ rfl)
  combine _ harguments := .combined (hother _ rfl) harguments
  abs hinner := .absolute (hother _ rfl) hinner
  clamp hlow hhigh hinner := by
    obtain ⟨hfirst, hsecond⟩ := ordered_of_both hlow hhigh
    exact .clamped (hother _ rfl) hfirst hsecond hinner
  wave initial hlow hhigh hperiod := by
    obtain ⟨hfirst, hsecond⟩ := ordered_of_both hlow hhigh
    exact .periodic (hwave _ _ _ _ initial) hfirst hsecond hperiod
  random hlow hhigh := by
    obtain ⟨hfirst, hsecond⟩ := ordered_of_both hlow hhigh
    exact .drawn (hother _ rfl) hfirst hsecond
  withLast _ hlow hhigh := by
    obtain ⟨hfirst, hsecond⟩ := ordered_of_both hlow hhigh
    exact .drawn (hother _ rfl) hfirst hsecond

/-- An operator combines arguments just when they are as many as it admits. -/
theorem combine?_eq_ok_iff {op : Operator} {arguments : List (Signal α)} {signal : Signal α} :
    combine? op arguments = .ok signal
      ↔ op.arity.Admits arguments.length ∧ signal = combine op arguments :=
  Arity.check_map_eq_ok_iff

theorem coherent_combine {op : Operator} {arguments : List (Signal α)}
    (hadmits : op.arity.Admits arguments.length)
    (harguments : ∀ argument ∈ arguments, argument.Coherent) : (combine op arguments).Coherent :=
  .combined ⟨hadmits, rfl⟩ harguments

theorem coherent_abs {inner : Signal α} (h : inner.Coherent) : (abs inner).Coherent :=
  .absolute rfl h

section Lawful

variable [Numeric.Lawful α]

/-- The sign of an initial progress does not count. -/
theorem wave_abs (form : Waveform) (low high period : Signal α) (initial : α) :
    wave form low high period (Numeric.abs initial) = wave form low high period initial := by
  rw [wave, startPhase, Numeric.Lawful.abs_abs]
  rfl

theorem coherent_clamp {low high inner : Signal α} (hlow : low.Coherent) (hhigh : high.Coherent)
    (hinner : inner.Coherent) : (clamp low high inner).Coherent := by
  obtain ⟨hfirst, hsecond⟩ := ordered_of_both hlow hhigh
  exact .clamped ⟨inOrder_ordered low high, rfl⟩ hfirst hsecond hinner

theorem coherent_atPhase {low high period : Signal α} (form : Waveform) (phase : α)
    (hlow : low.Coherent) (hhigh : high.Coherent) (hperiod : period.Coherent) :
    (atPhase form low high period phase).Coherent := by
  obtain ⟨hfirst, hsecond⟩ := ordered_of_both hlow hhigh
  exact .periodic ⟨inOrder_ordered low high, rfl⟩ hfirst hsecond hperiod

theorem coherent_withLast {low high : Signal α} (last : α) (hlow : low.Coherent)
    (hhigh : high.Coherent) : (withLast low high last).Coherent := by
  obtain ⟨hfirst, hsecond⟩ := ordered_of_both hlow hhigh
  exact .drawn ⟨inOrder_ordered low high, rfl⟩ hfirst hsecond

theorem coherent_closed : Closed (α := α) Coherent where
  constant _ := .constant trivial
  combine := coherent_combine
  abs := coherent_abs
  clamp := coherent_clamp
  wave _ := coherent_atPhase _ _
  random := coherent_withLast _
  withLast := coherent_withLast

end Lawful

/-! ## Refreshing -/

section Refresh

variable {σ : Type} [RandomSource σ α]

theorem isConstant_refresh (signal : Signal α) (source : σ) :
    (refresh signal source).1.isConstant = signal.isConstant := by
  cases signal <;> rfl

theorem refresh_of_isConstant {signal : Signal α} (h : signal.isConstant = true) (source : σ) :
    refresh signal source = (signal, source) := by
  cases signal with
  | constant value => rfl
  | _ => cases h

theorem refreshAll_length (arguments : List (Signal α)) (source : σ) :
    (refreshAll arguments source).1.length = arguments.length := by
  induction arguments generalizing source with
  | nil => rfl
  | cons first rest ih => exact congrArg (· + 1) (ih _)

/-- What every refresh of every argument has, the refreshed arguments have. -/
theorem forall_refreshAll {P : Signal α → Prop} {arguments : List (Signal α)}
    (h : ∀ argument ∈ arguments, ∀ source : σ, P (refresh argument source).1) (source : σ) :
    ∀ argument ∈ (refreshAll arguments source).1, P argument := by
  induction arguments generalizing source with
  | nil => exact fun _ hnone => absurd hnone List.not_mem_nil
  | cons first rest ih =>
    intro argument hmem
    rcases List.mem_cons.1 hmem with rfl | hlater
    · exact h first List.mem_cons_self source
    · exact ih (fun argument hrest => h argument (List.mem_cons_of_mem _ hrest)) _ argument hlater

/-- What holds of the signals with a phase that a refresh gives, and of all signals without one,
    holds of every signal in a refreshed signal. -/
theorem everywhere_refresh {P : Signal α → Prop}
    (hnext : ∀ form low high period phase,
      P (atPhase form low high period (nextPhase phase form.range period.value)))
    (hother : ∀ signal : Signal α, signal.phase? = none → P signal) (signal : Signal α) :
    ∀ source : σ, (refresh signal source).1.Everywhere P := by
  induction signal using partInduction with
  | constant value => exact fun _ => .constant (hother _ rfl)
  | combined op arguments value ih =>
    exact fun source => .combined (hother _ rfl) (forall_refreshAll ih source)
  | absolute inner value ih => exact fun source => .absolute (hother _ rfl) (ih source)
  | clamped low high inner value ihLow ihHigh ihInner =>
    intro source
    obtain ⟨hfirst, hsecond⟩ := ordered_of_both (ihLow source) (ihHigh (refresh low source).2)
    exact .clamped (hother _ rfl) hfirst hsecond (ihInner _)
  | periodic form low high period phase value ihLow ihHigh ihPeriod =>
    intro source
    obtain ⟨hfirst, hsecond⟩ := ordered_of_both (ihLow source) (ihHigh (refresh low source).2)
    exact .periodic (hnext form _ _ _ phase) hfirst hsecond (ihPeriod _)
  | drawn low high last value ihLow ihHigh =>
    intro source
    obtain ⟨hfirst, hsecond⟩ := ordered_of_both (ihLow source) (ihHigh (refresh low source).2)
    exact .drawn (hother _ rfl) hfirst hsecond

theorem coherent_refresh [Numeric.Lawful α] {signal : Signal α} (h : signal.Coherent) :
    ∀ source : σ, (refresh signal source).1.Coherent := by
  induction h with
  | constant _ => exact fun _ => .constant trivial
  | @combined op arguments _ hmade _ ih =>
    intro source
    -- A refresh computes the value anew but does not count the arguments again.
    have hadmits : op.arity.Admits (refreshAll arguments source).1.length := by
      rw [refreshAll_length]
      exact hmade.1
    exact coherent_combine hadmits (forall_refreshAll ih source)
  | absolute _ _ ih => exact fun source => coherent_abs (ih source)
  | clamped _ _ _ _ ihLow ihHigh ihInner =>
    exact fun source => coherent_clamp (ihLow source) (ihHigh _) (ihInner _)
  | @periodic form _ _ _ _ _ _ _ _ _ ihLow ihHigh ihPeriod =>
    exact fun source => coherent_atPhase form _ (ihLow source) (ihHigh _) (ihPeriod _)
  | drawn _ _ _ ihLow ihHigh =>
    exact fun source => coherent_withLast _ (ihLow source) (ihHigh _)

end Refresh

end Modulation.Signal

import Modulation.Proofs.Binary64.Interpolation
import Modulation.Proofs.Signal.Draws
import Modulation.Proofs.Signal.Form
import Modulation.Proofs.Signal.Reachable

set_option autoImplicit false

/-! # Bounds given the other way round

A periodic or random signal may be given its bounds in either order. Where one bound exceeds the
other the order is settled, but bounds that are equal, or of which one is no number, stay as they
were given. Two signals that differ in the order of their bounds may therefore hold them in
different places for any number of ticks, and in the same places later.

`Mirrored` allows for both. A refresh keeps signals mirrored and gives them the same values
(`mirrored_refresh`), because bounds that draw no numbers move the same way in either place, and
because interpolation between bounds of which neither exceeds the other gives the same number from
either end. -/

namespace Modulation.Signal

open Modulation.Binary64

variable {σ : Type} [RandomSource σ Float]

/-- Two signals have the same number as their value. -/
def SameValue (signal signal' : Signal Float) : Prop :=
  SameNumber signal.value signal'.value

/-- Two signals are the same but for their values, for a number drawn last, and for the places of
    their bounds, which draw no numbers. -/
inductive Mirrored : Signal Float → Signal Float → Prop where
  | periodic {form : Waveform} {low high low' high' period : Signal Float}
      {phase value value' : Float} (hbounds : SameBounds (low, high) (low', high'))
      (hlow : low.randomCount = 0) (hhigh : high.randomCount = 0) :
      Mirrored (periodic form low high period phase value)
        (periodic form low' high' period phase value')
  | drawn {low high low' high' : Signal Float} {last last' value value' : Float}
      (hbounds : SameBounds (low, high) (low', high')) (hlow : low.randomCount = 0)
      (hhigh : high.randomCount = 0) :
      Mirrored (drawn low high last value) (drawn low' high' last' value')

/-! ## Bounds in order, given either way -/

/-- Bounds in order are the same whichever way they are given, unless neither exceeds the other. -/
theorem ordered_swap (low high : Signal Float) :
    ordered high low = ordered low high
      ∨ (¬ low.value > high.value ∧ ¬ high.value > low.value ∧ ordered low high = (low, high)
        ∧ ordered high low = (high, low)) := by
  by_cases hlow : low.value > high.value
  · have hhigh : ¬ high.value > low.value := Numeric.Lawful.lt_asymm hlow
    exact Or.inl ((if_neg hhigh).trans (if_pos hlow).symm)
  · by_cases hhigh : high.value > low.value
    · exact Or.inl ((if_pos hhigh).trans (if_neg hlow).symm)
    · exact Or.inr ⟨hlow, hhigh, if_neg hlow, if_neg hhigh⟩

/-- What bounds in order have in common whichever way they are given. -/
structure AlikeBounds (bounds bounds' : Signal Float × Signal Float) : Prop where
  places : SameBounds bounds bounds'
  between : ∀ t, SameNumber (Numeric.lerp bounds.1.value bounds.2.value t)
    (Numeric.lerp bounds'.1.value bounds'.2.value t)

theorem alikeBounds_ordered {low high low' high' : Signal Float}
    (h : SameBounds (low, high) (low', high')) :
    AlikeBounds (ordered low high) (ordered low' high') := by
  rcases h with heq | heq
  · cases heq
    exact ⟨Or.inl rfl, fun _ => .refl _⟩
  · cases heq
    rcases ordered_swap low high with hsame | ⟨hlow, hhigh, hforward, hbackward⟩
    · rw [hsame]
      exact ⟨Or.inl rfl, fun _ => .refl _⟩
    · rw [hforward, hbackward]
      exact ⟨Or.inr rfl, fun t => sameNumber_lerp_swap hlow hhigh t⟩

theorem randomCount_ordered_eq_zero {low high : Signal Float} (hlow : low.randomCount = 0)
    (hhigh : high.randomCount = 0) :
    (ordered low high).1.randomCount = 0 ∧ (ordered low high).2.randomCount = 0 :=
  ordered_of_both (P := fun signal => signal.randomCount = 0) hlow hhigh

/-! ## Building -/

section Building

variable {low high low' high' : Signal Float} (hbounds : SameBounds (low, high) (low', high'))
  (hlow : low.randomCount = 0) (hhigh : high.randomCount = 0)

include hbounds

theorem sameValue_atPhase (form : Waveform) (period : Signal Float) (phase : Float) :
    SameValue (atPhase form low high period phase) (atPhase form low' high' period phase) :=
  (alikeBounds_ordered hbounds).between (form.level phase)

include hlow hhigh

theorem mirrored_atPhase (form : Waveform) (period : Signal Float) (phase : Float) :
    Mirrored (atPhase form low high period phase) (atPhase form low' high' period phase) := by
  obtain ⟨hfirst, hsecond⟩ := randomCount_ordered_eq_zero hlow hhigh
  exact .periodic (alikeBounds_ordered hbounds).places hfirst hsecond

theorem mirrored_withLast (last last' : Float) :
    Mirrored (withLast low high last) (withLast low' high' last') := by
  obtain ⟨hfirst, hsecond⟩ := randomCount_ordered_eq_zero hlow hhigh
  exact .drawn (alikeBounds_ordered hbounds).places hfirst hsecond

end Building

/-! ## Refreshing -/

/-- Nothing is drawn from a source where there are no random signals. -/
theorem source_refresh {signal : Signal Float} (h : signal.randomCount = 0) (source : σ) :
    (refresh signal source).2 = source := by
  have htakes := takes_refresh signal
  rw [h] at htakes
  exact htakes.source source

theorem SameBounds.randomCount_eq_zero {low high low' high' : Signal Float}
    (h : SameBounds (low, high) (low', high')) (hlow : low.randomCount = 0)
    (hhigh : high.randomCount = 0) : low'.randomCount = 0 ∧ high'.randomCount = 0 := by
  rcases h with heq | heq
  · cases heq
    exact ⟨hlow, hhigh⟩
  · cases heq
    exact ⟨hhigh, hlow⟩

/-- Bounds move the same way in either place. -/
theorem SameBounds.refreshed {low high low' high' : Signal Float}
    (h : SameBounds (low, high) (low', high')) (source : σ) :
    SameBounds ((refresh low source).1, (refresh high source).1)
      ((refresh low' source).1, (refresh high' source).1) := by
  rcases h with heq | heq
  · cases heq
    exact Or.inl rfl
  · cases heq
    exact Or.inr rfl

section Bounds

variable {low high : Signal Float} (hlow : low.randomCount = 0) (hhigh : high.randomCount = 0)

include hlow hhigh

/-- Where the bounds draw nothing, all parts of a periodic signal are refreshed from one source. -/
theorem refresh_periodic (form : Waveform) (period : Signal Float) (phase value : Float)
    (source : σ) :
    refresh (periodic form low high period phase value) source
      = (atPhase form (refresh low source).1 (refresh high source).1 (refresh period source).1
          (nextPhase phase form.range (refresh period source).1.value),
        (refresh period source).2) := by
  show (atPhase form (refresh low source).1 (refresh high (refresh low source).2).1
      (refresh period (refresh high (refresh low source).2).2).1
      (nextPhase phase form.range (refresh period (refresh high (refresh low source).2).2).1.value),
    (refresh period (refresh high (refresh low source).2).2).2) = _
  rw [source_refresh hlow, source_refresh hhigh]

/-- Where the bounds draw nothing, a random signal draws the next number. -/
theorem refresh_drawn (last value : Float) (source : σ) :
    refresh (drawn low high last value) source
      = (withLast (refresh low source).1 (refresh high source).1
          (Numeric.lerp (ordered (refresh low source).1 (refresh high source).1).1.value
            (ordered (refresh low source).1 (refresh high source).1).2.value
            (RandomSource.next source).1),
        (RandomSource.next source).2) := by
  show (withLast (refresh low source).1 (refresh high (refresh low source).2).1
      (Numeric.lerp
        (ordered (refresh low source).1 (refresh high (refresh low source).2).1).1.value
        (ordered (refresh low source).1 (refresh high (refresh low source).2).1).2.value
        (RandomSource.next (refresh high (refresh low source).2).2).1),
    (RandomSource.next (refresh high (refresh low source).2).2).2) = _
  rw [source_refresh hlow, source_refresh hhigh]

theorem randomCount_refresh_eq_zero (source : σ) :
    (refresh low source).1.randomCount = 0 ∧ (refresh high source).1.randomCount = 0 := by
  rw [randomCount_refresh, randomCount_refresh]
  exact ⟨hlow, hhigh⟩

end Bounds

/-- Mirrored signals are mirrored after a refresh and have the same value, and the same numbers are
    drawn. -/
theorem mirrored_refresh {signal signal' : Signal Float} (h : Mirrored signal signal')
    (source : σ) :
    Mirrored (refresh signal source).1 (refresh signal' source).1
      ∧ SameValue (refresh signal source).1 (refresh signal' source).1
      ∧ (refresh signal' source).2 = (refresh signal source).2 := by
  cases h with
  | periodic hbounds hlow hhigh =>
    obtain ⟨hlow', hhigh'⟩ := hbounds.randomCount_eq_zero hlow hhigh
    obtain ⟨hcount, hcountHigh⟩ := randomCount_refresh_eq_zero hlow hhigh source
    have hplaces := hbounds.refreshed source
    rw [refresh_periodic hlow hhigh, refresh_periodic hlow' hhigh']
    exact ⟨mirrored_atPhase hplaces hcount hcountHigh _ _ _, sameValue_atPhase hplaces _ _ _, rfl⟩
  | drawn hbounds hlow hhigh =>
    obtain ⟨hlow', hhigh'⟩ := hbounds.randomCount_eq_zero hlow hhigh
    obtain ⟨hcount, hcountHigh⟩ := randomCount_refresh_eq_zero hlow hhigh source
    have hplaces := hbounds.refreshed source
    rw [refresh_drawn hlow hhigh, refresh_drawn hlow' hhigh']
    exact ⟨mirrored_withLast hplaces hcount hcountHigh _ _,
      (alikeBounds_ordered hplaces).between _, rfl⟩

/-- Mirrored signals have the same values after every tick. -/
theorem sameValue_samples {signal signal' : Signal Float} (h : Mirrored signal signal')
    (ticks : Nat) (source : σ) :
    List.Forall₂ SameValue (samples ticks signal source).1 (samples ticks signal' source).1 := by
  induction ticks generalizing signal signal' source with
  | zero => exact .nil
  | succ ticks ih =>
    obtain ⟨hmirrored, hvalue, hsource⟩ := mirrored_refresh h source
    refine .cons hvalue ?_
    show List.Forall₂ SameValue (samples ticks (refresh signal source).1 (refresh signal source).2).1
      (samples ticks (refresh signal' source).1 (refresh signal' source).2).1
    rw [hsource]
    exact ih hmirrored _

/-- A periodic signal has the same values whichever way its bounds are given, before the first
    refresh and after every one, and a random signal has the same values after every refresh, if the
    bounds draw no numbers. -/
theorem bounds_either_way {low high : Signal Float} (hlow : low.randomCount = 0)
    (hhigh : high.randomCount = 0) (ticks : Nat) (source : σ) :
    (∀ form (period : Signal Float) (initial : Float),
      SameValue (wave form low high period initial) (wave form high low period initial)
        ∧ List.Forall₂ SameValue (samples ticks (wave form low high period initial) source).1
          (samples ticks (wave form high low period initial) source).1)
      ∧ List.Forall₂ SameValue (samples ticks (random low high) source).1
        (samples ticks (random high low) source).1 := by
  have hswapped : SameBounds (low, high) (high, low) := Or.inr rfl
  refine ⟨fun form period initial => ⟨sameValue_atPhase hswapped form period _, ?_⟩, ?_⟩
  · exact sameValue_samples (mirrored_atPhase hswapped hlow hhigh form period _) ticks source
  · exact sameValue_samples (mirrored_withLast hswapped hlow hhigh _ _) ticks source

/-- A ramp that reaches a fixed bound after one tick and passes it after two, given either way. -/
theorem ramp_either_way :
    (ramp.randomCount = 0 ∧ (constant (0.25 : Float)).randomCount = 0)
      ∧ (∀ form (period : Signal Float) (initial : Float),
        SameValue (wave form ramp (constant 0.25) period initial)
            (wave form (constant 0.25) ramp period initial)
          ∧ List.Forall₂ SameValue
            (samples 3 (wave form ramp (constant 0.25) period initial)
              (fun _ => 0.5 : Draws Float)).1
            (samples 3 (wave form (constant 0.25) ramp period initial)
              (fun _ => 0.5 : Draws Float)).1)
      ∧ List.Forall₂ SameValue
        (samples 3 (random ramp (constant 0.25)) (fun _ => 0.5 : Draws Float)).1
        (samples 3 (random (constant 0.25) ramp) (fun _ => 0.5 : Draws Float)).1 :=
  ⟨⟨rfl, rfl⟩, bounds_either_way rfl rfl 3 (fun _ => 0.5)⟩

end Modulation.Signal

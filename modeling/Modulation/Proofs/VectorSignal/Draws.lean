import Modulation.Proofs.Signal.Draws
import Modulation.VectorSignal.Refresh

set_option autoImplicit false

/-! # What a vector signal draws

Only the signals in a vector signal draw. As for signals, the number of random signals among them is
the number of draws in a refresh, and a refresh keeps it (`steady_refresh`). -/

namespace Modulation.VectorSignal

variable {α : Type}

mutual

/-- The number of random signals in a vector signal. -/
def randomCount : VectorSignal α → Nat
  | constant _ => 0
  | combined _ arguments _ => randomCounts arguments
  | normalized inner _ => inner.randomCount
  | scaled vector factor _ => vector.randomCount + factor.randomCount
  | rotated about period radius _ _ =>
    about.randomCount + period.randomCount + radius.randomCount
  | assembled x y z _ => x.randomCount + y.randomCount + z.randomCount

/-- The number of random signals in a list of vector signals. -/
def randomCounts : List (VectorSignal α) → Nat
  | [] => 0
  | signal :: rest => signal.randomCount + randomCounts rest

end

variable [Numeric α]

theorem takes_refreshAll {arguments : List (VectorSignal α)}
    (h : ∀ argument ∈ arguments, Takes argument.randomCount fun _ _ => refresh argument) :
    Takes (randomCounts arguments) fun _ _ => refreshAll arguments := by
  induction arguments with
  | nil => exact takes_pure []
  | cons first rest ih =>
    obtain ⟨hfirst, hrest⟩ := List.forall_mem_cons.1 h
    exact hfirst.bind fun _ => (ih hrest).bind fun _ => takes_pure _

/-- A refresh draws a number for each random signal in a vector signal, and no others. -/
theorem takes_refresh (signal : VectorSignal α) :
    Takes signal.randomCount fun _ _ => refresh signal := by
  have hsignal := Signal.takes_refresh (α := α)
  induction signal using partInduction with
  | constant value => exact takes_pure (constant value)
  | combined op arguments value ih =>
    exact (takes_refreshAll ih).bind fun _ => takes_pure _
  | normalized inner value ih => exact ih.bind fun _ => takes_pure _
  | scaled vector factor value ih =>
    exact ih.bind fun _ => (hsignal factor).bind fun _ => takes_pure _
  | rotated about period radius phase value ih =>
    rw [randomCount, Nat.add_assoc]
    exact ih.bind fun _ => (hsignal period).bind fun _ => (hsignal radius).bind fun _ =>
      takes_pure _
  | assembled x y z value =>
    rw [randomCount, Nat.add_assoc]
    exact (hsignal x).bind fun _ => (hsignal y).bind fun _ => (hsignal z).bind fun _ =>
      takes_pure _

section Refresh

variable {σ : Type} [RandomSource σ α]

theorem randomCounts_refreshAll {arguments : List (VectorSignal α)}
    (h : ∀ argument ∈ arguments, ∀ source : σ,
      (refresh argument source).1.randomCount = argument.randomCount) (source : σ) :
    randomCounts (refreshAll arguments source).1 = randomCounts arguments := by
  induction arguments generalizing source with
  | nil => rfl
  | cons first rest ih =>
    obtain ⟨hfirst, hrest⟩ := List.forall_mem_cons.1 h
    show (refresh first source).1.randomCount + randomCounts (refreshAll rest _).1 = _
    rw [hfirst, ih hrest, randomCounts]

theorem randomCount_refresh (signal : VectorSignal α) :
    ∀ source : σ, (refresh signal source).1.randomCount = signal.randomCount := by
  induction signal using partInduction with
  | constant value => exact fun _ => rfl
  | combined op arguments value ih => exact randomCounts_refreshAll ih
  | normalized inner value ih => exact ih
  | scaled vector factor value ih =>
    intro source
    show (refresh vector source).1.randomCount + (factor.refresh _).1.randomCount = _
    rw [ih, Signal.randomCount_refresh, randomCount]
  | rotated about period radius phase value ih =>
    intro source
    show (refresh about source).1.randomCount + (period.refresh _).1.randomCount
      + (radius.refresh _).1.randomCount = _
    rw [ih, Signal.randomCount_refresh, Signal.randomCount_refresh, randomCount]
  | assembled x y z value =>
    intro source
    show (x.refresh source).1.randomCount + (y.refresh _).1.randomCount
      + (z.refresh _).1.randomCount = _
    rw [Signal.randomCount_refresh, Signal.randomCount_refresh, Signal.randomCount_refresh,
      randomCount]

end Refresh

theorem steady_refresh : Steady (α := α) randomCount fun _ _ => refresh where
  takes := takes_refresh
  keeps := randomCount_refresh

end Modulation.VectorSignal

import Mathlib.Data.List.Forall2
import Modulation.Config.Value

set_option autoImplicit false

/-! # Values of the same form

Two sections have the same form when they have the same keys in the same order, and what stands
under each key has the same form. There are two exceptions: under the key of a phase or of a draw
any two numbers have the same form, and what stands under the two keys of a pair of bounds may have
changed places. -/

namespace Modulation.Config

variable {α : Type}

/-- The keys under which two bounds are written, the lower one first. -/
def boundKeys : List (String × String) :=
  [("min", "max"), ("start", "end")]

/-- The keys of numbers that change with time. -/
def timeKeys : List String :=
  ["initialProgress", "lastValue"]

/-- Two values are the same but for phases, draws and bounds that have changed places. -/
inductive Value.SameForm : Value α → Value α → Prop where
  | same (value : Value α) : SameForm value value
  | entry {key : String} {value value' : Value α} {rest rest' : Section α}
      (hvalue : SameForm value value') (hrest : SameForm (.table rest) (.table rest')) :
      SameForm (.table ((key, value) :: rest)) (.table ((key, value') :: rest'))
  | time {key : String} {x x' : α} {rest rest' : Section α} (hkey : key ∈ timeKeys)
      (hrest : SameForm (.table rest) (.table rest')) :
      SameForm (.table ((key, .float x) :: rest)) (.table ((key, .float x') :: rest'))
  | trade {lowKey highKey : String} {low high low' high' : Value α} {rest rest' : Section α}
      (hkeys : (lowKey, highKey) ∈ boundKeys) (hlow : SameForm low high')
      (hhigh : SameForm high low') (hrest : SameForm (.table rest) (.table rest')) :
      SameForm (.table ((lowKey, low) :: (highKey, high) :: rest))
        (.table ((lowKey, low') :: (highKey, high') :: rest'))

namespace Value.SameForm

/-- A section with one entry has the form of the value in it. -/
theorem single {value value' : Value α} (key : String) (h : SameForm value value') :
    SameForm (.table [(key, value)]) (.table [(key, value')]) :=
  .entry h (.same _)

/-- Sections with the same keys have the same form when their values have. -/
theorem of_entries {entries entries' : Section α}
    (h : List.Forall₂ (fun entry entry' => entry.1 = entry'.1 ∧ SameForm entry.2 entry'.2) entries
      entries') : SameForm (.table entries) (.table entries') := by
  induction h with
  | nil => exact .same _
  | @cons entry entry' _ _ hentry _ ih =>
    obtain ⟨key, value⟩ := entry
    obtain ⟨key', value'⟩ := entry'
    obtain ⟨rfl, hvalue⟩ := hentry
    exact .entry hvalue ih

end Value.SameForm

end Modulation.Config

import Modulation.Proofs.Binary64.Extreme
import Modulation.Proofs.Binary64.Interpolation
import Modulation.Proofs.Signal.Bounds
import Modulation.Proofs.VectorSignal.Reachable

set_option autoImplicit false

/-! # The least and the greatest of arguments

The smallest of arguments is the value that one of them has now, and none of them has a smaller one;
and so it is for the largest (`extremes_held`). Arguments that are no numbers are skipped. If all of
them are, nothing has been found, and the value is the infinity from which the search started
(`allLost_extreme`). -/

namespace Modulation

open Binary64

/-- The order in which an operator looks for an extreme of its arguments, and where it starts. -/
def Operator.extreme? : Operator → Option ((Float → Float → Prop) × Float)
  | .min => some ((· < ·), Numeric.infinity)
  | .max => some ((· > ·), -Numeric.infinity)
  | _ => none

theorem Operator.exists_selects {op : Operator} {beyond : Float → Float → Prop} {seed : Float}
    (h : op.extreme? = some (beyond, seed)) :
    ∃ pick, Selects beyond pick seed ∧ ∀ values, op.apply values = values.foldl pick seed := by
  cases op with
  | min =>
    cases h
    exact ⟨_, selects_smaller, fun _ => rfl⟩
  | max =>
    cases h
    exact ⟨_, selects_larger, fun _ => rfl⟩
  | _ => cases h

namespace Signal

/-- A double is the value of one of the arguments if any of them is a number, and what the search
    starts from otherwise; no argument has a value beyond it. -/
structure ExtremeOf (beyond : Float → Float → Prop) (seed : Float)
    (arguments : List (Signal Float)) (value : Float) : Prop where
  found : (∃ argument ∈ arguments, argument.value.isNaN = false) →
    ∃ argument ∈ arguments, (argument.value == value) = true
  missed : (∀ argument ∈ arguments, argument.value.isNaN = true) → value = seed
  last : ∀ argument ∈ arguments, ¬ beyond argument.value value

/-- What is found by picking from the start on is the extreme of the arguments. -/
theorem extremeOf_foldl {beyond : Float → Float → Prop} {pick : Float → Float → Float}
    {seed : Float} (h : Selects beyond pick seed) (arguments : List (Signal Float)) :
    ExtremeOf beyond seed arguments ((arguments.map value).foldl pick seed) := by
  have hextreme := h.isExtreme_foldl (arguments.map value) h.seed_isNumber
  have hlast : ∀ argument ∈ arguments,
      ¬ beyond argument.value ((arguments.map value).foldl pick seed) := fun argument hmem =>
    hextreme.last _ (List.mem_cons_of_mem _ (List.mem_map_of_mem hmem))
  generalize (arguments.map value).foldl pick seed = last at hextreme hlast ⊢
  have hself : (last == last) = true :=
    h.equal hextreme.isNumber hextreme.isNumber (h.irrefl last) (h.irrefl last)
  rcases List.mem_cons.1 hextreme.mem with rfl | hmem
  · refine ⟨?_, fun _ => rfl, hlast⟩
    -- A number that is not before the start is where the search started.
    rintro ⟨argument, hargument, hnumber⟩
    exact ⟨argument, hargument,
      h.equal hnumber hextreme.isNumber (hlast argument hargument) (h.seed_last _)⟩
  · obtain ⟨argument, hargument, rfl⟩ := List.mem_map.1 hmem
    refine ⟨fun _ => ⟨argument, hargument, hself⟩, fun hall => ?_, hlast⟩
    have hnumber := hextreme.isNumber
    rw [hall argument hargument] at hnumber
    cases hnumber

/-- If a signal looks for an extreme of its arguments, that is the value it holds. -/
def HoldsExtreme : Signal Float → Prop
  | combined op arguments value =>
    ∀ beyond seed, op.extreme? = some (beyond, seed) → ExtremeOf beyond seed arguments value
  | _ => True

theorem WellMade.holdsExtreme {signal : Signal Float} (h : signal.WellMade) :
    signal.HoldsExtreme := by
  cases signal with
  | combined op arguments value =>
    intro beyond seed hextreme
    obtain ⟨pick, hselects, happly⟩ := op.exists_selects hextreme
    obtain ⟨-, rfl⟩ := h
    rw [happly]
    exact extremeOf_foldl hselects arguments
  | _ => exact trivial

/-! ## Arguments that are no numbers -/

/-- The smallest of two signals that are no numbers. -/
def allLost : Signal Float :=
  combine .min [constant (0.0 / 0.0), constant (0.0 / 0.0)]

theorem allLost_reachable : allLost.Reachable := by
  have hcombine : combine? .min [constant (0.0 / 0.0), constant (0.0 / 0.0)] = .ok allLost := rfl
  exact .combine (List.forall_mem_cons.2 ⟨.constant _, List.forall_mem_singleton.2 (.constant _)⟩)
    hcombine

/-- The extreme of arguments is not always the value of one of them, not even if two that are no
    numbers count as the same. -/
theorem allLost_extreme :
    ¬ ∀ {op : Operator} {arguments : List (Signal Float)} {value : Float},
      op = .min ∨ op = .max → (combined op arguments value).Reachable →
        ∃ argument ∈ arguments, SameNumber argument.value value := by
  intro hall
  have hvalue : Operator.apply .min [0.0 / 0.0, 0.0 / 0.0] = (1.0 / 0.0 : Float) := by
    decide +kernel
  have hreachable := allLost_reachable
  rw [allLost, combine] at hreachable
  obtain ⟨argument, hargument, hsame⟩ := hall (Or.inl rfl) hreachable
  simp only [List.mem_cons, List.not_mem_nil, or_false, or_self] at hargument
  subst hargument
  change SameNumber (0.0 / 0.0) (Operator.apply .min [0.0 / 0.0, 0.0 / 0.0]) at hsame
  rw [hvalue] at hsame
  rcases hsame with hequal | ⟨-, hnan⟩
  · exact absurd hequal (by decide +kernel)
  · exact absurd hnan (by decide +kernel)

end Signal

namespace VectorSignal

/-- In every signal and every vector signal that a program can come to hold, the smallest of
    arguments is the value that one of them has now unless none of them is a number, and then it is
    positive infinity; no argument has a smaller value. So it is for the largest, with negative
    infinity. -/
theorem extremes_held :
    (∀ {signal : Signal Float}, signal.Reachable → signal.Everywhere Signal.HoldsExtreme)
      ∧ ∀ {signal : VectorSignal Float}, signal.Reachable →
        signal.Everywhere (fun _ => True) Signal.HoldsExtreme :=
  ⟨fun h => h.coherent.mono fun _ => Signal.WellMade.holdsExtreme,
    fun h => h.coherent.mono (fun _ _ => trivial) fun _ => Signal.WellMade.holdsExtreme⟩

/-- The largest of what is no number, of a negative constant and of a bound that has been
    overtaken, in a vector. -/
def topped : VectorSignal Float :=
  components (.constant 1.0) Signal.allLost
    (.combine .max [.constant (0.0 / 0.0), .constant (-7.0), Signal.overtakenLater])

theorem topped_reachable : topped.Reachable := by
  have hcombine : Signal.combine? (α := Float) .max
      [.constant (0.0 / 0.0), .constant (-7.0), Signal.overtakenLater] = .ok _ := rfl
  refine .components (.constant _) Signal.allLost_reachable (.combine ?_ hcombine)
  intro argument hargument
  simp only [List.mem_cons, List.not_mem_nil, or_false] at hargument
  rcases hargument with rfl | rfl | rfl
  · exact .constant _
  · exact .constant _
  · exact Signal.overtakenLater_reachable

/-- Both extremes in the vector hold, the one that is found and the one that is not. -/
theorem topped_extremes :
    (Signal.allLost.Reachable ∧ topped.Reachable)
      ∧ Signal.allLost.Everywhere Signal.HoldsExtreme
      ∧ topped.Everywhere (fun _ => True) Signal.HoldsExtreme :=
  ⟨⟨Signal.allLost_reachable, topped_reachable⟩, extremes_held.1 Signal.allLost_reachable,
    extremes_held.2 topped_reachable⟩

end VectorSignal

end Modulation

import Mathlib
import Modulation.Provider.Choice

set_option autoImplicit false

/-! # Keys of arguments

The first arguments of a functional provider are written under letters, and the others under
numbers. All of these keys are different, so that writing arguments neither loses nor reorders any
(`argumentSection_eq`). -/

namespace Modulation

open Modulation.Config

variable {α : Type}

theorem letterKey_injective {i j : Nat} (hi : i < 26) (hj : j < 26)
    (h : Char.ofNat ('a'.toNat + i) = Char.ofNat ('a'.toNat + j)) : i = j := by
  have hall : ∀ i : Fin 26, (Char.ofNat ('a'.toNat + i)).toNat = 'a'.toNat + i := by decide
  have hcode := congrArg Char.toNat h
  rw [hall ⟨i, hi⟩, hall ⟨j, hj⟩] at hcode
  exact Nat.add_left_cancel hcode

/-- A letter is shorter than any numbered key. -/
theorem letterKey_ne_numberedKey (c : Char) (n : Nat) :
    String.singleton c ≠ "arg" ++ toString n := by
  intro h
  have hlength := congrArg (fun s => s.toList.length) h
  simp only [String.toList_append, String.toList_singleton, List.length_append, List.length_cons,
    List.length_nil] at hlength
  have harg : "arg".toList.length = 3 := rfl
  omega

/-- Different arguments have different keys. -/
theorem argumentKey_injective {i j : Nat} (h : argumentKey i = argumentKey j) : i = j := by
  unfold argumentKey at h
  split at h
  · next hi =>
    split at h
    · next hj => exact letterKey_injective hi hj (String.singleton_inj.1 h)
    · exact absurd h (letterKey_ne_numberedKey _ _)
  · split at h
    · exact absurd h.symm (letterKey_ne_numberedKey _ _)
    · exact Nat.repr_inj.1 ((String.append_right_inj _).1 h)

/-- Arguments with their keys, in order. -/
def keyedArguments (arguments : List (Value α)) : Section α :=
  arguments.mapIdx fun index value => (argumentKey index, value)

theorem keyedArguments_distinct (arguments : List (Value α)) :
    Entries.Distinct (keyedArguments arguments) := by
  unfold Entries.Distinct Entries.keys keyedArguments
  refine List.pairwise_iff_getElem.2 fun i j hi hj hij h => ?_
  simp only [List.getElem_map, List.getElem_mapIdx] at h
  exact Nat.ne_of_lt hij (argumentKey_injective h)

/-- Writing arguments neither loses nor reorders any. -/
theorem argumentSection_eq (arguments : List (Value α)) :
    argumentSection arguments = keyedArguments arguments :=
  Entries.ofList_eq_self (keyedArguments_distinct arguments)

theorem keyedArguments_values (arguments : List (Value α)) :
    (keyedArguments arguments).map Prod.snd = arguments := by
  apply List.ext_getElem <;> simp [keyedArguments]

end Modulation

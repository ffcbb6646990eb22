import Modulation.Proofs.Provider.Offer

set_option autoImplicit false

/-! # Numbers of arguments

An operator refuses a number of arguments just when it lies outside its arity, and the rule that is
reported is one that the number breaks (`Arity.fault?_eq_some`). Arguments that can all be read are
therefore combined or refused by their number alone (`counted_eq`). -/

namespace Modulation

open Modulation.Config

variable {α β γ : Type}

/-- A number of arguments breaks a rule. -/
def ArityFault.BrokenBy (found : Nat) : ArityFault → Prop
  | exactly n => found ≠ n
  | atMost n => n < found
  | atLeast n => found < n

instance (arity : Arity) (found : Nat) : Decidable (arity.Admits found) :=
  decidable_of_iff _ (arity.fault?_eq_none_iff found)

/-- The rule that is reported is broken, and the number is not admitted. -/
theorem Arity.fault?_eq_some {arity : Arity} {found : Nat} {rule : ArityFault}
    (h : arity.fault? found = some rule) : rule.BrokenBy found ∧ ¬ arity.Admits found := by
  have hrefused : ¬ arity.Admits found := by
    rw [← Arity.fault?_eq_none_iff, h]
    exact Option.some_ne_none rule
  refine ⟨?_, hrefused⟩
  unfold Arity.fault? at h
  split at h
  -- Where both bounds are one number, the first rule applies to all numbers but that one.
  · split at h
    · next hexact =>
      cases h
      exact hexact.2
    · split at h
      · next hmany =>
        cases h
        exact hmany
      · split at h
        · next hfew =>
          cases h
          exact hfew
        · cases h
  · split at h
    · next hfew =>
      cases h
      exact hfew
    · cases h

theorem Arity.check_eq (arity : Arity) (tag path : String) (arguments : List β) :
    arity.check tag path arguments
      = match arity.fault? arguments.length with
        | some rule => .error ⟨.wrongArity tag rule arguments.length, path⟩
        | none => .ok arguments := rfl

/-- Entries that are all read are combined if there are as many as the arity admits, and refused for
    their number otherwise. -/
theorem counted_eq [Numeric α] {read : Value α → Reader β} {body : Section α} {arguments : List β}
    (hparts : List.Forall₂ (Reads read) (body.map Prod.snd) arguments) (arity : Arity)
    (tag path : String) (build : List β → γ) :
    (((offerBy read (.table body)).body tag path).andThen fun body =>
        (body.allOperands path).andThen fun arguments =>
          (Reading.report (arity.check tag path arguments)).map build)
      = match arity.fault? body.length with
        | some rule => .fail (.wrongArity tag rule body.length) path
        | none => .ok (build arguments) := by
  have hlength : arguments.length = body.length := by
    simpa using hparts.length_eq.symm
  simp only [offerBy_table_body, Reading.andThen, Reading.ok, allOperands_of_reads hparts,
    Arity.check_eq, hlength]
  cases arity.fault? body.length <;> rfl

end Modulation

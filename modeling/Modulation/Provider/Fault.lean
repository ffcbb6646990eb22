import Modulation.Config.Issue

set_option autoImplicit false

/-! # What can be wrong with a field

A field of an effect is a number or a provider section, and every way to get it wrong is a `Cause`.
A `Fault` is a cause at a path. The words for a cause are in `Cause.message` alone. -/

namespace Modulation

/-- How many arguments an operator takes: at least `least`, and at most `most` if it is given. -/
structure Arity where
  least : Nat
  most : Option Nat
  deriving DecidableEq, Repr

/-- A rule that a number of arguments breaks. -/
inductive ArityFault where
  | exactly (n : Nat)
  | atMost (n : Nat)
  | atLeast (n : Nat)
  deriving DecidableEq, Repr

/-- The rule of an arity that a number of arguments breaks, if any. -/
def Arity.fault? (arity : Arity) (found : Nat) : Option ArityFault :=
  match arity.most with
  | some most =>
    if arity.least = most ∧ found ≠ most then some (.exactly most)
    else if most < found then some (.atMost most)
    else if found < arity.least then some (.atLeast arity.least)
    else none
  | none => if found < arity.least then some (.atLeast arity.least) else none

/-- Whether an arity admits a number of arguments. -/
def Arity.Admits (arity : Arity) (found : Nat) : Prop :=
  arity.least ≤ found ∧ ∀ most ∈ arity.most, found ≤ most

theorem Arity.fault?_eq_none_iff (arity : Arity) (found : Nat) :
    arity.fault? found = none ↔ arity.Admits found := by
  obtain ⟨least, most⟩ := arity
  cases most with
  | none => simp [fault?, Admits]
  | some most =>
    simp only [fault?, Admits, Option.mem_def, Option.some.injEq, forall_eq']
    split
    · next h => simp; omega
    · split
      · simp; omega
      · split
        · simp; omega
        · simp; omega

/-- Why a field cannot be read. -/
inductive Cause where
  | missingKey (key : String)
  | notSignal (typeName : String)
  | notVector (typeName : String)
  | componentCount (found : Nat)
  | unknownProvider (key : String)
  | noProvider
  | severalProviders
  | notSection (key typeName : String)
  | notNumber (key typeName : String)
  | wrongArity (tag : String) (rule : ArityFault) (found : Nat)
  | unpairedKey (key : String)
  | pairNotNumber (key text : String)
  deriving DecidableEq, Repr

/-- The words for a broken arity rule. -/
def ArityFault.words : ArityFault → String
  | exactly n => "requires exactly " ++ toString n
  | atMost n => "accepts at most " ++ toString n
  | atLeast n => "requires at least " ++ toString n

/-- The words for a cause. -/
def Cause.message : Cause → String
  | missingKey key => "Missing required key: " ++ key
  | notSignal typeName => "Expected a number or a provider section, found " ++ typeName
  | notVector typeName =>
    "Expected [x, y, z], an x/y/z section or a provider section, found " ++ typeName
  | componentCount found => "Expected 3 vector components, found " ++ toString found
  | unknownProvider key => "Provider type not recognised: " ++ key
  | noProvider => "Must specify either a provider or a number"
  | severalProviders => "Too many sections; choose a single provider"
  | notSection key typeName => key ++ " must be a section, found " ++ typeName
  | notNumber key typeName => key ++ " must be a number, found " ++ typeName
  | wrongArity tag rule found =>
    tag ++ " " ++ rule.words ++ " arguments, found " ++ toString found
  | unpairedKey key => "Unpaired key in pair list: " ++ key
  | pairNotNumber key text => "Value for " ++ key ++ " is not a number: " ++ text

/-- A cause at a path. -/
structure Fault where
  cause : Cause
  path : String
  deriving DecidableEq, Repr

/-- The words for a fault. -/
def Fault.message (fault : Fault) : String :=
  fault.cause.message

/-- The issue that reports a fault. -/
def Fault.issue (fault : Fault) : Config.Issue :=
  ⟨fault.path, fault.message⟩

end Modulation

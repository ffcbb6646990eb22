import Modulation.Proofs.Provider.Grammar
import Modulation.Proofs.Signal.Coherence
import Modulation.Proofs.Signal.Reading

set_option autoImplicit false

/-! # What reading a signal gives

The reader makes the signal of a section by the functions that build signals, from the signals of
its parts and from nothing else, and it reports every fault that it gives back. A relation between
values and signals that is kept by this (`Composes`) therefore holds between a value and what is
read of it (`gives_ofValue`). The induction is on the value, two sections at a time: a provider
section is read from what stands under its tag, and most kinds read the entries of the section
there.

The relation may be one to the signal alone: the reader gives whatever the functions that build
signals keep (`Closed.composes`). -/

namespace Modulation.Signal

open Modulation.Config

variable {α : Type} [Numeric α]

/-- `R` relates a number to its constant, and it relates a section to the signal that is built from
    signals to which it relates the parts of the section. -/
structure Composes (R : Value α → Signal α → Prop) : Prop where
  number : ∀ {value x}, value.number? = some x → R value (constant x)
  abs : ∀ {entries tag value inner}, Chooses SignalKind.tag entries .abs tag value →
    R value inner → R (.table entries) (abs inner)
  combine : ∀ {entries body op tag arguments},
    Chooses SignalKind.tag entries (.combine op) tag (.table body) →
    List.Forall₂ (fun part argument => R part.2 argument) body arguments →
    op.arity.Admits arguments.length → R (.table entries) (combine op arguments)
  clamp : ∀ {entries body tag low high inner},
    Chooses SignalKind.tag entries .clamp tag (.table body) →
    PartAt R body "min" low → PartAt R body "max" high → PartAt R body "value" inner →
    R (.table entries) (clamp low high inner)
  wave : ∀ {entries body form tag low high period},
    Chooses SignalKind.tag entries (.wave form) tag (.table body) →
    PartAt R body form.lowKey low → PartAt R body form.highKey high →
    PartAt R body "period" period → OptionalNumber body "initialProgress" →
    R (.table entries) (wave form low high period (initialProgress body))
  random : ∀ {entries body tag low high},
    Chooses SignalKind.tag entries .random tag (.table body) →
    PartAt R body "min" low → PartAt R body "max" high → OptionalNumber body "lastValue" →
    R (.table entries)
      ((Section.number? body "lastValue").elim (random low high) (withLast low high))

section Composes

variable {R : Value α → Signal α → Prop}

/-- A kind gives what a section is related to that chooses it, if reading the value under its tag
    does, and reading the entries of that value in case it is a section. -/
theorem gives_ofOffer (hR : Composes R) {entries : Section α} {kind : SignalKind} {tag : String}
    {value : Value α} (htag : Chooses SignalKind.tag entries kind tag value)
    (hself : ∀ path, (ofValue value path).Gives (R value))
    (hparts : ∀ body, value = .table body →
      ∀ part ∈ body, ∀ path, (ofValue part.2 path).Gives (R part.2)) (path : String) :
    (ofOffer kind tag (offerBy ofValue value) path).Gives (R (.table entries)) := by
  cases kind with
  | abs => exact (hself path).map fun inner hinner => hR.abs htag hinner
  | combine op =>
    refine gives_body_andThen fun body hbody => ?_
    subst hbody
    refine (gives_allOperands (hparts body rfl) path).andThen fun arguments harguments => ?_
    -- The arguments are counted when all of them are there, so a fault among them comes first.
    refine (gives_check op.arity tag path arguments).map fun checked hchecked => ?_
    obtain ⟨hadmits, rfl⟩ := hchecked
    exact hR.combine htag harguments hadmits
  | clamp =>
    refine gives_body_andThen fun body hbody => ?_
    subst hbody
    have hoperand := fun key => gives_operand (hparts body rfl) key path
    have hbounds := (hoperand "min").pair (hoperand "max")
    refine (hbounds.pair (hoperand "value")).map ?_
    rintro ⟨⟨low, high⟩, inner⟩ ⟨⟨hlow, hhigh⟩, hinner⟩
    exact hR.clamp htag hlow hhigh hinner
  | wave form =>
    refine gives_body_andThen fun body hbody => ?_
    subst hbody
    have hoperand := fun key => gives_operand (hparts body rfl) key path
    have hbounds := (hoperand form.lowKey).pair (hoperand form.highKey)
    have hperiod := hbounds.pair (hoperand "period")
    refine (hperiod.pair (gives_readInitialProgress body path)).map ?_
    rintro ⟨⟨⟨low, high⟩, period⟩, initial⟩ ⟨⟨⟨hlow, hhigh⟩, hperiod⟩, hinitial, rfl⟩
    exact hR.wave htag hlow hhigh hperiod hinitial
  | random =>
    refine gives_body_andThen fun body hbody => ?_
    subst hbody
    have hoperand := fun key => gives_operand (hparts body rfl) key path
    have hbounds := (hoperand "min").pair (hoperand "max")
    refine (hbounds.pair (gives_readNumber? body "lastValue" path)).map ?_
    rintro ⟨⟨low, high⟩, last⟩ ⟨⟨hlow, hhigh⟩, hlast, rfl⟩
    have hrandom := hR.random htag hlow hhigh hlast
    cases hnumber : Section.number? body "lastValue" with
    | none => simpa [hnumber] using hrandom
    | some last => simpa [hnumber] using hrandom

theorem gives_ofValue (hR : Composes R) (value : Value α) :
    ∀ path, (ofValue value path).Gives (R value) := by
  induction value using Value.tableInduction with
  | leaf value hleaf =>
    intro path
    cases value with
    | integer n => exact .value (hR.number rfl)
    | float x => exact .value (hR.number rfl)
    | table entries => exact absurd rfl (hleaf entries)
    | _ => exact Reading.gives_fail _ _
  | table entries ih ihParts =>
    intro path
    rw [ofValue_table]
    split
    · exact Reading.gives_fail _ _
    · next kind tag value hchoice =>
      -- The kind reads what stands under its tag, or the entries of the section there.
      have hmem := (mem_of_chooseTag hchoice).1
      have htag := (chooseTag_eq_ok_iff ofTag?_eq_some_iff).1 hchoice
      exact gives_ofOffer hR htag (ih _ hmem) (ihParts _ hmem) _

/-- A field gives what the value under its key is related to, or the default if the key is absent.
    -/
theorem gives_readAt (hR : Composes R) (entries : Section α) (key path : String)
    (default : Option α) :
    (read entries key path default).Gives fun signal =>
      AtKey entries key (fun value => R value signal)
        (∃ x, default = some x ∧ signal = constant x) := by
  unfold read AtKey
  cases entries.get? key with
  | some value => exact gives_ofValue hR value _
  | none =>
    cases default with
    | none => exact Reading.gives_fail _ _
    | some x => exact .value ⟨x, rfl, rfl⟩

end Composes

/-! ## What the building functions keep -/

variable {P : Signal α → Prop}

theorem Closed.composes (hP : Closed P) : Composes fun (_ : Value α) signal => P signal where
  number _ := hP.constant _
  abs _ hinner := hP.abs hinner
  combine _ hparts hadmits := hP.combine hadmits (forall_of_forall₂ hparts)
  clamp _ := by
    rintro ⟨_, -, hlow⟩ ⟨_, -, hhigh⟩ ⟨_, -, hinner⟩
    exact hP.clamp hlow hhigh hinner
  wave _ := by
    rintro ⟨_, -, hlow⟩ ⟨_, -, hhigh⟩ ⟨_, -, hperiod⟩ -
    exact hP.wave _ hlow hhigh hperiod
  random {entries body tag low high} _ := by
    rintro ⟨_, -, hlow⟩ ⟨_, -, hhigh⟩ -
    cases Section.number? body "lastValue" with
    | none => exact hP.random hlow hhigh
    | some last => exact hP.withLast last hlow hhigh

theorem gives_read (hP : Closed P) (entries : Section α) (key path : String)
    (default : Option α) : (read entries key path default).Gives P := by
  refine (gives_readAt hP.composes entries key path default).mono fun signal h => ?_
  unfold AtKey at h
  split at h
  · exact h
  · obtain ⟨x, -, rfl⟩ := h
    exact hP.constant x

theorem gives_ofPairs (hP : Closed P) (number? : String → Option α) (tag : String)
    (pairs : List String) (path : String) : (ofPairs number? tag pairs path).Gives P := by
  unfold ofPairs
  split
  · have hbody : (Reading.report (pairSection number? path pairs [])).Gives fun _ => True :=
      Reading.gives_report fun _ _ => trivial
    exact hbody.andThen fun body _ => gives_ofValue hP.composes _ _
  · exact Reading.gives_fail _ _

theorem closed_true : Closed fun _ : Signal α => True := by
  constructor <;> intros <;> trivial

end Modulation.Signal

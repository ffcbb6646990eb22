import Modulation.Proofs.Signal.Agreement
import Modulation.Proofs.VectorSignal.Coherence
import Modulation.Proofs.VectorSignal.Reading

set_option autoImplicit false

/-! # What reading a vector signal gives

The argument for signals carries over to vector signals, whose parts are vector signals and signals
(`Composes`, `gives_ofValue`). `readings_agree` puts the readers of both together: none of them
gives back a fault that is not reported, and none reports anything beside a value. -/

namespace Modulation.VectorSignal

open Modulation.Config

variable {α : Type} [Numeric α]

/-- `R` relates a value, and `T` a provider section, to the vector signal that is built from vector
    signals to which `R` relates the parts and from the signals that are read, to which `S` relates
    the section with the key and the default. -/
structure Composes (R : Value α → VectorSignal α → Prop) (T : Section α → VectorSignal α → Prop)
    (S : Section α → String → Option α → Signal α → Prop) : Prop where
  signals : ∀ entries key path default,
    (Signal.read entries key path default).Gives (S entries key default)
  numbers : ∀ {items x y z}, items.map Value.number? = [some x, some y, some z] →
    R (.list items) (constant ⟨x, y, z⟩)
  untagged : ∀ {entries x y z}, isComponentSection entries = true →
    S entries "x" (some 0.0) x → S entries "y" (some 0.0) y → S entries "z" (some 0.0) z →
    R (.table entries) (ofComponents x y z)
  tagged : ∀ {entries signal}, isComponentSection entries = false → T entries signal →
    R (.table entries) signal
  normalize : ∀ {entries tag value inner},
    Chooses VectorKind.tag entries .normalize tag value → R value inner →
    T entries (normalize inner)
  combine : ∀ {entries body op tag arguments},
    Chooses VectorKind.tag entries (.combine op) tag (.table body) →
    List.Forall₂ (fun part argument => R part.2 argument) body arguments →
    op.arity.Admits arguments.length → T entries (combine op arguments)
  scale : ∀ {entries body tag vector factor},
    Chooses VectorKind.tag entries .scale tag (.table body) →
    PartAt R body "vector" vector → S body "factor" none factor → T entries (scale vector factor)
  rotate : ∀ {entries body tag about period radius},
    Chooses VectorKind.tag entries .rotate tag (.table body) →
    PartAt R body "about" about → S body "period" none period →
    S body "radius" (some 1.0) radius → OptionalNumber body "initialProgress" →
    T entries (rotate about period radius (initialProgress body))
  components : ∀ {entries body tag x y z},
    Chooses VectorKind.tag entries .components tag (.table body) →
    S body "x" (some 0.0) x → S body "y" (some 0.0) y → S body "z" (some 0.0) z →
    T entries (components x y z)

section Composes

variable {R : Value α → VectorSignal α → Prop} {T : Section α → VectorSignal α → Prop}
  {S : Section α → String → Option α → Signal α → Prop}

theorem gives_readComponents (hR : Composes R T S) (entries : Section α) (path : String) :
    (readComponents entries path).Gives fun parts =>
      (S entries "x" (some 0.0) parts.1.1 ∧ S entries "y" (some 0.0) parts.1.2)
        ∧ S entries "z" (some 0.0) parts.2 := by
  have hcomponent := fun key => hR.signals entries key path (some 0.0)
  exact ((hcomponent "x").pair (hcomponent "y")).pair (hcomponent "z")

theorem gives_ofNumbers (hR : Composes R T S) {items : List (Value α)} {numbers : List α}
    (hnumbers : items.map Value.number? = numbers.map some) (path : String) :
    (ofNumbers numbers path).Gives (R (.list items)) := by
  unfold ofNumbers
  split
  · exact .value (hR.numbers hnumbers)
  · exact Reading.gives_fail _ _

/-- A kind gives what a section is related to that chooses it, if reading the value under its tag
    does, and reading the entries of that value in case it is a section. -/
theorem gives_ofOffer (hR : Composes R T S) {entries : Section α} {kind : VectorKind}
    {tag : String} {value : Value α} (htag : Chooses VectorKind.tag entries kind tag value)
    (hself : ∀ path, (ofValue value path).Gives (R value))
    (hparts : ∀ body, value = .table body →
      ∀ part ∈ body, ∀ path, (ofValue part.2 path).Gives (R part.2)) (path : String) :
    (ofOffer kind tag (offerBy ofValue value) path).Gives (T entries) := by
  cases kind with
  | normalize => exact (hself path).map fun inner hinner => hR.normalize htag hinner
  | combine op =>
    refine gives_body_andThen fun body hbody => ?_
    subst hbody
    refine (gives_allOperands (hparts body rfl) path).andThen fun arguments harguments => ?_
    refine (gives_check op.arity tag path arguments).map fun checked hchecked => ?_
    obtain ⟨hadmits, rfl⟩ := hchecked
    exact hR.combine htag harguments hadmits
  | scale =>
    refine gives_body_andThen fun body hbody => ?_
    subst hbody
    have hvector := gives_operand (hparts body rfl) "vector" path
    refine (hvector.pair (hR.signals body "factor" path none)).map ?_
    rintro ⟨vector, factor⟩ ⟨hvector, hfactor⟩
    exact hR.scale htag hvector hfactor
  | rotate =>
    refine gives_body_andThen fun body hbody => ?_
    subst hbody
    have habout := gives_operand (hparts body rfl) "about" path
    have hperiod := habout.pair (hR.signals body "period" path none)
    have hradius := hperiod.pair (hR.signals body "radius" path (some 1.0))
    refine (hradius.pair (gives_readInitialProgress body path)).map ?_
    rintro ⟨⟨⟨about, period⟩, radius⟩, initial⟩ ⟨⟨⟨habout, hperiod⟩, hradius⟩, hinitial, rfl⟩
    exact hR.rotate htag habout hperiod hradius hinitial
  | components =>
    refine gives_body_andThen fun body hbody => ?_
    subst hbody
    refine (gives_readComponents hR body path).map ?_
    rintro ⟨⟨x, y⟩, z⟩ ⟨⟨hx, hy⟩, hz⟩
    exact hR.components htag hx hy hz

theorem gives_ofOffers (hR : Composes R T S) {entries : Section α} (path : String)
    (h : ∀ entry ∈ entries, ∀ path, (ofValue entry.2 path).Gives (R entry.2))
    (hparts : ∀ entry ∈ entries, ∀ body, entry.2 = .table body →
      ∀ part ∈ body, ∀ path, (ofValue part.2 path).Gives (R part.2)) :
    (ofOffers (offersOf entries) path).Gives (T entries) := by
  rw [ofOffers_offersOf]
  split
  · exact Reading.gives_fail _ _
  · next kind tag value hchoice =>
    have hmem := (mem_of_chooseTag hchoice).1
    have htag := (chooseTag_eq_ok_iff ofTag?_eq_some_iff).1 hchoice
    exact gives_ofOffer hR htag (h _ hmem) (hparts _ hmem) _

theorem gives_ofValue (hR : Composes R T S) (value : Value α) :
    ∀ path, (ofValue value path).Gives (R value) := by
  induction value using Value.tableInduction with
  | leaf value hleaf =>
    intro path
    cases value with
    | table entries => exact absurd rfl (hleaf entries)
    | list items =>
      rw [ofValue_list]
      split
      · next numbers hnumbers =>
        exact gives_ofNumbers hR ((mapM_number?_eq_some_iff items numbers).1 hnumbers) path
      · exact Reading.gives_fail _ _
    | _ => exact Reading.gives_fail _ _
  | table entries ih ihParts =>
    intro path
    unfold ofValue
    split
    -- A section of components holds signals only; no vector signal in it is read.
    · next hcomponents =>
      refine (gives_readComponents hR entries path).map ?_
      rintro ⟨⟨x, y⟩, z⟩ ⟨⟨hx, hy⟩, hz⟩
      exact hR.untagged hcomponents hx hy hz
    · next hcomponents =>
      refine (gives_ofOffers hR path ih ihParts).mono fun signal hsignal => ?_
      exact hR.tagged (Bool.eq_false_iff.2 hcomponents) hsignal

/-- A field gives what the value under its key is related to, or the default if the key is absent.
    -/
theorem gives_readAt (hR : Composes R T S) (entries : Section α) (key path : String)
    (default : Option (Vec3 α)) :
    (read entries key path default).Gives fun signal =>
      AtKey entries key (fun value => R value signal)
        (∃ v, default = some v ∧ signal = constant v) := by
  unfold read AtKey
  cases entries.get? key with
  | some value => exact gives_ofValue hR value _
  | none =>
    cases default with
    | none => exact Reading.gives_fail _ _
    | some v => exact .value ⟨v, rfl, rfl⟩

end Composes

/-! ## What the building functions keep -/

variable {P : VectorSignal α → Prop} {Q : Signal α → Prop}

theorem Closed.composes (hP : Closed P Q) (hQ : Signal.Closed Q) :
    Composes (fun (_ : Value α) signal => P signal) (fun _ signal => P signal)
      fun _ _ _ signal => Q signal where
  signals := Signal.gives_read hQ
  numbers _ := hP.constant _
  untagged _ := hP.ofComponents
  tagged _ hsignal := hsignal
  normalize _ := hP.normalize
  combine _ hparts hadmits := hP.combine hadmits (forall_of_forall₂ hparts)
  scale _ := by
    rintro ⟨_, -, hvector⟩ hfactor
    exact hP.scale hvector hfactor
  rotate _ := by
    rintro ⟨_, -, habout⟩ hperiod hradius -
    exact hP.rotate _ habout hperiod hradius
  components _ := hP.components

theorem gives_ofSection (hP : Closed P Q) (hQ : Signal.Closed Q) (entries : Section α)
    (path : String) : (ofOffers (offersOf entries) path).Gives P :=
  gives_ofOffers (hP.composes hQ) path (fun entry _ => gives_ofValue (hP.composes hQ) entry.2)
    fun _ _ _ _ part _ => gives_ofValue (hP.composes hQ) part.2

theorem gives_read (hP : Closed P Q) (hQ : Signal.Closed Q) (entries : Section α)
    (key path : String) (default : Option (Vec3 α)) :
    (read entries key path default).Gives P := by
  refine (gives_readAt (hP.composes hQ) entries key path default).mono ?_
  intro signal h
  unfold AtKey at h
  split at h
  · exact h
  · obtain ⟨v, -, rfl⟩ := h
    exact hP.constant v

theorem closed_true : Closed (fun _ : VectorSignal α => True) fun _ => True := by
  constructor <;> intros <;> trivial

/-- Whatever is read, and whatever the log holds before: the readers of signals, of vector signals
    and of pair lists only add to the log, add nothing exactly when they give a signal, and report
    the fault that they give back before any other. -/
theorem readings_agree (entries : Section α) (key path tag : String) (default : Option α)
    (vectorDefault : Option (Vec3 α)) (number? : String → Option α) (pairs : List String)
    (log : IssueLog) :
    (Signal.read entries key path default).AgreesOn log
      ∧ (read entries key path vectorDefault).AgreesOn log
      ∧ (Signal.ofPairs number? tag pairs path).AgreesOn log := by
  have hscalar := Signal.gives_read Signal.closed_true entries key path default
  have hvector := gives_read closed_true Signal.closed_true entries key path vectorDefault
  have hpairs := Signal.gives_ofPairs Signal.closed_true number? tag pairs path
  exact ⟨hscalar.agreesOn log, hvector.agreesOn log, hpairs.agreesOn log⟩

end Modulation.VectorSignal

import Modulation.Proofs.Signal.Reading
import Modulation.VectorSignal.Reader

set_option autoImplicit false

/-! # How a vector signal is read

As for signals, `ofOffers_offersOf` says by plain recursion what the reader does with a provider
section: the provider is read from what the value under its tag offers to the reader itself. The
rules below it say what each kind of vector signal asks for. -/

namespace Modulation.VectorSignal

open Modulation.Config

variable {α : Type} [Numeric α]

theorem operandsOf_eq (entries : List (String × Value α)) :
    operandsOf entries = (bodyBy ofValue entries).operands := by
  induction entries with
  | nil => rfl
  | cons entry rest ih => rw [operandsOf, ih]; rfl

theorem operandsIn_eq (value : Value α) : operandsIn value = (offerBy ofValue value).operands := by
  cases value with
  | table entries => exact operandsOf_eq entries
  | _ => rfl

theorem offersOf_eq (entries : List (String × Value α)) :
    offersOf entries = entries.map fun entry => (entry.1, offerBy ofValue entry.2) := by
  induction entries with
  | nil => rfl
  | cons entry rest ih => rw [offersOf, ih, operandsIn_eq]; rfl

/-- A provider section is read from what stands under its tag. -/
theorem ofOffers_offersOf (entries : Section α) (path : String) :
    ofOffers (offersOf entries) path
      = match chooseTag VectorKind.ofTag? entries with
        | .error cause => .fail cause path
        | .ok (kind, tag, value) =>
          ofOffer kind tag (offerBy ofValue value) (joinPath path tag) := by
  rw [ofOffers, offersOf_eq, chooseTag_map]
  cases chooseTag VectorKind.ofTag? entries <;> rfl

/-- A section that is no section of components is read by the kind that it chooses. -/
theorem ofValue_of_choice {entries : Section α} {kind : VectorKind} {tag : String} {value : Value α}
    (htagged : isComponentSection entries = false)
    (hchoice : chooseTag VectorKind.ofTag? entries = .ok (kind, tag, value)) (path : String) :
    ofValue (.table entries) path
      = ofOffer kind tag (offerBy ofValue value) (joinPath path tag) := by
  rw [ofValue, if_neg (Bool.eq_false_iff.1 htagged), ofOffers_offersOf, hchoice]

theorem ofTag?_eq_some_iff (tag : String) (kind : VectorKind) :
    VectorKind.ofTag? tag = some kind ↔ sameTag kind.tag tag = true := by
  refine find?_tag_eq_some_iff (fun kind => ?_) (by decide) tag kind
  rcases kind with op | _ | _ | _ | _
  · cases op <;> decide
  · decide
  · decide
  · decide
  · decide

/-- The tag of a kind names that kind. -/
theorem ofTag?_tag (kind : VectorKind) : VectorKind.ofTag? kind.tag = some kind :=
  (ofTag?_eq_some_iff kind.tag kind).2 (sameTag_self kind.tag)

/-- No tag is the key of a component. -/
theorem isComponentSection_tag {β : Type} (kind : VectorKind) (value : β) :
    isComponentSection [(kind.tag, value)] = false := by
  have hkey : (kind.tag == "x" || kind.tag == "y" || kind.tag == "z") = false := by
    rcases kind with op | _ | _ | _ | _
    · cases op <;> decide
    · decide
    · decide
    · decide
    · decide
  simp [isComponentSection, Entries.keys, hkey]

theorem read_of_holdsAt {entries : Section α} {key : String} {signal : VectorSignal α}
    (h : HoldsAt ofValue entries key signal) (path : String) (default : Option (Vec3 α)) :
    read entries key path default = .ok signal := by
  obtain ⟨value, hvalue, hreads⟩ := h
  unfold read
  rw [hvalue]
  exact hreads _

theorem mapM_number?_eq_some_iff (items : List (Value α)) (numbers : List α) :
    items.mapM Value.number? = some numbers ↔ items.map Value.number? = numbers.map some := by
  induction items generalizing numbers with
  | nil => cases numbers <;> simp
  | cons item rest ih =>
    cases numbers with
    | nil => simp [Option.bind_eq_some_iff]
    | cons x others => simp [ih, Option.bind_eq_some_iff]

/-- A list is a constant just when it holds three numbers. -/
theorem ofValue_list (items : List (Value α)) (path : String) :
    ofValue (.list items) path
      = match items.mapM Value.number? with
        | some numbers => ofNumbers numbers path
        | none => .fail (.notVector "array") path := by
  rw [ofValue, Value.view]
  · cases items.mapM Value.number? <;> rfl
  · intro entries h
    cases h

/-! ## The rules of the kinds -/

section Rules

variable {entries body : Section α} {tag : String}

theorem readComponents_eq_ok {x y z : Signal α}
    (hx : ∀ path, Signal.read entries "x" path (some 0.0) = .ok x)
    (hy : ∀ path, Signal.read entries "y" path (some 0.0) = .ok y)
    (hz : ∀ path, Signal.read entries "z" path (some 0.0) = .ok z) (path : String) :
    readComponents entries path = .ok ((x, y), z) := by
  rw [readComponents, hx, hy, hz]
  rfl

theorem reads_ofComponents {x y z : Signal α} (hcomponents : isComponentSection entries = true)
    (hx : ∀ path, Signal.read entries "x" path (some 0.0) = .ok x)
    (hy : ∀ path, Signal.read entries "y" path (some 0.0) = .ok y)
    (hz : ∀ path, Signal.read entries "z" path (some 0.0) = .ok z) :
    Reads ofValue (.table entries) (ofComponents x y z) := by
  intro path
  rw [ofValue, if_pos hcomponents, readComponents_eq_ok hx hy hz]
  rfl

theorem reads_assembled {x y z : Signal α} (htagged : isComponentSection entries = false)
    (hchoice : chooseTag VectorKind.ofTag? entries = .ok (.components, tag, .table body))
    (hx : ∀ path, Signal.read body "x" path (some 0.0) = .ok x)
    (hy : ∀ path, Signal.read body "y" path (some 0.0) = .ok y)
    (hz : ∀ path, Signal.read body "z" path (some 0.0) = .ok z) :
    Reads ofValue (.table entries) (components x y z) := by
  intro path
  rw [ofValue_of_choice htagged hchoice]
  simp only [ofOffer, offerBy_table_body, Reading.andThen, Reading.ok]
  rw [show (bodyBy ofValue body).entries = body from rfl, readComponents_eq_ok hx hy hz]
  rfl

theorem reads_normalized {value : Value α} {inner : VectorSignal α}
    (htagged : isComponentSection entries = false)
    (hchoice : chooseTag VectorKind.ofTag? entries = .ok (.normalize, tag, value))
    (hinner : Reads ofValue value inner) : Reads ofValue (.table entries) (normalize inner) := by
  intro path
  rw [ofValue_of_choice htagged hchoice]
  show (ofValue value (joinPath path tag)).map normalize = _
  rw [hinner]
  rfl

theorem reads_combined {op : VectorOperator} {arguments : List (VectorSignal α)}
    (htagged : isComponentSection entries = false)
    (hchoice : chooseTag VectorKind.ofTag? entries = .ok (.combine op, tag, .table body))
    (harguments : List.Forall₂ (Reads ofValue) (body.map Prod.snd) arguments)
    (hadmits : op.arity.Admits arguments.length) :
    Reads ofValue (.table entries) (combine op arguments) := by
  intro path
  have hcheck : op.arity.check tag (joinPath path tag) arguments = .ok arguments :=
    Arity.check_eq_ok_iff.2 ⟨hadmits, rfl⟩
  rw [ofValue_of_choice htagged hchoice]
  simp only [ofOffer, offerBy_table_body, Reading.andThen, Reading.ok,
    allOperands_of_reads harguments, hcheck]
  rfl

theorem reads_scaled {vector : VectorSignal α} {factor : Signal α}
    (htagged : isComponentSection entries = false)
    (hchoice : chooseTag VectorKind.ofTag? entries = .ok (.scale, tag, .table body))
    (hvector : HoldsAt ofValue body "vector" vector)
    (hfactor : ∀ path, Signal.read body "factor" path none = .ok factor) :
    Reads ofValue (.table entries) (scale vector factor) := by
  intro path
  rw [ofValue_of_choice htagged hchoice]
  simp only [ofOffer, offerBy_table_body, Reading.andThen, Reading.ok,
    operand_of_holdsAt hvector]
  rw [show (bodyBy ofValue body).entries = body from rfl, hfactor]
  rfl

theorem reads_rotated {about : VectorSignal α} {period radius : Signal α} {initial : α}
    (htagged : isComponentSection entries = false)
    (hchoice : chooseTag VectorKind.ofTag? entries = .ok (.rotate, tag, .table body))
    (habout : HoldsAt ofValue body "about" about)
    (hperiod : ∀ path, Signal.read body "period" path none = .ok period)
    (hradius : ∀ path, Signal.read body "radius" path (some 1.0) = .ok radius)
    (hinitial : ∀ path, readInitialProgress body path = .ok initial) :
    Reads ofValue (.table entries) (rotate about period radius initial) := by
  intro path
  rw [ofValue_of_choice htagged hchoice]
  simp only [ofOffer, offerBy_table_body, Reading.andThen, Reading.ok, operand_of_holdsAt habout]
  rw [show (bodyBy ofValue body).entries = body from rfl, hperiod, hradius, hinitial]
  rfl

end Rules

end Modulation.VectorSignal

import Modulation.Proofs.Provider.Offer
import Modulation.Signal.Reader

set_option autoImplicit false

/-! # How a signal is read

The reader of signals passes over a value once and prepares an offer for every key of a section.
`ofValue_table` says the same by plain recursion: the provider of a section is read from what the
value under its tag offers to the reader itself.

From it follow the rules by which each kind of signal is read. A rule asks for the parts that the
kind reads and for nothing else, so that it holds for a section with its keys in any order and with
other keys beside them. -/

namespace Modulation.Signal

open Modulation.Config

variable {α : Type} [Numeric α]

theorem operandsOf_eq (entries : List (String × Value α)) :
    operandsOf entries = (bodyBy ofValue entries).operands := by
  induction entries with
  | nil => rfl
  | cons entry rest ih => rw [operandsOf, ih]; rfl

theorem operandsIn_eq (value : Value α) : operandsIn value = (offerBy ofValue value).operands := by
  cases value with
  | table entries => exact operandsOf_eq entries
  | _ => rfl

theorem offersOf_eq (entries : List (String × Value α)) :
    offersOf entries = entries.map fun entry => (entry.1, offerBy ofValue entry.2) := by
  induction entries with
  | nil => rfl
  | cons entry rest ih => rw [offersOf, ih, operandsIn_eq]; rfl

/-- A provider section is read from what stands under its tag. -/
theorem ofValue_table (entries : Section α) (path : String) :
    ofValue (.table entries) path
      = match chooseTag SignalKind.ofTag? entries with
        | .error cause => .fail cause path
        | .ok (kind, tag, value) => ofOffer kind tag (offerBy ofValue value) (joinPath path tag) := by
  rw [ofValue, ofOffers, offersOf_eq, chooseTag_map]
  cases chooseTag SignalKind.ofTag? entries <;> rfl

theorem ofTag?_eq_some_iff (tag : String) (kind : SignalKind) :
    SignalKind.ofTag? tag = some kind ↔ sameTag kind.tag tag = true := by
  refine find?_tag_eq_some_iff (fun kind => ?_) (by decide) tag kind
  rcases kind with op | _ | _ | form | _
  · cases op <;> decide
  · decide
  · decide
  · cases form <;> decide
  · decide

/-- The tag of a kind names that kind. -/
theorem ofTag?_tag (kind : SignalKind) : SignalKind.ofTag? kind.tag = some kind :=
  (ofTag?_eq_some_iff kind.tag kind).2 (sameTag_self kind.tag)

theorem read_of_holdsAt {entries : Section α} {key : String} {signal : Signal α}
    (h : HoldsAt ofValue entries key signal) (path : String) (default : Option α) :
    read entries key path default = .ok signal := by
  obtain ⟨value, hvalue, hreads⟩ := h
  unfold read
  rw [hvalue]
  exact hreads _

/-! ## The rules of the kinds -/

section Rules

variable {entries body : Section α} {tag : String}

theorem reads_absolute {value : Value α} {inner : Signal α}
    (hchoice : chooseTag SignalKind.ofTag? entries = .ok (.abs, tag, value))
    (hinner : Reads ofValue value inner) : Reads ofValue (.table entries) (abs inner) := by
  intro path
  rw [ofValue_table, hchoice]
  show (ofValue value (joinPath path tag)).map abs = _
  rw [hinner]
  rfl

theorem reads_combined {op : Operator} {arguments : List (Signal α)}
    (hchoice : chooseTag SignalKind.ofTag? entries = .ok (.combine op, tag, .table body))
    (harguments : List.Forall₂ (Reads ofValue) (body.map Prod.snd) arguments)
    (hadmits : op.arity.Admits arguments.length) :
    Reads ofValue (.table entries) (combine op arguments) := by
  intro path
  have hcheck : op.arity.check tag (joinPath path tag) arguments = .ok arguments :=
    Arity.check_eq_ok_iff.2 ⟨hadmits, rfl⟩
  rw [ofValue_table, hchoice]
  simp only [ofOffer, offerBy_table_body, Reading.andThen, Reading.ok,
    allOperands_of_reads harguments, hcheck]
  rfl

theorem reads_clamped {low high inner : Signal α}
    (hchoice : chooseTag SignalKind.ofTag? entries = .ok (.clamp, tag, .table body))
    (hlow : HoldsAt ofValue body "min" low) (hhigh : HoldsAt ofValue body "max" high)
    (hinner : HoldsAt ofValue body "value" inner) :
    Reads ofValue (.table entries) (clamp low high inner) := by
  intro path
  rw [ofValue_table, hchoice]
  simp only [ofOffer, offerBy_table_body, readBounds, Reading.andThen, Reading.ok,
    operand_of_holdsAt hlow, operand_of_holdsAt hhigh, operand_of_holdsAt hinner]
  rfl

theorem reads_periodic {form : Waveform} {low high period : Signal α} {initial : α}
    (hchoice : chooseTag SignalKind.ofTag? entries = .ok (.wave form, tag, .table body))
    (hlow : HoldsAt ofValue body form.lowKey low) (hhigh : HoldsAt ofValue body form.highKey high)
    (hperiod : HoldsAt ofValue body "period" period)
    (hinitial : ∀ path, readInitialProgress body path = .ok initial) :
    Reads ofValue (.table entries) (wave form low high period initial) := by
  intro path
  rw [ofValue_table, hchoice]
  simp only [ofOffer, offerBy_table_body, readBounds, Reading.andThen, Reading.ok,
    operand_of_holdsAt hlow, operand_of_holdsAt hhigh, operand_of_holdsAt hperiod]
  rw [show (bodyBy ofValue body).entries = body from rfl, hinitial]
  rfl

theorem reads_drawn {low high : Signal α} {last : Option α}
    (hchoice : chooseTag SignalKind.ofTag? entries = .ok (.random, tag, .table body))
    (hlow : HoldsAt ofValue body "min" low) (hhigh : HoldsAt ofValue body "max" high)
    (hlast : ∀ path, readNumber? body "lastValue" path = .ok last) :
    Reads ofValue (.table entries) (last.elim (random low high) (withLast low high)) := by
  intro path
  rw [ofValue_table, hchoice]
  simp only [ofOffer, offerBy_table_body, readBounds, Reading.andThen, Reading.ok,
    operand_of_holdsAt hlow, operand_of_holdsAt hhigh]
  rw [show (bodyBy ofValue body).entries = body from rfl, hlast]
  cases last <;> rfl

end Rules

end Modulation.Signal

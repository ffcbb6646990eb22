import Modulation.Proofs.Binary64.Word
import Modulation.Proofs.Signal.Agreement

set_option autoImplicit false

/-! # The grammar of signals

`IsField` says which values are written signals, and `Describes` which signal such a value is
written for: the one that the functions that build signals make of it, from the inside out and with
the arguments in the order of the section. Neither mentions the reader.

The reader takes exactly the values of the grammar and makes exactly the signals that they describe
(`read_signal_iff`). It gives what a value describes because the grammar is put together as the
reader is (`composes_describes`), and it takes every value that describes a signal by the rules of
the kinds (`Describes.reads`). -/

namespace Modulation

open Modulation.Config

/-! ## The shape of a provider section -/

/-- How many arguments an operator is written with: two, or two and more. -/
def Operator.Takes (op : Operator) (count : Nat) : Prop :=
  match op with
  | .add | .mul | .min | .max => 2 ≤ count
  | .sub | .div | .mod => count = 2

theorem Operator.admits_iff (op : Operator) (count : Nat) :
    op.arity.Admits count ↔ op.Takes count := by
  cases op <;> simp [Operator.arity, Arity.Admits, Operator.Takes] <;> omega

/-- The keys of the parts of a kind that names them. -/
def SignalKind.partKeys? : SignalKind → Option (List String)
  | .combine _ | .abs => none
  | .clamp => some ["min", "max", "value"]
  | .wave .cycle => some ["start", "end", "period"]
  | .wave .pingPong | .wave .pulse => some ["min", "max", "period"]
  | .random => some ["min", "max"]

/-- The key under which a kind that names its parts may have a number. -/
def SignalKind.numberKey? : SignalKind → Option String
  | .wave _ => some "initialProgress"
  | .random => some "lastValue"
  | _ => none

namespace Signal

variable {α : Type} [Numeric α]

/-- A value is a written signal. -/
inductive IsField : Value α → Prop where
  | number {value : Value α} (hnumber : value.number?.isSome = true) : IsField value
  | abs {entries : Section α} {tag : String} {value : Value α}
      (htag : Chooses SignalKind.tag entries .abs tag value) (hinner : IsField value) :
      IsField (.table entries)
  | combine {entries body : Section α} {op : Operator} {tag : String}
      (htag : Chooses SignalKind.tag entries (.combine op) tag (.table body))
      (hcount : op.Takes body.length) (hparts : ∀ part ∈ body, IsField part.2) :
      IsField (.table entries)
  | named {entries body : Section α} {kind : SignalKind} {tag : String} {keys : List String}
      (htag : Chooses SignalKind.tag entries kind tag (.table body))
      (hkeys : kind.partKeys? = some keys) (hpresent : ∀ key ∈ keys, body.has key = true)
      (hparts : ∀ key ∈ keys, ∀ value, body.get? key = some value → IsField value)
      (hnumber : ∀ key ∈ kind.numberKey?, OptionalNumber body key) : IsField (.table entries)

/-- A value is written for a signal. -/
inductive Describes : Value α → Signal α → Prop where
  | number {value : Value α} {x : α} (hnumber : value.number? = some x) :
      Describes value (constant x)
  | abs {entries : Section α} {tag : String} {value : Value α} {inner : Signal α}
      (htag : Chooses SignalKind.tag entries .abs tag value) (hinner : Describes value inner) :
      Describes (.table entries) (abs inner)
  | combine {entries body : Section α} {op : Operator} {tag : String}
      {arguments : List (Signal α)} {signal : Signal α}
      (htag : Chooses SignalKind.tag entries (.combine op) tag (.table body))
      (hlength : body.length = arguments.length)
      (hparts : ∀ {part argument}, (part, argument) ∈ body.zip arguments →
        Describes part.2 argument)
      (hbuilt : combine? op arguments = .ok signal) : Describes (.table entries) signal
  | clamp {entries body : Section α} {tag : String} {lowValue highValue innerValue : Value α}
      {low high inner : Signal α}
      (htag : Chooses SignalKind.tag entries .clamp tag (.table body))
      (hlowKey : body.get? "min" = some lowValue) (hlow : Describes lowValue low)
      (hhighKey : body.get? "max" = some highValue) (hhigh : Describes highValue high)
      (hinnerKey : body.get? "value" = some innerValue) (hinner : Describes innerValue inner) :
      Describes (.table entries) (clamp low high inner)
  | wave {entries body : Section α} {form : Waveform} {tag : String}
      {lowValue highValue periodValue : Value α} {low high period : Signal α}
      (htag : Chooses SignalKind.tag entries (.wave form) tag (.table body))
      (hlowKey : body.get? form.lowKey = some lowValue) (hlow : Describes lowValue low)
      (hhighKey : body.get? form.highKey = some highValue) (hhigh : Describes highValue high)
      (hperiodKey : body.get? "period" = some periodValue) (hperiod : Describes periodValue period)
      (hinitial : OptionalNumber body "initialProgress") :
      Describes (.table entries)
        (wave form low high period (Section.numberD body "initialProgress" 0.0))
  | random {entries body : Section α} {tag : String} {lowValue highValue : Value α}
      {low high : Signal α}
      (htag : Chooses SignalKind.tag entries .random tag (.table body))
      (hlowKey : body.get? "min" = some lowValue) (hlow : Describes lowValue low)
      (hhighKey : body.get? "max" = some highValue) (hhigh : Describes highValue high)
      (hlast : OptionalNumber body "lastValue") :
      Describes (.table entries)
        ((Section.number? body "lastValue").elim (random low high) (withLast low high))

/-- A key holds a written signal, or it is absent and there is a default. -/
def FieldAt (entries : Section α) (key : String) (default : Option α) : Prop :=
  AtKey entries key IsField (default.isSome = true)

/-- A key holds a value that is written for a signal, or it is absent and the signal is the
    default. -/
def DescribesAt (entries : Section α) (key : String) (default : Option α) (signal : Signal α) :
    Prop :=
  AtKey entries key (fun value => Describes value signal)
    (∃ x, default = some x ∧ signal = constant x)

/-! ## Written signals are those that describe a signal -/

theorem exists_describes_named {entries body : Section α} {kind : SignalKind} {tag : String}
    {keys : List String} (htag : Chooses SignalKind.tag entries kind tag (.table body))
    (hkeys : kind.partKeys? = some keys)
    (hparts : ∀ key ∈ keys, ∃ value signal, body.get? key = some value ∧ Describes value signal)
    (hnumber : ∀ key ∈ kind.numberKey?, OptionalNumber body key) :
    ∃ signal : Signal α, Describes (.table entries) signal := by
  cases kind with
  | combine op => cases hkeys
  | abs => cases hkeys
  | clamp =>
    cases hkeys
    obtain ⟨_, low, hlowKey, hlow⟩ := hparts "min" (by simp)
    obtain ⟨_, high, hhighKey, hhigh⟩ := hparts "max" (by simp)
    obtain ⟨_, inner, hinnerKey, hinner⟩ := hparts "value" (by simp)
    exact ⟨_, .clamp htag hlowKey hlow hhighKey hhigh hinnerKey hinner⟩
  | wave form =>
    have hkey : ∀ key ∈ [form.lowKey, form.highKey, "period"], key ∈ keys := by
      cases form <;> cases hkeys <;> simp [Waveform.lowKey, Waveform.highKey]
    obtain ⟨_, low, hlowKey, hlow⟩ := hparts form.lowKey (hkey _ (by simp))
    obtain ⟨_, high, hhighKey, hhigh⟩ := hparts form.highKey (hkey _ (by simp))
    obtain ⟨_, period, hperiodKey, hperiod⟩ := hparts "period" (hkey _ (by simp))
    have hinitial : OptionalNumber body "initialProgress" := hnumber _ rfl
    exact ⟨_, .wave htag hlowKey hlow hhighKey hhigh hperiodKey hperiod hinitial⟩
  | random =>
    cases hkeys
    obtain ⟨_, low, hlowKey, hlow⟩ := hparts "min" (by simp)
    obtain ⟨_, high, hhighKey, hhigh⟩ := hparts "max" (by simp)
    have hlast : OptionalNumber body "lastValue" := hnumber _ rfl
    exact ⟨_, .random htag hlowKey hlow hhighKey hhigh hlast⟩

theorem IsField.exists_describes {value : Value α} (h : IsField value) :
    ∃ signal, Describes value signal := by
  induction h with
  | number hnumber =>
    obtain ⟨x, hx⟩ := Option.isSome_iff_exists.1 hnumber
    exact ⟨constant x, .number hx⟩
  | abs htag _ ih =>
    obtain ⟨inner, hinner⟩ := ih
    exact ⟨_, .abs htag hinner⟩
  | @combine entries body op tag htag hcount _ ih =>
    obtain ⟨arguments, harguments⟩ := exists_forall₂ ih
    obtain ⟨hlength, hparts⟩ := List.forall₂_iff_zip.1 harguments
    -- As many arguments as the operator is written with are as many as it combines.
    have hadmits : op.arity.Admits arguments.length := by
      rw [op.admits_iff, ← hlength]
      exact hcount
    exact ⟨_, .combine htag hlength hparts (combine?_eq_ok_iff.2 ⟨hadmits, rfl⟩)⟩
  | named htag hkeys hpresent _ hnumber ih =>
    refine exists_describes_named htag hkeys (fun key hkey => ?_) hnumber
    obtain ⟨value, hvalue⟩ := Option.isSome_iff_exists.1 (hpresent key hkey)
    obtain ⟨signal, hsignal⟩ := ih key hkey value hvalue
    exact ⟨value, signal, hvalue, hsignal⟩

theorem Describes.isField {value : Value α} {signal : Signal α} (h : Describes value signal) :
    IsField value := by
  induction h with
  | number hnumber => exact .number (by simp [hnumber])
  | abs htag _ ih => exact .abs htag ih
  | @combine entries body op tag arguments signal htag hlength _ hbuilt ih =>
    have hcount : op.Takes body.length := by
      rw [hlength, ← op.admits_iff]
      exact (combine?_eq_ok_iff.1 hbuilt).1
    exact .combine htag hcount (forall_of_forall_zip hlength ih)
  | clamp htag hlowKey _ hhighKey _ hinnerKey _ ihLow ihHigh ihInner =>
    refine .named htag rfl ?_ ?_ (by simp [SignalKind.numberKey?])
    · simp [Entries.has, hlowKey, hhighKey, hinnerKey]
    · simp [hlowKey, hhighKey, hinnerKey, ihLow, ihHigh, ihInner]
  | @wave entries body form tag _ _ _ _ _ _ htag hlowKey _ hhighKey _ hperiodKey _ hinitial
      ihLow ihHigh ihPeriod =>
    have hnumber : ∀ key ∈ (SignalKind.wave form).numberKey?, OptionalNumber body key := by
      simpa [SignalKind.numberKey?] using hinitial
    cases form
    all_goals
      refine .named htag rfl ?_ ?_ hnumber
      · simp_all [Entries.has, Waveform.lowKey, Waveform.highKey]
      · simp_all [Waveform.lowKey, Waveform.highKey]
  | random htag hlowKey _ hhighKey _ hlast ihLow ihHigh =>
    refine .named htag rfl ?_ ?_ (by simpa [SignalKind.numberKey?] using hlast)
    · simp [Entries.has, hlowKey, hhighKey]
    · simp [hlowKey, hhighKey, ihLow, ihHigh]

theorem isField_iff_exists_describes (value : Value α) :
    IsField value ↔ ∃ signal, Describes value signal :=
  ⟨IsField.exists_describes, fun ⟨_, h⟩ => h.isField⟩

/-! ## The reader takes what describes a signal -/

theorem wave_initialProgress [Numeric.Lawful α] (form : Waveform) (low high period : Signal α)
    (body : Section α) :
    wave form low high period (initialProgress body)
      = wave form low high period (Section.numberD body "initialProgress" 0.0) := by
  unfold initialProgress Section.numberD
  cases Section.number? body "initialProgress" with
  | none => rfl
  | some x => exact wave_abs form low high period x

theorem Describes.reads [Numeric.Lawful α] {value : Value α} {signal : Signal α}
    (h : Describes value signal) : Reads ofValue value signal := by
  have hchosen : ∀ {entries : Section α} {kind tag value},
      Chooses SignalKind.tag entries kind tag value →
        chooseTag SignalKind.ofTag? entries = .ok (kind, tag, value) :=
    (chooseTag_eq_ok_iff ofTag?_eq_some_iff).2
  induction h with
  | @number value x hnumber =>
    intro path
    cases value with
    | integer n =>
      cases hnumber
      rfl
    | float y =>
      cases hnumber
      rfl
    | _ => cases hnumber
  | abs htag _ ih => exact reads_absolute (hchosen htag) ih
  | combine htag hlength _ hbuilt ih =>
    obtain ⟨hadmits, rfl⟩ := combine?_eq_ok_iff.1 hbuilt
    refine reads_combined (hchosen htag) ?_ hadmits
    rw [List.forall₂_map_left_iff]
    exact List.forall₂_iff_zip.2 ⟨hlength, ih⟩
  | clamp htag hlowKey _ hhighKey _ hinnerKey _ ihLow ihHigh ihInner =>
    exact reads_clamped (hchosen htag) ⟨_, hlowKey, ihLow⟩ ⟨_, hhighKey, ihHigh⟩
      ⟨_, hinnerKey, ihInner⟩
  | wave htag hlowKey _ hhighKey _ hperiodKey _ hinitial ihLow ihHigh ihPeriod =>
    rw [← wave_initialProgress]
    exact reads_periodic (hchosen htag) ⟨_, hlowKey, ihLow⟩ ⟨_, hhighKey, ihHigh⟩
      ⟨_, hperiodKey, ihPeriod⟩ (readInitialProgress_of_optionalNumber hinitial)
  | random htag hlowKey _ hhighKey _ hlast ihLow ihHigh =>
    exact reads_drawn (hchosen htag) ⟨_, hlowKey, ihLow⟩ ⟨_, hhighKey, ihHigh⟩
      (readNumber?_of_optionalNumber hlast)

/-! ## The reader gives what is described -/

/-- What describes a signal is put together in the way that the reader puts signals together. -/
theorem composes_describes [Numeric.Lawful α] : Composes (Describes (α := α)) where
  number := .number
  abs := .abs
  combine htag hparts hadmits := by
    obtain ⟨hlength, hdescribed⟩ := List.forall₂_iff_zip.1 hparts
    exact .combine htag hlength hdescribed (combine?_eq_ok_iff.2 ⟨hadmits, rfl⟩)
  clamp htag := by
    rintro ⟨_, hlowKey, hlow⟩ ⟨_, hhighKey, hhigh⟩ ⟨_, hinnerKey, hinner⟩
    exact .clamp htag hlowKey hlow hhighKey hhigh hinnerKey hinner
  wave htag := by
    rintro ⟨_, hlowKey, hlow⟩ ⟨_, hhighKey, hhigh⟩ ⟨_, hperiodKey, hperiod⟩ hinitial
    rw [wave_initialProgress]
    exact .wave htag hlowKey hlow hhighKey hhigh hperiodKey hperiod hinitial
  random htag := by
    rintro ⟨_, hlowKey, hlow⟩ ⟨_, hhighKey, hhigh⟩ hlast
    exact .random htag hlowKey hlow hhighKey hhigh hlast

theorem gives_read_describes [Numeric.Lawful α] (entries : Section α) (key path : String)
    (default : Option α) :
    (read entries key path default).Gives (DescribesAt entries key default) :=
  gives_readAt composes_describes entries key path default

theorem DescribesAt.reads [Numeric.Lawful α] {entries : Section α} {key : String}
    {default : Option α} {signal : Signal α} (h : DescribesAt entries key default signal)
    (path : String) : read entries key path default = .ok signal := by
  unfold DescribesAt AtKey at h
  unfold read
  cases hvalue : entries.get? key with
  | some value =>
    simp only [hvalue] at h
    exact h.reads _
  | none =>
    simp only [hvalue] at h
    obtain ⟨x, rfl, rfl⟩ := h
    rfl

/-- The reader of a field makes the signal that its value describes, or the default. -/
theorem read_eq_ok_iff [Numeric.Lawful α] (entries : Section α) (key path : String)
    (default : Option α) (signal : Signal α) :
    (read entries key path default).result = .ok signal
      ↔ DescribesAt entries key default signal := by
  constructor
  · exact (gives_read_describes entries key path default).of_result
  · intro h
    rw [h.reads path]
    rfl

theorem fieldAt_iff_exists_describesAt (entries : Section α) (key : String) (default : Option α) :
    FieldAt entries key default ↔ ∃ signal, DescribesAt entries key default signal := by
  unfold FieldAt DescribesAt AtKey
  cases entries.get? key with
  | some value => exact isField_iff_exists_describes value
  | none => simp [Option.isSome_iff_exists]

/-- A field is read just when its key holds a written signal, or is absent and there is a default;
    and the signal that is read is then the one that the building functions make of the value,
    or the default. -/
theorem read_signal_iff (entries : Section Float) (key path : String) (default : Option Float) :
    ((∃ signal, (read entries key path default).result = .ok signal)
        ↔ FieldAt entries key default)
      ∧ ∀ signal, (read entries key path default).result = .ok signal
          ↔ DescribesAt entries key default signal := by
  refine ⟨?_, read_eq_ok_iff entries key path default⟩
  simp only [fieldAt_iff_exists_describesAt, read_eq_ok_iff]

end Signal

end Modulation

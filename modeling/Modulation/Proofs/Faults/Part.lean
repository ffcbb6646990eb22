import Modulation.Proofs.Faults.Report
import Modulation.Proofs.VectorSignal.Grammar

set_option autoImplicit false

/-! # The issues of a provider section

What a kind of provider reads is listed by its form: its parts in the order in which they are read,
each of them a field or a number with a key of its own, and the arity that its arguments must have.
The issues of a section are the issues that its parts have by themselves, one part after the other;
the section has an issue of its own only if none of its parts has one (`issues_of_parts`), or if no
part is read (`issues_of_notSection`, `issues_of_refusal`). -/

namespace Modulation

open Modulation.Config

variable {α : Type}

/-- The types of fields. -/
inductive FieldType where
  | signal
  | vector
  deriving DecidableEq, Repr

/-- A part of a provider: a field, which may have a default if it is a signal, or a number that may
    be absent. -/
inductive Part (α : Type) where
  | vector (key : String)
  | signal (key : String) (default : Option α)
  | number (key : String)

/-- How a kind of provider reads what stands under its tag: as a field of the type of the provider
    itself, or by its parts, of which there may be too few or too many. -/
inductive Form (α : Type) where
  | whole
  | parts (parts : Section α → List (Part α)) (arity? : Option Arity)

/-- The key of a part. -/
def Part.key : Part α → String
  | vector key | signal key _ | number key => key

/-- The components of a vector signal. -/
def componentParts [Numeric α] : List (Part α) :=
  [.signal "x" (some 0.0), .signal "y" (some 0.0), .signal "z" (some 0.0)]

/-- The form of a kind of signals. -/
def SignalKind.form : SignalKind → Form α
  | combine op => .parts (fun body => body.keys.map (.signal · none)) (some op.arity)
  | abs => .whole
  | clamp =>
    .parts (fun _ => [.signal "min" none, .signal "max" none, .signal "value" none]) none
  | wave form =>
    .parts (fun _ => [.signal form.lowKey none, .signal form.highKey none, .signal "period" none,
      .number "initialProgress"]) none
  | random =>
    .parts (fun _ => [.signal "min" none, .signal "max" none, .number "lastValue"]) none

/-- The form of a kind of vector signals. -/
def VectorKind.form [Numeric α] : VectorKind → Form α
  | combine op => .parts (fun body => body.keys.map .vector) (some op.arity)
  | normalize => .whole
  | scale => .parts (fun _ => [.vector "vector", .signal "factor" none]) none
  | rotate =>
    .parts (fun _ => [.vector "about", .signal "period" none, .signal "radius" (some 1.0),
      .number "initialProgress"]) none
  | components => .parts (fun _ => componentParts) none

variable [Numeric α]

/-! ## Issues -/

/-- The issues of reading a value as a field. -/
def FieldType.issues (type : FieldType) (value : Value α) (path : String) : IssueLog :=
  match type with
  | signal => (Signal.ofValue value path).issues
  | vector => (VectorSignal.ofValue value path).issues

/-- The issues that a part of a section has by itself. -/
def Part.issues (body : Section α) (path : String) : Part α → IssueLog
  | vector key => (VectorSignal.read body key path none).issues
  | signal key default => (Signal.read body key path default).issues
  | number key => (readNumber? body key path).issues

/-- The issues that parts of a section have by themselves, one part after the other. -/
def partIssues (parts : List (Part α)) (body : Section α) (path : String) : IssueLog :=
  parts.flatMap (Part.issues body path)

/-- The issue of a number of arguments, if it is not admitted. -/
def countIssues (arity? : Option Arity) (tag : String) (found : Nat) (path : String) : IssueLog :=
  match arity?.bind fun arity => arity.fault? found with
  | some rule => [Fault.issue ⟨.wrongArity tag rule found, path⟩]
  | none => []

/-! ## What a section offers -/

/-- A section chooses a provider of a type by a tag, and `value` stands under the tag. -/
def FieldType.Offers (type : FieldType) (entries : Section α) (tag : String) (form : Form α)
    (value : Value α) : Prop :=
  match type with
  | signal => ∃ kind, Chooses SignalKind.tag entries kind tag value ∧ form = kind.form
  | vector => ¬ VectorSignal.HasComponents entries
    ∧ ∃ kind, Chooses VectorKind.tag entries kind tag value ∧ form = kind.form

/-- A section chooses no provider of a type, and this is the cause. -/
def FieldType.Refuses (type : FieldType) (entries : Section α) (cause : Cause) : Prop :=
  match type with
  | signal => Modulation.Refuses SignalKind.tag entries cause
  | vector => ¬ VectorSignal.HasComponents entries
    ∧ Modulation.Refuses VectorKind.tag entries cause

/-- The issues of a section that is read by its parts: those of the parts, and one for their number
    only if the parts have none. -/
def nodeIssues (parts : List (Part α)) (arity? : Option Arity) (tag : String) (body : Section α)
    (path : String) : IssueLog :=
  partIssues parts body path
    ++ if partIssues parts body path = [] then countIssues arity? tag body.length path else []

theorem nodeIssues_none (parts : List (Part α)) (tag : String) (body : Section α)
    (path : String) : nodeIssues parts none tag body path = partIssues parts body path := by
  unfold nodeIssues countIssues
  split <;> simp

/-- Arguments that are counted after they are read have an issue for their number only if they have
    no other. -/
theorem issues_counted {β γ : Type} {arguments : Reading (List β)} {count : Nat}
    (h : arguments.Gives fun items => items.length = count) (arity : Arity) (tag path : String)
    (build : List β → γ) :
    (arguments.andThen fun items =>
        (Reading.report (arity.check tag path items)).map build).issues
      = arguments.issues
        ++ if arguments.issues = [] then countIssues (some arity) tag count path else [] := by
  cases h with
  | value hlength =>
    subst hlength
    simp only [Reading.andThen, Reading.ok, Arity.check, countIssues, Option.bind_some]
    cases arity.fault? _ <;> rfl
  | fault fault later => simp [Reading.andThen]

section Offer

variable {β γ : Type} {read : Value α → Reader β}

/-- A section whose entries are the arguments of an operator has the issues of the fields under its
    keys. -/
theorem issues_arguments (hgives : ∀ value path, (read value path).Gives fun _ => True)
    {body : Section α} (distinct : body.Distinct) {part : String → Part α} {path : String}
    (hpart : ∀ key value, body.get? key = some value →
      (part key).issues body path = (read value (joinPath path key)).issues)
    (arity : Arity) (tag : String) (build : List β → γ) :
    (((offerBy read (.table body)).body tag path).andThen fun body =>
        (body.allOperands path).andThen fun arguments =>
          (Reading.report (arity.check tag path arguments)).map build).issues
      = nodeIssues (body.keys.map part) (some arity) tag body path := by
  have harguments : ((bodyBy read body).allOperands path).Gives
      fun items => items.length = body.length :=
    (gives_allOperands (R := fun _ _ => True) (fun entry _ path => hgives entry.2 path) path).mono
      fun _ hitems => hitems.length_eq.symm
  have hissues : ((bodyBy read body).allOperands path).issues
      = partIssues (body.keys.map part) body path := by
    rw [bodyBy_allOperands, Reading.issues_all, partIssues, Entries.keys, List.map_map,
      List.flatMap_map, List.flatMap_map]
    refine List.flatMap_congr fun entry hentry => ?_
    exact (hpart entry.1 entry.2 ((Entries.get?_eq_some_iff distinct _ _).2 hentry)).symm
  rw [nodeIssues, ← hissues]
  exact issues_counted harguments arity tag path build

/-- A value that is no section has no parts, and that is its only issue. -/
theorem issues_body_andThen {value : Value α} (hvalue : ∀ body, value ≠ .table body)
    (tag path : String) (next : Body α β → Reading γ) :
    (((offerBy read value).body tag path).andThen next).issues
      = [Fault.issue ⟨.notSection tag value.typeName, path⟩] := by
  rcases offerBy_body read value tag path with ⟨body, hbody, -⟩ | hbody
  · exact absurd hbody (hvalue body)
  · rw [hbody]
    rfl

end Offer

omit [Numeric α] in
theorem bodyBy_entries {β : Type} (read : Value α → Reader β) (entries : Section α) :
    (bodyBy read entries).entries = entries := rfl

namespace Signal

theorem operand_eq_read (body : Section α) (key path : String) :
    (bodyBy ofValue body).operand key path = read body key path none := by
  rw [bodyBy_operand]
  unfold read
  cases body.get? key <;> rfl

theorem issues_ofOffer {kind : SignalKind} {parts : Section α → List (Part α)}
    {arity? : Option Arity} (hform : kind.form = .parts parts arity?) {body : Section α}
    (distinct : body.Distinct) (tag path : String) :
    (ofOffer kind tag (offerBy ofValue (.table body)) path).issues
      = nodeIssues (parts body) arity? tag body path := by
  cases kind with
  | abs => cases hform
  | combine op =>
    cases hform
    refine issues_arguments (gives_ofValue closed_true.composes) distinct (fun key value hvalue => ?_)
      op.arity tag (combine op)
    simp only [Part.issues, read, hvalue]
  | clamp =>
    cases hform
    rw [nodeIssues_none]
    simp [ofOffer, offerBy_table_body, Reading.andThen, Reading.ok, partIssues, Part.issues,
      readBounds, operand_eq_read]
  | wave form =>
    cases hform
    rw [nodeIssues_none]
    simp [ofOffer, offerBy_table_body, Reading.andThen, Reading.ok, partIssues, Part.issues,
      readBounds, operand_eq_read, readInitialProgress, bodyBy_entries]
  | random =>
    cases hform
    rw [nodeIssues_none]
    simp [ofOffer, offerBy_table_body, Reading.andThen, Reading.ok, partIssues, Part.issues,
      readBounds, operand_eq_read, bodyBy_entries]

theorem issues_ofOffer_notSection {kind : SignalKind} {parts : Section α → List (Part α)}
    {arity? : Option Arity} (hform : kind.form = .parts parts arity?) {value : Value α}
    (hvalue : ∀ body, value ≠ .table body) (tag path : String) :
    (ofOffer kind tag (offerBy ofValue value) path).issues
      = [Fault.issue ⟨.notSection tag value.typeName, path⟩] := by
  cases kind with
  | abs => cases hform
  | combine op => exact issues_body_andThen hvalue tag path _
  | clamp => exact issues_body_andThen hvalue tag path _
  | wave form => exact issues_body_andThen hvalue tag path _
  | random => exact issues_body_andThen hvalue tag path _

theorem ofValue_of_chooses {entries : Section α} {kind : SignalKind} {tag : String}
    {value : Value α} (h : Chooses SignalKind.tag entries kind tag value) (path : String) :
    ofValue (.table entries) path = ofOffer kind tag (offerBy ofValue value) (joinPath path tag) := by
  rw [ofValue_table, (chooseTag_eq_ok_iff ofTag?_eq_some_iff).2 h]

end Signal

namespace VectorSignal

theorem operand_eq_read (body : Section α) (key path : String) :
    (bodyBy ofValue body).operand key path = read body key path none := by
  rw [bodyBy_operand]
  unfold read
  cases body.get? key <;> rfl

theorem issues_readComponents (entries : Section α) (path : String) :
    (readComponents entries path).issues = partIssues componentParts entries path := by
  simp [readComponents, partIssues, componentParts, Part.issues]

theorem issues_ofOffer {kind : VectorKind} {parts : Section α → List (Part α)}
    {arity? : Option Arity} (hform : kind.form = .parts parts arity?) {body : Section α}
    (distinct : body.Distinct) (tag path : String) :
    (ofOffer kind tag (offerBy ofValue (.table body)) path).issues
      = nodeIssues (parts body) arity? tag body path := by
  cases kind with
  | normalize => cases hform
  | combine op =>
    cases hform
    refine issues_arguments (gives_ofValue (closed_true.composes Signal.closed_true)) distinct
      (fun key value hvalue => ?_) op.arity tag (combine op)
    simp only [Part.issues, read, hvalue]
  | scale =>
    cases hform
    rw [nodeIssues_none]
    simp [ofOffer, offerBy_table_body, Reading.andThen, Reading.ok, partIssues, Part.issues,
      operand_eq_read, bodyBy_entries]
  | rotate =>
    cases hform
    rw [nodeIssues_none]
    simp [ofOffer, offerBy_table_body, Reading.andThen, Reading.ok, partIssues, Part.issues,
      operand_eq_read, readInitialProgress, bodyBy_entries]
  | components =>
    cases hform
    rw [nodeIssues_none, ← issues_readComponents]
    rfl

theorem issues_ofOffer_notSection {kind : VectorKind} {parts : Section α → List (Part α)}
    {arity? : Option Arity} (hform : kind.form = .parts parts arity?) {value : Value α}
    (hvalue : ∀ body, value ≠ .table body) (tag path : String) :
    (ofOffer kind tag (offerBy ofValue value) path).issues
      = [Fault.issue ⟨.notSection tag value.typeName, path⟩] := by
  cases kind with
  | normalize => cases hform
  | combine op => exact issues_body_andThen hvalue tag path _
  | scale => exact issues_body_andThen hvalue tag path _
  | rotate => exact issues_body_andThen hvalue tag path _
  | components => exact issues_body_andThen hvalue tag path _

omit [Numeric α] in
theorem isComponentSection_eq_false {entries : Section α} (h : ¬ HasComponents entries) :
    isComponentSection entries = false := by
  rwa [← isComponentSection_iff, Bool.not_eq_true] at h

theorem ofValue_of_chooses {entries : Section α} (hother : ¬ HasComponents entries)
    {kind : VectorKind} {tag : String} {value : Value α}
    (h : Chooses VectorKind.tag entries kind tag value) (path : String) :
    ofValue (.table entries) path
      = ofOffer kind tag (offerBy ofValue value) (joinPath path tag) :=
  ofValue_of_choice (isComponentSection_eq_false hother)
    ((chooseTag_eq_ok_iff ofTag?_eq_some_iff).2 h) path

end VectorSignal

/-! ## The issues of a section -/

namespace FieldType

variable {type : FieldType} {entries : Section α} {tag : String}

/-- What a section chooses for a type, with its form in the place of its kind. -/
def choice (type : FieldType) (entries : Section α) :
    Except Cause (String × Form α × Value α) :=
  match type with
  | signal => (chooseTag SignalKind.ofTag? entries).map fun (kind, tag, value) =>
      (tag, kind.form, value)
  | vector => (chooseTag VectorKind.ofTag? entries).map fun (kind, tag, value) =>
      (tag, kind.form, value)

omit [Numeric α] in
theorem map_form_eq_ok_iff {κ : Type} {formOf : κ → Form α}
    {chosen : Except Cause (κ × String × Value α)} {form : Form α} {value : Value α} :
    (chosen.map fun (kind, tag, value) => (tag, formOf kind, value)) = .ok (tag, form, value)
      ↔ ∃ kind, chosen = .ok (kind, tag, value) ∧ form = formOf kind := by
  constructor
  · intro h
    cases chosen with
    | ok found =>
      cases h
      exact ⟨found.1, rfl, rfl⟩
    | error cause => cases h
  · rintro ⟨kind, rfl, rfl⟩
    rfl

theorem offers_iff {form : Form α} {value : Value α} :
    type.Offers entries tag form value
      ↔ (type = vector → ¬ VectorSignal.HasComponents entries)
        ∧ type.choice entries = .ok (tag, form, value) := by
  cases type with
  | signal =>
    rw [choice, map_form_eq_ok_iff]
    simp_rw [chooseTag_eq_ok_iff Signal.ofTag?_eq_some_iff]
    exact ⟨fun h => ⟨nofun, h⟩, And.right⟩
  | vector =>
    rw [choice, map_form_eq_ok_iff]
    simp_rw [chooseTag_eq_ok_iff VectorSignal.ofTag?_eq_some_iff]
    exact ⟨fun h => ⟨fun _ => h.1, h.2⟩, fun h => ⟨h.1 trivial, h.2⟩⟩

theorem refuses_iff {cause : Cause} :
    type.Refuses entries cause
      ↔ (type = vector → ¬ VectorSignal.HasComponents entries)
        ∧ type.choice entries = .error cause := by
  cases type with
  | signal =>
    simp only [Refuses, choice, ← chooseTag_eq_error_iff Signal.ofTag?_eq_some_iff]
    cases chooseTag SignalKind.ofTag? entries <;> simp [Except.map]
  | vector =>
    simp only [Refuses, choice, ← chooseTag_eq_error_iff VectorSignal.ofTag?_eq_some_iff]
    cases chooseTag VectorKind.ofTag? entries <;> simp [Except.map]

/-- A section is a section of components, or it chooses a provider, or it refuses for a cause. -/
theorem components_or_offers_or_refuses (type : FieldType) (entries : Section α) :
    (type = vector ∧ VectorSignal.HasComponents entries)
      ∨ (∃ tag form value, type.Offers entries tag form value)
      ∨ ∃ cause, type.Refuses entries cause := by
  by_cases hcomponents : type = vector ∧ VectorSignal.HasComponents entries
  · exact Or.inl hcomponents
  · have hother : type = vector → ¬ VectorSignal.HasComponents entries := not_and.1 hcomponents
    cases hchoice : type.choice entries with
    | ok chosen => exact Or.inr (Or.inl ⟨_, _, _, offers_iff.2 ⟨hother, hchoice⟩⟩)
    | error cause => exact Or.inr (Or.inr ⟨cause, refuses_iff.2 ⟨hother, hchoice⟩⟩)

theorem Offers.unique {otherTag : String} {form otherForm : Form α} {value otherValue : Value α}
    (h : type.Offers entries tag form value)
    (hother : type.Offers entries otherTag otherForm otherValue) :
    otherTag = tag ∧ otherForm = form ∧ otherValue = value := by
  cases (offers_iff.1 h).2.symm.trans (offers_iff.1 hother).2
  exact ⟨rfl, rfl, rfl⟩

theorem Refuses.unique {cause other : Cause} (h : type.Refuses entries cause)
    (hother : type.Refuses entries other) : other = cause := by
  cases (refuses_iff.1 h).2.symm.trans (refuses_iff.1 hother).2
  rfl

theorem Offers.not_refuses {form : Form α} {value : Value α} {cause : Cause}
    (h : type.Offers entries tag form value) : ¬ type.Refuses entries cause := by
  intro hrefuses
  cases (offers_iff.1 h).2.symm.trans (refuses_iff.1 hrefuses).2

/-- The issues of a section that is read by its parts are those of the parts, but for one that it has
    of its own if none of them has any. -/
theorem issues_of_parts {parts : Section α → List (Part α)} {arity? : Option Arity}
    {body : Section α} (h : type.Offers entries tag (.parts parts arity?) (.table body))
    (distinct : body.Distinct) (path : String) :
    type.issues (.table entries) path
      = nodeIssues (parts body) arity? tag body (joinPath path tag) := by
  cases type with
  | signal =>
    obtain ⟨kind, htag, hform⟩ := h
    rw [issues, Signal.ofValue_of_chooses htag, Signal.issues_ofOffer hform.symm distinct]
  | vector =>
    obtain ⟨hother, kind, htag, hform⟩ := h
    rw [issues, VectorSignal.ofValue_of_chooses hother htag,
      VectorSignal.issues_ofOffer hform.symm distinct]

/-- Where a section should be read by its parts, something that is no section is the only issue. -/
theorem issues_of_notSection {parts : Section α → List (Part α)} {arity? : Option Arity}
    {value : Value α} (h : type.Offers entries tag (.parts parts arity?) value)
    (hvalue : ∀ body, value ≠ .table body) (path : String) :
    type.issues (.table entries) path
      = [Fault.issue ⟨.notSection tag value.typeName, joinPath path tag⟩] := by
  cases type with
  | signal =>
    obtain ⟨kind, htag, hform⟩ := h
    rw [issues, Signal.ofValue_of_chooses htag, Signal.issues_ofOffer_notSection hform.symm hvalue]
  | vector =>
    obtain ⟨hother, kind, htag, hform⟩ := h
    rw [issues, VectorSignal.ofValue_of_chooses hother htag,
      VectorSignal.issues_ofOffer_notSection hform.symm hvalue]

/-- A section that is read as what stands under its tag has the issues of that. -/
theorem issues_of_whole {value : Value α} (h : type.Offers entries tag .whole value)
    (path : String) : type.issues (.table entries) path = type.issues value (joinPath path tag) := by
  cases type with
  | signal =>
    obtain ⟨kind, htag, hform⟩ := h
    rw [issues, Signal.ofValue_of_chooses htag]
    cases kind with
    | abs => rfl
    | _ => cases hform
  | vector =>
    obtain ⟨hother, kind, htag, hform⟩ := h
    rw [issues, VectorSignal.ofValue_of_chooses hother htag]
    cases kind with
    | normalize => rfl
    | _ => cases hform

/-- That a section refuses is its only issue. -/
theorem issues_of_refusal {cause : Cause} (h : type.Refuses entries cause) (path : String) :
    type.issues (.table entries) path = [Fault.issue ⟨cause, path⟩] := by
  cases type with
  | signal =>
    rw [issues, Signal.ofValue_table, (chooseTag_eq_error_iff Signal.ofTag?_eq_some_iff).2 h]
    rfl
  | vector =>
    obtain ⟨hother, hrefuses⟩ := h
    have hchoice := (chooseTag_eq_error_iff VectorSignal.ofTag?_eq_some_iff).2 hrefuses
    have htagged := Bool.eq_false_iff.1 (VectorSignal.isComponentSection_eq_false hother)
    rw [issues, VectorSignal.ofValue, if_neg htagged, VectorSignal.ofOffers_offersOf, hchoice]
    rfl

/-- The issues of a section of components are those of the components. -/
theorem issues_of_components (h : VectorSignal.HasComponents entries) (path : String) :
    vector.issues (.table entries) path = partIssues componentParts entries path := by
  rw [issues, VectorSignal.ofValue, if_pos ((VectorSignal.isComponentSection_iff _).2 h),
    ← VectorSignal.issues_readComponents]
  rfl

end FieldType

end Modulation

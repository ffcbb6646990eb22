import Modulation.Proofs.Faults.Part
import Modulation.Proofs.Toml.Distinct

set_option autoImplicit false

/-! # Broken places

`Broken type value place cause` says what is wrong in a value that should be a field, and where: a
value that is of no use as a field of its type, a section that does not choose a provider, a part
that is missing or is itself broken at some place, or a number of arguments that is not admitted
while all arguments are fields. It mentions no reader and no issue.

Every broken place is reported by exactly one issue, and nothing else is reported
(`FieldType.reportsOnce`): by induction over the tables in the value, each kind of section being put
together from its parts by the rules for `ReportsOnce`. -/

namespace Modulation

open Modulation.Config

variable {α : Type} [Numeric α]

/-! ## Places where something is wrong -/

/-- The type of a part that is a field. -/
def Part.type? : Part α → Option FieldType
  | vector _ => some .vector
  | signal _ _ => some .signal
  | number _ => none

/-- A part may not be absent. -/
def Part.Required : Part α → Prop
  | vector _ => True
  | signal _ default => default = none
  | number _ => False

instance : DecidablePred (Part.Required (α := α))
  | .vector _ => inferInstanceAs (Decidable True)
  | .signal _ default => inferInstanceAs (Decidable (default = none))
  | .number _ => inferInstanceAs (Decidable False)

/-- A part of a section is written as it should be. -/
def Part.Fine (body : Section α) : Part α → Prop
  | vector key => VectorSignal.FieldAt body key none
  | signal key default => Signal.FieldAt body key default
  | number key => OptionalNumber body key

mutual

/-- Something is wrong at a place in a value that is read as a field. -/
inductive Broken : FieldType → Value α → List String → Cause → Prop where
  | notSignal {value : Value α} (hnumber : value.number? = none)
      (hvalue : ∀ entries, value ≠ .table entries) :
      Broken .signal value [] (.notSignal value.typeName)
  | notVector {value : Value α} (hlist : ∀ numbers, value.view ≠ .numbers numbers)
      (hvalue : ∀ entries, value ≠ .table entries) :
      Broken .vector value [] (.notVector value.typeName)
  | componentCount {value : Value α} {numbers : List α} (hlist : value.view = .numbers numbers)
      (hcount : numbers.length ≠ 3) : Broken .vector value [] (.componentCount numbers.length)
  | refused {type : FieldType} {entries : Section α} {cause : Cause}
      (hrefuses : type.Refuses entries cause) : Broken type (.table entries) [] cause
  | component {entries : Section α} {part : Part α} {place : List String} {cause : Cause}
      (hcomponents : VectorSignal.HasComponents entries) (hpart : part ∈ componentParts)
      (h : BrokenPart entries part place cause) : Broken .vector (.table entries) place cause
  | offered {type : FieldType} {entries : Section α} {tag : String} {form : Form α}
      {value : Value α} {place : List String} {cause : Cause}
      (hoffers : type.Offers entries tag form value)
      (h : BrokenBody type tag form value place cause) :
      Broken type (.table entries) (tag :: place) cause

/-- Something is wrong at a place in what stands under a tag. -/
inductive BrokenBody : FieldType → String → Form α → Value α → List String → Cause → Prop where
  | whole {type : FieldType} {tag : String} {value : Value α} {place : List String} {cause : Cause}
      (h : Broken type value place cause) : BrokenBody type tag .whole value place cause
  | notSection {type : FieldType} {tag : String} {parts : Section α → List (Part α)}
      {arity? : Option Arity} {value : Value α} (hvalue : ∀ body, value ≠ .table body) :
      BrokenBody type tag (.parts parts arity?) value [] (.notSection tag value.typeName)
  | part {type : FieldType} {tag : String} {parts : Section α → List (Part α)}
      {arity? : Option Arity} {body : Section α} {part : Part α} {place : List String}
      {cause : Cause} (hpart : part ∈ parts body) (h : BrokenPart body part place cause) :
      BrokenBody type tag (.parts parts arity?) (.table body) place cause
  | count {type : FieldType} {tag : String} {parts : Section α → List (Part α)} {arity : Arity}
      {body : Section α} {rule : ArityFault} (hparts : ∀ part ∈ parts body, part.Fine body)
      (hcount : arity.fault? body.length = some rule) :
      BrokenBody type tag (.parts parts (some arity)) (.table body) []
        (.wrongArity tag rule body.length)

/-- Something is wrong at a place in a part of a section. -/
inductive BrokenPart : Section α → Part α → List String → Cause → Prop where
  | field {body : Section α} {part : Part α} {type : FieldType} {value : Value α}
      {place : List String} {cause : Cause} (htype : part.type? = some type)
      (hvalue : body.get? part.key = some value) (h : Broken type value place cause) :
      BrokenPart body part (part.key :: place) cause
  | missing {body : Section α} {part : Part α} (hrequired : part.Required)
      (habsent : body.get? part.key = none) :
      BrokenPart body part [part.key] (.missingKey part.key)
  | number {body : Section α} {key : String} {value : Value α}
      (hvalue : body.get? key = some value) (hnumber : value.number? = none) :
      BrokenPart body (.number key) [key] (.notNumber key value.typeName)

end

/-! ## Parts -/

theorem BrokenPart.head? {body : Section α} {part : Part α} {place : List String} {cause : Cause}
    (h : BrokenPart body part place cause) : place.head? = some part.key := by
  cases h <;> rfl

/-- A part that is a field of a type is broken where its value is. -/
theorem brokenPart_iff_of_value {body : Section α} {part : Part α} {type : FieldType}
    {value : Value α} (htype : part.type? = some type) (hvalue : body.get? part.key = some value)
    (place : List String) (cause : Cause) :
    BrokenPart body part place cause
      ↔ ∃ rest, place = part.key :: rest ∧ Broken type value rest cause := by
  constructor
  · intro h
    cases h with
    | field htype' hvalue' h =>
      cases htype.symm.trans htype'
      cases hvalue.symm.trans hvalue'
      exact ⟨_, rfl, h⟩
    | missing _ habsent => cases hvalue.symm.trans habsent
    | number => cases htype
  · rintro ⟨rest, rfl, h⟩
    exact .field htype hvalue h

/-- A field that is absent is broken if it is required. -/
theorem brokenPart_iff_of_absent {body : Section α} {part : Part α}
    (habsent : body.get? part.key = none) (place : List String) (cause : Cause) :
    BrokenPart body part place cause
      ↔ part.Required ∧ place = [part.key] ∧ cause = .missingKey part.key := by
  constructor
  · intro h
    cases h with
    | field _ hvalue _ => cases habsent.symm.trans hvalue
    | missing hrequired _ => exact ⟨hrequired, rfl, rfl⟩
    | number hvalue _ => cases habsent.symm.trans hvalue
  · rintro ⟨hrequired, rfl, rfl⟩
    exact .missing hrequired habsent

theorem brokenPart_number_iff {body : Section α} {key : String} (place : List String)
    (cause : Cause) :
    BrokenPart body (.number key) place cause
      ↔ ∃ value, body.get? key = some value ∧ value.number? = none
        ∧ place = [key] ∧ cause = .notNumber key value.typeName := by
  constructor
  · intro h
    cases h with
    | field htype _ _ => cases htype
    | missing hrequired _ => exact hrequired.elim
    | number hvalue hnumber => exact ⟨_, hvalue, hnumber, rfl, rfl⟩
  · rintro ⟨value, hvalue, hnumber, rfl, rfl⟩
    exact .number hvalue hnumber

namespace Part

variable {body : Section α} {part : Part α}

theorem issues_of_value {type : FieldType} {value : Value α} (htype : part.type? = some type)
    (hvalue : body.get? part.key = some value) (path : String) :
    part.issues body path = type.issues value (joinPath path part.key) := by
  cases part with
  | vector key =>
    cases htype
    simp only [issues, VectorSignal.read, FieldType.issues, show body.get? key = _ from hvalue]
    rfl
  | signal key default =>
    cases htype
    simp only [issues, Signal.read, FieldType.issues, show body.get? key = _ from hvalue]
    rfl
  | number key => cases htype

theorem issues_of_absent (habsent : body.get? part.key = none) (path : String) :
    part.issues body path
      = if part.Required then [issueAt path ([part.key], .missingKey part.key)] else [] := by
  cases part with
  | vector key =>
    simp only [issues, VectorSignal.read, show body.get? key = _ from habsent]
    rfl
  | signal key default =>
    simp only [issues, Signal.read, show body.get? key = _ from habsent]
    cases default <;> rfl
  | number key =>
    simp only [issues, readNumber?, show body.get? key = _ from habsent]
    rfl

theorem issues_number {key : String} {value : Value α} (hvalue : body.get? key = some value)
    (path : String) :
    (number key).issues body path
      = if value.number? = none then [issueAt path ([key], .notNumber key value.typeName)]
        else [] := by
  simp only [issues, readNumber?, hvalue]
  cases value.number? <;> rfl

theorem reportsOnce_number {key : String} {value : Value α} (hvalue : body.get? key = some value) :
    ReportsOnce ((number key).issues body) (BrokenPart body (.number key)) := by
  refine reportsOnce_ite [key] (.notNumber key value.typeName) (issues_number hvalue)
    fun place cause => ?_
  rw [brokenPart_number_iff]
  simp [hvalue]

/-- A part is reported once for each place where it is broken, if this holds of its value. -/
theorem reportsOnce (h : ∀ type value, part.type? = some type → body.get? part.key = some value →
      ReportsOnce (type.issues value) (Broken type value)) :
    ReportsOnce (part.issues body) (BrokenPart body part) := by
  cases hvalue : body.get? part.key with
  | none =>
    exact reportsOnce_ite [part.key] (.missingKey part.key) (issues_of_absent hvalue)
      (brokenPart_iff_of_absent hvalue)
  | some value =>
    cases htype : part.type? with
    | some type =>
      exact ((h type value htype hvalue).under part.key).congr (issues_of_value htype hvalue)
        (brokenPart_iff_of_value htype hvalue)
    | none =>
      -- What is not a field is a number.
      cases part with
      | vector key => cases htype
      | signal key default => cases htype
      | number key => exact reportsOnce_number hvalue

/-- Parts with keys of their own are reported once for each place where one of them is broken. -/
theorem reportsOnce_all {parts : List (Part α)} (hkeys : (parts.map Part.key).Nodup)
    (h : ∀ part ∈ parts, ∀ type value, part.type? = some type → body.get? part.key = some value →
      ReportsOnce (type.issues value) (Broken type value)) :
    ReportsOnce (partIssues parts body)
      fun place cause => ∃ part ∈ parts, BrokenPart body part place cause :=
  (reportsOnce_flatMap hkeys (fun _ _ _ => BrokenPart.head?)
    fun part hpart => reportsOnce (h part hpart)).congr (fun _ => rfl) fun _ _ => Iff.rfl

/-- A part has no issue just when it is written as it should be. -/
theorem issues_eq_nil_iff [Numeric.Lawful α] (body : Section α) (path : String) (part : Part α) :
    part.issues body path = [] ↔ part.Fine body := by
  cases part with
  | vector key =>
    have hread := VectorSignal.read_eq_ok_iff body key path none
    simp only [issues, Fine, VectorSignal.fieldAt_iff_exists_describesAt, ← hread]
    exact (VectorSignal.gives_read VectorSignal.closed_true Signal.closed_true body key path
      none).issues_eq_nil_iff
  | signal key default =>
    have hread := Signal.read_eq_ok_iff body key path default
    simp only [issues, Fine, Signal.fieldAt_iff_exists_describesAt, ← hread]
    exact (Signal.gives_read Signal.closed_true body key path default).issues_eq_nil_iff
  | number key =>
    have hgives := gives_readNumber? body key path
    rw [issues, hgives.issues_eq_nil_iff]
    constructor
    · rintro ⟨x, hx⟩
      exact (hgives.of_result hx).1
    · intro hnumber
      rw [readNumber?_of_optionalNumber hnumber]
      exact ⟨_, rfl⟩

end Part

/-! ## Sections -/

namespace FieldType

variable {type : FieldType} {entries body : Section α} {tag : String}
  {parts : Section α → List (Part α)} {arity? : Option Arity}

theorem nodup_componentKeys : ((componentParts : List (Part α)).map Part.key).Nodup :=
  (by decide : List.Nodup ["x", "y", "z"])

/-- The parts of a section without repeated names have keys of their own. -/
theorem Offers.nodup_keys {value : Value α}
    (h : type.Offers entries tag (.parts parts arity?) value) (distinct : body.Distinct) :
    ((parts body).map Part.key).Nodup := by
  have hkeys : ∀ {part : String → Part α}, (∀ key, (part key).key = key) →
      ((body.keys.map part).map Part.key).Nodup := by
    intro part hpart
    have hsame : (body.keys.map part).map Part.key = body.keys := by
      rw [List.map_map]
      exact List.map_id'' hpart body.keys
    rw [hsame]
    exact distinct
  cases type with
  | signal =>
    obtain ⟨kind, -, hform⟩ := h
    cases kind with
    | combine op =>
      cases hform
      exact hkeys fun _ => rfl
    | abs => cases hform
    | clamp =>
      cases hform
      exact (by decide : List.Nodup ["min", "max", "value"])
    | wave form =>
      cases hform
      have hnodup : List.Nodup [form.lowKey, form.highKey, "period", "initialProgress"] := by
        cases form <;> decide
      exact hnodup
    | random =>
      cases hform
      exact (by decide : List.Nodup ["min", "max", "lastValue"])
  | vector =>
    obtain ⟨-, kind, -, hform⟩ := h
    cases kind with
    | combine op =>
      cases hform
      exact hkeys fun _ => rfl
    | normalize => cases hform
    | scale =>
      cases hform
      exact (by decide : List.Nodup ["vector", "factor"])
    | rotate =>
      cases hform
      exact (by decide : List.Nodup ["about", "period", "radius", "initialProgress"])
    | components =>
      cases hform
      exact nodup_componentKeys

variable {form : Form α} {value : Value α}

theorem Offers.mem (h : type.Offers entries tag form value) : (tag, value) ∈ entries := by
  have hmem : ∀ {κ : Type} {tagOf : κ → String} {kind : κ},
      Chooses tagOf entries kind tag value → (tag, value) ∈ entries := by
    rintro κ tagOf kind ⟨-, earlier, later, rfl, -⟩
    exact List.mem_append_cons_self
  cases type with
  | signal =>
    obtain ⟨kind, hkind, -⟩ := h
    exact hmem hkind
  | vector =>
    obtain ⟨-, kind, hkind, -⟩ := h
    exact hmem hkind

/-- A section is broken because it refuses, or in one of its components, or in what it offers. -/
theorem broken_table_iff (place : List String) (cause : Cause) :
    Broken type (.table entries) place cause
      ↔ (type.Refuses entries cause ∧ place = [])
        ∨ (type = vector ∧ VectorSignal.HasComponents entries
          ∧ ∃ part ∈ componentParts, BrokenPart entries part place cause)
        ∨ ∃ tag form value rest, type.Offers entries tag form value ∧ place = tag :: rest
          ∧ BrokenBody type tag form value rest cause := by
  constructor
  · intro h
    cases h with
    | notSignal _ hvalue => exact absurd rfl (hvalue entries)
    | notVector _ hvalue => exact absurd rfl (hvalue entries)
    | componentCount hlist _ => cases hlist
    | refused hrefuses => exact Or.inl ⟨hrefuses, rfl⟩
    | component hcomponents hpart h =>
      exact Or.inr (Or.inl ⟨rfl, hcomponents, _, hpart, h⟩)
    | offered hoffers h => exact Or.inr (Or.inr ⟨_, _, _, _, hoffers, rfl, h⟩)
  · rintro (⟨hrefuses, rfl⟩ | ⟨rfl, hcomponents, part, hpart, h⟩
      | ⟨tag, form, value, rest, hoffers, rfl, h⟩)
    · exact .refused hrefuses
    · exact .component hcomponents hpart h
    · exact .offered hoffers h

/-- A section that chooses a provider is broken where what stands under its tag is. -/
theorem Offers.broken_iff (h : type.Offers entries tag form value) (place : List String)
    (cause : Cause) :
    Broken type (.table entries) place cause
      ↔ ∃ rest, place = tag :: rest ∧ BrokenBody type tag form value rest cause := by
  rw [broken_table_iff]
  constructor
  · rintro (⟨hrefuses, -⟩ | ⟨rfl, hcomponents, -⟩ | ⟨_, _, _, rest, hoffers, hplace, hbody⟩)
    · exact absurd hrefuses h.not_refuses
    · exact absurd hcomponents h.1
    · obtain ⟨rfl, rfl, rfl⟩ := h.unique hoffers
      exact ⟨rest, hplace, hbody⟩
  · rintro ⟨rest, hplace, hbody⟩
    exact Or.inr (Or.inr ⟨tag, form, value, rest, h, hplace, hbody⟩)

/-- A section that refuses is broken at its own place. -/
theorem Refuses.broken_iff {cause : Cause} (h : type.Refuses entries cause) (place : List String)
    (other : Cause) :
    Broken type (.table entries) place other ↔ place = [] ∧ other = cause := by
  rw [broken_table_iff]
  constructor
  · rintro (⟨hrefuses, hplace⟩ | ⟨rfl, hcomponents, -⟩ | ⟨_, _, _, _, hoffers, -⟩)
    · exact ⟨hplace, h.unique hrefuses⟩
    · exact absurd hcomponents h.1
    · exact absurd h hoffers.not_refuses
  · rintro ⟨hplace, rfl⟩
    exact Or.inl ⟨h, hplace⟩

/-- A section of components is broken where one of them is. -/
theorem broken_components_iff (h : VectorSignal.HasComponents entries) (place : List String)
    (cause : Cause) :
    Broken .vector (.table entries) place cause
      ↔ ∃ part ∈ componentParts, BrokenPart entries part place cause := by
  rw [broken_table_iff]
  constructor
  · rintro (⟨hrefuses, -⟩ | ⟨-, -, hbroken⟩ | ⟨_, _, _, _, hoffers, -⟩)
    · exact absurd h hrefuses.1
    · exact hbroken
    · exact absurd h hoffers.1
  · intro hbroken
    exact Or.inr (Or.inl ⟨rfl, h, hbroken⟩)

theorem brokenBody_whole_iff (place : List String) (cause : Cause) :
    BrokenBody type tag .whole value place cause ↔ Broken type value place cause := by
  constructor
  · intro h
    cases h with
    | whole hbroken => exact hbroken
  · exact .whole

theorem brokenBody_notSection_iff (hvalue : ∀ body, value ≠ .table body) (place : List String)
    (cause : Cause) :
    BrokenBody type tag (.parts parts arity?) value place cause
      ↔ place = [] ∧ cause = .notSection tag value.typeName := by
  constructor
  · intro h
    cases h with
    | notSection _ => exact ⟨rfl, rfl⟩
    | part _ _ => exact absurd rfl (hvalue _)
    | count _ _ => exact absurd rfl (hvalue _)
  · rintro ⟨rfl, rfl⟩
    exact .notSection hvalue

theorem brokenBody_parts_iff (place : List String) (cause : Cause) :
    BrokenBody type tag (.parts parts arity?) (.table body) place cause
      ↔ (∃ part ∈ parts body, BrokenPart body part place cause)
        ∨ (∀ part ∈ parts body, part.Fine body)
          ∧ ∃ rule, (arity?.bind fun arity => arity.fault? body.length) = some rule
            ∧ place = [] ∧ cause = .wrongArity tag rule body.length := by
  constructor
  · intro h
    cases h with
    | notSection hvalue => exact absurd rfl (hvalue body)
    | part hpart hbroken => exact Or.inl ⟨_, hpart, hbroken⟩
    | count hparts hcount => exact Or.inr ⟨hparts, _, hcount, rfl, rfl⟩
  · rintro (⟨part, hpart, hbroken⟩ | ⟨hparts, rule, hrule, rfl, rfl⟩)
    · exact .part hpart hbroken
    · cases arity? with
      | none => cases hrule
      | some arity => exact .count hparts hrule

/-! ## Every broken place is reported once -/

section Leaves

variable (hvalue : ∀ entries, value ≠ .table entries)

include hvalue in
theorem reportsOnce_signal_leaf : ReportsOnce (signal.issues value) (Broken .signal value) := by
  have hissues : ∀ path, signal.issues value path
      = if value.number? = none then [issueAt path ([], .notSignal value.typeName)] else [] := by
    intro path
    cases value with
    | table entries => exact absurd rfl (hvalue entries)
    | _ => rfl
  refine reportsOnce_ite [] (.notSignal value.typeName) hissues fun place cause => ?_
  constructor
  · intro h
    cases h with
    | notSignal hnumber _ => exact ⟨hnumber, rfl, rfl⟩
    | refused _ => exact absurd rfl (hvalue _)
    | offered _ _ => exact absurd rfl (hvalue _)
  · rintro ⟨hnumber, rfl, rfl⟩
    exact .notSignal hnumber hvalue

omit [Numeric α] in
theorem issues_ofNumbers (numbers : List α) (path : String) :
    (VectorSignal.ofNumbers numbers path).issues
      = if numbers.length ≠ 3 then [issueAt path ([], .componentCount numbers.length)]
        else [] := by
  match numbers with
  | [] | [_] | [_, _] | [_, _, _] => rfl
  | _ :: _ :: _ :: _ :: _ => simp [VectorSignal.ofNumbers, issueAt]

theorem issues_of_numbers {numbers : List α} (hlist : value.view = .numbers numbers)
    (path : String) :
    vector.issues value path
      = if numbers.length ≠ 3 then [issueAt path ([], .componentCount numbers.length)]
        else [] := by
  have hread : VectorSignal.ofValue value path = VectorSignal.ofNumbers numbers path := by
    cases value with
    | table entries => cases hlist
    | _ => simp only [VectorSignal.ofValue, hlist]
  rw [issues, hread, issues_ofNumbers]

include hvalue in
theorem issues_of_other (hother : ∀ numbers, value.view ≠ .numbers numbers) (path : String) :
    vector.issues value path = [issueAt path ([], .notVector value.typeName)] := by
  have hread : VectorSignal.ofValue value path = .fail (.notVector value.typeName) path := by
    cases value with
    | table entries => exact absurd rfl (hvalue entries)
    | list items => simp only [VectorSignal.ofValue, Value.typeName]
    | _ => rfl
  rw [issues, hread]
  rfl

include hvalue in
theorem reportsOnce_vector_leaf : ReportsOnce (vector.issues value) (Broken .vector value) := by
  by_cases hlist : ∃ numbers, value.view = .numbers numbers
  · obtain ⟨numbers, hnumbers⟩ := hlist
    refine reportsOnce_ite [] (.componentCount numbers.length) (issues_of_numbers hnumbers)
      fun place cause => ?_
    constructor
    · intro h
      cases h with
      | notVector hother _ => exact absurd hnumbers (hother numbers)
      | componentCount hfound hcount =>
        cases hnumbers.symm.trans hfound
        exact ⟨hcount, rfl, rfl⟩
      | refused _ => exact absurd rfl (hvalue _)
      | component _ _ _ => exact absurd rfl (hvalue _)
      | offered _ _ => exact absurd rfl (hvalue _)
    · rintro ⟨hcount, rfl, rfl⟩
      exact .componentCount hnumbers hcount
  · have hother : ∀ numbers, value.view ≠ .numbers numbers := not_exists.1 hlist
    refine reportsOnce_single [] (.notVector value.typeName) (issues_of_other hvalue hother)
      fun place cause => ?_
    constructor
    · intro h
      cases h with
      | notVector _ _ => exact ⟨rfl, rfl⟩
      | componentCount hfound _ => exact absurd hfound (hother _)
      | refused _ => exact absurd rfl (hvalue _)
      | component _ _ _ => exact absurd rfl (hvalue _)
      | offered _ _ => exact absurd rfl (hvalue _)
    · rintro ⟨rfl, rfl⟩
      exact .notVector hother hvalue

end Leaves

/-- The parts of a section and their number are reported once. -/
theorem reportsOnce_nodeIssues [Numeric.Lawful α]
    (hparts : ReportsOnce (partIssues (parts body) body)
      fun place cause => ∃ part ∈ parts body, BrokenPart body part place cause) :
    ReportsOnce (nodeIssues (parts body) arity? tag body)
      (BrokenBody type tag (.parts parts arity?) (.table body)) := by
  have hnone : ∀ path, partIssues (parts body) body path = []
      ↔ ∀ part ∈ parts body, part.Fine body := by
    intro path
    simp only [partIssues, List.flatMap_eq_nil_iff, Part.issues_eq_nil_iff]
  by_cases hfine : ∀ part ∈ parts body, part.Fine body
  · have hclean := (hparts.issues_eq_nil_iff "").1 ((hnone "").2 hfine)
    have hissues : ∀ path, nodeIssues (parts body) arity? tag body path
        = countIssues arity? tag body.length path := by
      intro path
      rw [nodeIssues, (hnone path).2 hfine, if_pos rfl, List.nil_append]
    cases hrule : arity?.bind fun arity => arity.fault? body.length with
    | none =>
      refine reportsOnce_nothing (fun path => ?_) fun place cause h => ?_
      · rw [hissues, countIssues, hrule]
      · rcases (brokenBody_parts_iff place cause).1 h with hpart | ⟨-, rule, hfound, -⟩
        · exact hclean place cause hpart
        · cases hrule.symm.trans hfound
    | some rule =>
      refine reportsOnce_single [] (.wrongArity tag rule body.length) (fun path => ?_)
        fun place cause => ?_
      · rw [hissues, countIssues, hrule]
        rfl
      · rw [brokenBody_parts_iff, hrule]
        constructor
        · rintro (hpart | ⟨-, found, hfound, rfl, rfl⟩)
          · exact absurd hpart (hclean place cause)
          · cases hfound
            exact ⟨rfl, rfl⟩
        · rintro ⟨rfl, rfl⟩
          exact Or.inr ⟨hfine, rule, rfl, rfl, rfl⟩
  · -- Some part has an issue, and the number of the parts does not matter.
    refine hparts.congr (fun path => ?_) fun place cause => ?_
    · rw [nodeIssues, if_neg fun h => hfine ((hnone path).1 h), List.append_nil]
    · rw [brokenBody_parts_iff, or_iff_left fun h => hfine h.1]

/-- Every place where a value is broken is reported by one issue, and nothing else is. -/
theorem reportsOnce [Numeric.Lawful α] {value : Value α} (h : value.Proper) (type : FieldType) :
    ReportsOnce (type.issues value) (Broken type value) := by
  induction value using Value.tableInduction generalizing type with
  | leaf value hleaf =>
    cases type with
    | signal => exact reportsOnce_signal_leaf hleaf
    | vector => exact reportsOnce_vector_leaf hleaf
  | table entries ih ihParts =>
    have hproper := h.entries
    rcases components_or_offers_or_refuses type entries with
      ⟨rfl, hcomponents⟩ | ⟨tag, form, value, hoffers⟩ | ⟨cause, hrefuses⟩
    · refine (Part.reportsOnce_all nodup_componentKeys fun part _ type value _ hvalue => ?_).congr
        (issues_of_components hcomponents) (broken_components_iff hcomponents)
      have hmem := Entries.mem_of_get? hvalue
      exact ih _ hmem (hproper _ hmem) type
    · have hmem := hoffers.mem
      have hbroken := hoffers.broken_iff
      cases form with
      | whole =>
        refine ((ih _ hmem (hproper _ hmem) type).under tag).congr (issues_of_whole hoffers)
          fun place cause => ?_
        simp only [hbroken, brokenBody_whole_iff]
      | parts parts arity? =>
        by_cases hsection : ∃ body, value = .table body
        · obtain ⟨body, rfl⟩ := hsection
          have hbody := hproper _ hmem
          have hparts : ReportsOnce (partIssues (parts body) body)
              fun place cause => ∃ part ∈ parts body, BrokenPart body part place cause := by
            refine Part.reportsOnce_all (hoffers.nodup_keys hbody.distinct)
              fun part _ type value _ hvalue => ?_
            have hpart := Entries.mem_of_get? hvalue
            exact ihParts _ hmem body rfl _ hpart (hbody.entries _ hpart) type
          exact ((reportsOnce_nodeIssues hparts).under tag).congr
            (issues_of_parts hoffers hbody.distinct) hbroken
        · have hother : ∀ body, value ≠ .table body := not_exists.1 hsection
          refine reportsOnce_single [tag] (.notSection tag value.typeName)
            (issues_of_notSection hoffers hother) fun place cause => ?_
          rw [hbroken]
          simp only [brokenBody_notSection_iff hother]
          constructor
          · rintro ⟨rest, rfl, rfl, rfl⟩
            exact ⟨rfl, rfl⟩
          · rintro ⟨rfl, rfl⟩
            exact ⟨[], rfl, rfl, rfl⟩
    · exact reportsOnce_single [] cause (issues_of_refusal hrefuses) hrefuses.broken_iff

/-- The issues of a section that is read by its parts are the issues that the parts have by
    themselves, in the order in which they are read. The section adds an issue for their number only
    if none of them has any; it has an issue of its own, and no other, if it does not choose a
    provider or chooses one and has no section for it. Whatever is wrong in it, at any depth, is
    reported by one issue for each place. -/
theorem broken_parts_reported {entries : Section Float} (hproper : (Value.table entries).Proper)
    (type : FieldType) (path : String) :
    ((type = vector ∧ VectorSignal.HasComponents entries)
        ∨ (∃ tag form value, type.Offers entries tag form value)
        ∨ ∃ cause, type.Refuses entries cause)
      ∧ (∀ tag parts arity? body, type.Offers entries tag (.parts parts arity?) (.table body) →
          type.issues (.table entries) path
            = partIssues (parts body) body (joinPath path tag)
              ++ if partIssues (parts body) body (joinPath path tag) = []
                then countIssues arity? tag body.length (joinPath path tag) else [])
      ∧ (VectorSignal.HasComponents entries →
          vector.issues (.table entries) path = partIssues componentParts entries path)
      ∧ (∀ tag parts arity? value, type.Offers entries tag (.parts parts arity?) value →
          (∀ body, value ≠ .table body) →
          type.issues (.table entries) path
            = [Fault.issue ⟨.notSection tag value.typeName, joinPath path tag⟩])
      ∧ (∀ cause, type.Refuses entries cause →
          type.issues (.table entries) path = [Fault.issue ⟨cause, path⟩])
      ∧ ReportsOnce (type.issues (.table entries)) (Broken type (.table entries)) := by
  refine ⟨components_or_offers_or_refuses type entries, fun tag parts arity? body hoffers => ?_,
    fun hcomponents => issues_of_components hcomponents path,
    fun tag parts arity? value hoffers hvalue => issues_of_notSection hoffers hvalue path,
    fun cause hrefuses => issues_of_refusal hrefuses path, reportsOnce hproper type⟩
  have hbody : (Value.table body).Proper := hproper.entries _ hoffers.mem
  exact issues_of_parts hoffers hbody.distinct path

/-- A text with a bound that is no signal, one that is broken in three places, and no value to keep
    between them. -/
def tangledText : String :=
  "[clamp]\nmin = 'low'\n[clamp.max.cycle]\nstart = 0\ninitialProgress = true\n"

/-- The parts of the section in the text. -/
def tangledBody : Section Float :=
  [("min", .text "low"),
    ("max", .table [("cycle", .table [("start", .integer 0), ("initialProgress", .boolean true)])])]

/-- A text with a component that is no signal, and one for which there are two providers. -/
def raggedText : String :=
  "x = []\n[z]\nabs = 1\nrandom = 2\n"

/-- The section in the text. -/
def ragged : Section Float :=
  [("x", .list []), ("z", .table [("abs", .integer 1), ("random", .integer 2)])]

theorem parse_tangledText : Toml.parse tangledText = some [("clamp", .table tangledBody)] := by
  decide +kernel

theorem parse_raggedText : Toml.parse raggedText = some ragged := by
  decide +kernel

theorem tangled_parts_reported :
    ((Value.table [("clamp", .table tangledBody)]).Proper
        ∧ signal.Offers [("clamp", .table tangledBody)] "clamp" SignalKind.clamp.form
          (.table tangledBody)
        ∧ (Value.table ragged).Proper ∧ VectorSignal.HasComponents ragged)
      ∧ signal.issues (.table [("clamp", .table tangledBody)]) "speed"
        = [⟨"speed/clamp/min", "Expected a number or a provider section, found string"⟩,
          ⟨"speed/clamp/max/cycle/end", "Missing required key: end"⟩,
          ⟨"speed/clamp/max/cycle/period", "Missing required key: period"⟩,
          ⟨"speed/clamp/max/cycle/initialProgress",
            "initialProgress must be a number, found boolean"⟩,
          ⟨"speed/clamp/value", "Missing required key: value"⟩]
      ∧ vector.issues (.table ragged) "offset"
        = [⟨"offset/x", "Expected a number or a provider section, found list"⟩,
          ⟨"offset/z", "Too many sections; choose a single provider"⟩]
      ∧ ReportsOnce (signal.issues (.table [("clamp", .table tangledBody)]))
        (Broken .signal (.table [("clamp", .table tangledBody)])) := by
  have hproper := Toml.proper_parse parse_tangledText
  have hragged := Toml.proper_parse parse_raggedText
  have hoffers : signal.Offers [("clamp", .table tangledBody)] "clamp" SignalKind.clamp.form
      (.table tangledBody) :=
    ⟨.clamp, (chooseTag_eq_ok_iff Signal.ofTag?_eq_some_iff).1 rfl, rfl⟩
  have hcomponents : VectorSignal.HasComponents ragged :=
    (VectorSignal.isComponentSection_iff ragged).1 (by decide +kernel)
  obtain ⟨-, hparts, -, -, -, honce⟩ := broken_parts_reported hproper signal "speed"
  obtain ⟨-, -, hcomponentIssues, -⟩ := broken_parts_reported hragged vector "offset"
  refine ⟨⟨hproper, hoffers, hragged, hcomponents⟩, ?_, ?_, honce⟩
  · rw [hparts _ _ _ _ hoffers]
    decide +kernel
  · rw [hcomponentIssues hcomponents]
    decide +kernel

end FieldType

end Modulation

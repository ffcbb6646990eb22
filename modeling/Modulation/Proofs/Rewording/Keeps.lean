import Modulation.Proofs.Rewording.Edit

set_option autoImplicit false

/-! # What is read of a value

`Use.Keeps` says of two values that whatever is read of the first one is read of the second one too.
For a section that is read as a field this follows if the other section chooses the same kind and
keeps what is read under the tag (`Signal.Describes.follow`), or if it holds the same components
(`VectorSignal.Describes.follow`). -/

namespace Modulation

open Modulation.Config

variable {α κ : Type} [Numeric α]

/-! ## Values that are read as the same -/

/-- Whatever field the first value is written for, the second one is written for too. -/
def FieldType.Keeps (type : FieldType) (value other : Value α) : Prop :=
  match type with
  | signal => ∀ field, Signal.Describes value field → Signal.Describes other field
  | vector => ∀ field, VectorSignal.Describes value field → VectorSignal.Describes other field

/-- The second value keeps what is read of the first one as a part. -/
def Part.Keeps (part : Part α) (value other : Value α) : Prop :=
  match part with
  | vector _ => FieldType.vector.Keeps value other
  | signal _ _ => FieldType.signal.Keeps value other
  | number _ => ∀ x, value.number? = some x → other.number? = some x

/-- Two sections have the same parts, and the second one keeps what is read of each. -/
def KeepsParts (parts : List (Part α)) (entries others : Section α) : Prop :=
  ∀ part ∈ parts, Option.Rel part.Keeps (entries.get? part.key) (others.get? part.key)

/-- The second value keeps what is read of the first one. -/
def Use.Keeps (use : Use α) (value other : Value α) : Prop :=
  match use with
  | field type => type.Keeps value other
  | number => ∀ x, value.number? = some x → other.number? = some x
  | arguments type => ∀ body, value = .table body → ∃ changed, other = .table changed
      ∧ List.Forall₂ (fun entry entry' => type.Keeps entry.2 entry'.2) body changed
  | parts named => ∀ body, value = .table body → ∃ changed, other = .table changed
      ∧ KeepsParts named body changed
  | nothing => True

theorem FieldType.Keeps.refl (type : FieldType) (value : Value α) : type.Keeps value value := by
  cases type <;> exact fun _ h => h

theorem Part.keeps_iff (part : Part α) (value other : Value α) :
    part.Keeps value other ↔ part.use.Keeps value other := by
  cases part <;> rfl

theorem Part.Keeps.refl (part : Part α) (value : Value α) : part.Keeps value value := by
  cases part with
  | vector key => exact FieldType.Keeps.refl .vector value
  | signal key default => exact FieldType.Keeps.refl .signal value
  | number key => exact fun _ h => h

theorem Part.Keeps.rel_self (part : Part α) (value? : Option (Value α)) :
    Option.Rel part.Keeps value? value? := by
  cases value? with
  | none => exact .none
  | some value => exact .some (refl part value)

/-- Sections with the same values under the keys of the parts keep each other's parts. -/
theorem KeepsParts.of_get?_eq {parts : List (Part α)} {entries others : Section α}
    (h : ∀ part ∈ parts, others.get? part.key = entries.get? part.key) :
    KeepsParts parts entries others := by
  intro part hpart
  rw [h part hpart]
  exact Part.Keeps.rel_self part _

/-- A value that is replaced matters to the parts under its key alone. -/
theorem KeepsParts.replace {parts : List (Part α)} {earlier later : Section α} {key : String}
    {value other : Value α} (h : ∀ part ∈ parts, part.key = key → part.Keeps value other) :
    KeepsParts parts (earlier ++ (key, value) :: later) (earlier ++ (key, other) :: later) := by
  intro part hpart
  simp only [Entries.get?_append, Entries.get?_cons]
  cases earlier.get? part.key with
  | some held => exact .some (Part.Keeps.refl part held)
  | none =>
    by_cases hkey : key = part.key
    · simp only [if_pos hkey, Option.none_or]
      exact .some (h part hpart hkey.symm)
    · simp only [if_neg hkey, Option.none_or]
      exact Part.Keeps.rel_self part _

theorem Use.Keeps.refl (use : Use α) (value : Value α) : use.Keeps value value := by
  cases use with
  | field type => exact FieldType.Keeps.refl type value
  | number => exact fun _ h => h
  | arguments type =>
    exact fun body hbody => ⟨body, hbody, List.forall₂_same.2 fun _ _ => .refl type _⟩
  | parts named => exact fun body hbody => ⟨body, hbody, .of_get?_eq fun _ _ => rfl⟩
  | nothing => trivial

/-! ## The parts of sections -/

section Parts

variable {parts : List (Part α)} {entries others : Section α}

theorem KeepsParts.signal (h : KeepsParts parts entries others) {key : String}
    (hpart : .signal key none ∈ parts) {field : Signal α}
    (hfield : PartAt Signal.Describes entries key field) :
    PartAt Signal.Describes others key field :=
  hfield.of_rel (h _ hpart) fun _ _ hkeeps => hkeeps field

theorem KeepsParts.vector (h : KeepsParts parts entries others) {key : String}
    (hpart : .vector key ∈ parts) {field : VectorSignal α}
    (hfield : PartAt VectorSignal.Describes entries key field) :
    PartAt VectorSignal.Describes others key field :=
  hfield.of_rel (h _ hpart) fun _ _ hkeeps => hkeeps field

theorem KeepsParts.signalAt (h : KeepsParts parts entries others) {key : String}
    {default : Option α} (hpart : .signal key default ∈ parts) {field : Signal α}
    (hfield : Signal.DescribesAt entries key default field) :
    Signal.DescribesAt others key default field :=
  AtKey.of_rel hfield (h _ hpart) fun _ _ hkeeps => hkeeps field

theorem KeepsParts.vectorAt (h : KeepsParts parts entries others) {key : String}
    (hpart : .vector key ∈ parts) {default : Option (Vec3 α)} {field : VectorSignal α}
    (hfield : VectorSignal.DescribesAt entries key default field) :
    VectorSignal.DescribesAt others key default field :=
  AtKey.of_rel hfield (h _ hpart) fun _ _ hkeeps => hkeeps field

theorem KeepsParts.number? (h : KeepsParts parts entries others) {key : String}
    (hpart : .number key ∈ parts) (hnumber : OptionalNumber entries key) :
    OptionalNumber others key ∧ Section.number? others key = Section.number? entries key := by
  have hrel : Option.Rel (Part.number key).Keeps (entries.get? key) (others.get? key) := h _ hpart
  unfold OptionalNumber AtKey at hnumber ⊢
  unfold Section.number?
  revert hnumber
  generalize entries.get? key = value?, others.get? key = other? at hrel ⊢
  cases hrel with
  | none => exact fun _ => ⟨trivial, rfl⟩
  | @some value other hkeeps =>
    intro hnumber
    obtain ⟨x, hx⟩ := Option.isSome_iff_exists.1 hnumber
    simp [hx, hkeeps x hx]

end Parts

/-! ## Sections that are read as fields -/

/-- The second section chooses what the first one chooses, and it keeps what is read of the value
    under the tag. -/
def FollowsTag (tagOf : κ → String) (use : κ → Use α) (entries others : Section α) : Prop :=
  ∀ kind tag value, Chooses tagOf entries kind tag value →
    ∃ tag' value', Chooses tagOf others kind tag' value' ∧ (use kind).Keeps value value'

namespace Signal

theorem Describes.follow {entries others : Section α} {field : Signal α}
    (h : Describes (.table entries) field)
    (hfollows : FollowsTag SignalKind.tag (fun kind => kind.form.use .signal) entries others) :
    Describes (.table others) field := by
  cases h with
  | number hnumber => cases hnumber
  | abs htag hinner =>
    obtain ⟨tag', value', htag', hkeeps⟩ := hfollows _ _ _ htag
    exact .abs htag' (hkeeps _ hinner)
  | combine htag hlength hparts hbuilt =>
    obtain ⟨tag', value', htag', hkeeps⟩ := hfollows _ _ _ htag
    obtain ⟨body', rfl, harguments⟩ := hkeeps _ rfl
    have hdescribed := forall₂_of_forall₂ (fun _ _ field hkept => hkept field) harguments
      (List.forall₂_iff_zip.2 ⟨hlength, hparts⟩)
    obtain ⟨hlength', hparts'⟩ := List.forall₂_iff_zip.1 hdescribed
    exact .combine htag' hlength' hparts' hbuilt
  | clamp htag hlowKey hlow hhighKey hhigh hinnerKey hinner =>
    obtain ⟨tag', value', htag', hkeeps⟩ := hfollows _ _ _ htag
    obtain ⟨body', rfl, hparts⟩ := hkeeps _ rfl
    obtain ⟨_, hlowKey', hlow'⟩ := hparts.signal (by simp) ⟨_, hlowKey, hlow⟩
    obtain ⟨_, hhighKey', hhigh'⟩ := hparts.signal (by simp) ⟨_, hhighKey, hhigh⟩
    obtain ⟨_, hinnerKey', hinner'⟩ := hparts.signal (by simp) ⟨_, hinnerKey, hinner⟩
    exact .clamp htag' hlowKey' hlow' hhighKey' hhigh' hinnerKey' hinner'
  | wave htag hlowKey hlow hhighKey hhigh hperiodKey hperiod hinitial =>
    obtain ⟨tag', value', htag', hkeeps⟩ := hfollows _ _ _ htag
    obtain ⟨body', rfl, hparts⟩ := hkeeps _ rfl
    obtain ⟨_, hlowKey', hlow'⟩ := hparts.signal (by simp) ⟨_, hlowKey, hlow⟩
    obtain ⟨_, hhighKey', hhigh'⟩ := hparts.signal (by simp) ⟨_, hhighKey, hhigh⟩
    obtain ⟨_, hperiodKey', hperiod'⟩ := hparts.signal (by simp) ⟨_, hperiodKey, hperiod⟩
    obtain ⟨hinitial', hnumber⟩ := hparts.number? (by simp) hinitial
    rw [Section.numberD, ← hnumber]
    exact .wave htag' hlowKey' hlow' hhighKey' hhigh' hperiodKey' hperiod' hinitial'
  | random htag hlowKey hlow hhighKey hhigh hlast =>
    obtain ⟨tag', value', htag', hkeeps⟩ := hfollows _ _ _ htag
    obtain ⟨body', rfl, hparts⟩ := hkeeps _ rfl
    obtain ⟨_, hlowKey', hlow'⟩ := hparts.signal (by simp) ⟨_, hlowKey, hlow⟩
    obtain ⟨_, hhighKey', hhigh'⟩ := hparts.signal (by simp) ⟨_, hhighKey, hhigh⟩
    obtain ⟨hlast', hnumber⟩ := hparts.number? (by simp) hlast
    rw [← hnumber]
    exact .random htag' hlowKey' hlow' hhighKey' hhigh' hlast'

end Signal

namespace VectorSignal

theorem Describes.follow {entries others : Section α} {field : VectorSignal α}
    (h : Describes (.table entries) field)
    (hfollows : FollowsTag VectorKind.tag (fun kind => kind.form.use .vector) entries others)
    (hcomponents : HasComponents entries →
      HasComponents others ∧ KeepsParts componentParts entries others) :
    Describes (.table others) field := by
  cases h with
  | untagged hkeys hx hy hz =>
    obtain ⟨hkeys', hparts⟩ := hcomponents hkeys
    exact .untagged hkeys' (hparts.signalAt (by simp [componentParts]) hx)
      (hparts.signalAt (by simp [componentParts]) hy)
      (hparts.signalAt (by simp [componentParts]) hz)
  | normalize hother htag hinner =>
    obtain ⟨tag', value', htag', hkeeps⟩ := hfollows _ _ _ htag
    exact .normalize (not_hasComponents_of_chooses htag') htag' (hkeeps _ hinner)
  | combine hother htag hlength hparts hbuilt =>
    obtain ⟨tag', value', htag', hkeeps⟩ := hfollows _ _ _ htag
    obtain ⟨body', rfl, harguments⟩ := hkeeps _ rfl
    have hdescribed := forall₂_of_forall₂ (fun _ _ field hkept => hkept field) harguments
      (List.forall₂_iff_zip.2 ⟨hlength, hparts⟩)
    obtain ⟨hlength', hparts'⟩ := List.forall₂_iff_zip.1 hdescribed
    exact .combine (not_hasComponents_of_chooses htag') htag' hlength' hparts' hbuilt
  | scale hother htag hvectorKey hvector hfactor =>
    obtain ⟨tag', value', htag', hkeeps⟩ := hfollows _ _ _ htag
    obtain ⟨body', rfl, hparts⟩ := hkeeps _ rfl
    obtain ⟨_, hvectorKey', hvector'⟩ := hparts.vector (by simp) ⟨_, hvectorKey, hvector⟩
    exact .scale (not_hasComponents_of_chooses htag') htag' hvectorKey' hvector'
      (hparts.signalAt (by simp) hfactor)
  | rotate hother htag haboutKey habout hperiod hradius hinitial =>
    obtain ⟨tag', value', htag', hkeeps⟩ := hfollows _ _ _ htag
    obtain ⟨body', rfl, hparts⟩ := hkeeps _ rfl
    obtain ⟨_, haboutKey', habout'⟩ := hparts.vector (by simp) ⟨_, haboutKey, habout⟩
    obtain ⟨hinitial', hnumber⟩ := hparts.number? (by simp) hinitial
    rw [Section.numberD, ← hnumber]
    exact .rotate (not_hasComponents_of_chooses htag') htag' haboutKey' habout'
      (hparts.signalAt (by simp) hperiod) (hparts.signalAt (by simp) hradius) hinitial'
  | components hother htag hx hy hz =>
    obtain ⟨tag', value', htag', hkeeps⟩ := hfollows _ _ _ htag
    obtain ⟨body', rfl, hparts⟩ := hkeeps _ rfl
    exact .components (not_hasComponents_of_chooses htag') htag'
      (hparts.signalAt (by simp [componentParts]) hx)
      (hparts.signalAt (by simp [componentParts]) hy)
      (hparts.signalAt (by simp [componentParts]) hz)

end VectorSignal

end Modulation

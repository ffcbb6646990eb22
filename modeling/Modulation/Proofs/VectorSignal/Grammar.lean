import Modulation.Proofs.Signal.Grammar
import Modulation.Proofs.VectorSignal.Agreement

set_option autoImplicit false

/-! # The grammar of vector signals

A vector signal is written in three ways: as a list of three numbers, as a section with no keys but
those of components, or as another section that chooses a kind by its tag. As for signals, `IsField`
says which values are written vector signals and `Describes` which vector signal such a value is
written for, and the reader takes exactly these values and makes exactly these vector signals
(`read_vector_iff`).

A section with only the keys of components is a constant when all of its components are; under the
tag of components it never is. -/

namespace Modulation

open Modulation.Config

/-- How many arguments an operator is written with: two, or two and more. -/
def VectorOperator.Takes (op : VectorOperator) (count : Nat) : Prop :=
  match op with
  | .add | .mul => 2 ≤ count
  | .sub | .cross => count = 2

theorem VectorOperator.admits_iff (op : VectorOperator) (count : Nat) :
    op.arity.Admits count ↔ op.Takes count := by
  cases op <;> simp [VectorOperator.arity, Arity.Admits, VectorOperator.Takes] <;> omega

namespace VectorSignal

variable {α : Type}

/-- A section has keys, and no others than those of components. -/
def HasComponents (entries : Section α) : Prop :=
  entries ≠ [] ∧ ∀ entry ∈ entries, entry.1 = "x" ∨ entry.1 = "y" ∨ entry.1 = "z"

theorem isComponentSection_iff (entries : Section α) :
    isComponentSection entries = true ↔ HasComponents entries := by
  simp [isComponentSection, HasComponents, Entries.keys, or_assoc]

theorem HasComponents.perm {entries others : Section α} (h : HasComponents entries)
    (hperm : entries.Perm others) : HasComponents others := by
  obtain ⟨hsome, hkeys⟩ := h
  refine ⟨?_, fun entry hentry => hkeys entry (hperm.mem_iff.2 hentry)⟩
  rintro rfl
  exact hsome hperm.eq_nil

/-- A section still holds components if what stands under one of its keys is replaced. -/
theorem HasComponents.replace {earlier later : Section α} {key : String} {value : Value α}
    (h : HasComponents (earlier ++ (key, value) :: later)) (other : Value α) :
    HasComponents (earlier ++ (key, other) :: later) := by
  simpa [HasComponents, or_imp, forall_and] using h

/-- No tag is the key of a component. -/
theorem not_component_of_tag {kind : VectorKind} {key : String}
    (hkey : sameTag kind.tag key = true) : ¬ (key = "x" ∨ key = "y" ∨ key = "z") := by
  have hcomponents : sameTag kind.tag "x" = false ∧ sameTag kind.tag "y" = false
      ∧ sameTag kind.tag "z" = false := by
    rcases kind with op | _ | _ | _ | _
    · cases op <;> decide
    all_goals decide
  rintro (rfl | rfl | rfl)
  all_goals simp_all

/-- A section that chooses a kind does not hold components, because no tag is the key of one. -/
theorem not_hasComponents_of_chooses {entries : Section α} {kind : VectorKind} {tag : String}
    {value : Value α} (h : Chooses VectorKind.tag entries kind tag value) :
    ¬ HasComponents entries :=
  fun hcomponents => not_component_of_tag h.1 (hcomponents.2 (tag, value) h.mem)

variable [Numeric α]

/-- A value is a written vector signal. -/
inductive IsField : Value α → Prop where
  | numbers {items : List (Value α)} (hcount : items.length = 3)
      (hitems : ∀ item ∈ items, item.number?.isSome = true) : IsField (.list items)
  | untagged {entries : Section α} (hkeys : HasComponents entries)
      (hparts : ∀ key ∈ ["x", "y", "z"], Signal.FieldAt entries key (some 0.0)) :
      IsField (.table entries)
  | normalize {entries : Section α} {tag : String} {value : Value α}
      (hother : ¬ HasComponents entries)
      (htag : Chooses VectorKind.tag entries .normalize tag value) (hinner : IsField value) :
      IsField (.table entries)
  | combine {entries body : Section α} {op : VectorOperator} {tag : String}
      (hother : ¬ HasComponents entries)
      (htag : Chooses VectorKind.tag entries (.combine op) tag (.table body))
      (hcount : op.Takes body.length) (hparts : ∀ part ∈ body, IsField part.2) :
      IsField (.table entries)
  | scale {entries body : Section α} {tag : String} {value : Value α}
      (hother : ¬ HasComponents entries)
      (htag : Chooses VectorKind.tag entries .scale tag (.table body))
      (hvectorKey : body.get? "vector" = some value) (hvector : IsField value)
      (hfactor : Signal.FieldAt body "factor" none) : IsField (.table entries)
  | rotate {entries body : Section α} {tag : String} {value : Value α}
      (hother : ¬ HasComponents entries)
      (htag : Chooses VectorKind.tag entries .rotate tag (.table body))
      (haboutKey : body.get? "about" = some value) (habout : IsField value)
      (hperiod : Signal.FieldAt body "period" none)
      (hradius : Signal.FieldAt body "radius" (some 1.0))
      (hinitial : OptionalNumber body "initialProgress") : IsField (.table entries)
  | components {entries body : Section α} {tag : String} (hother : ¬ HasComponents entries)
      (htag : Chooses VectorKind.tag entries .components tag (.table body))
      (hparts : ∀ key ∈ ["x", "y", "z"], Signal.FieldAt body key (some 0.0)) :
      IsField (.table entries)

/-- A value is written for a vector signal. -/
inductive Describes : Value α → VectorSignal α → Prop where
  | numbers {items : List (Value α)} {x y z : α}
      (hitems : items.map Value.number? = [some x, some y, some z]) :
      Describes (.list items) (constant ⟨x, y, z⟩)
  | untagged {entries : Section α} {x y z : Signal α} (hkeys : HasComponents entries)
      (hx : Signal.DescribesAt entries "x" (some 0.0) x)
      (hy : Signal.DescribesAt entries "y" (some 0.0) y)
      (hz : Signal.DescribesAt entries "z" (some 0.0) z) :
      Describes (.table entries)
        (if x.isConstant && y.isConstant && z.isConstant then
            constant ⟨x.value, y.value, z.value⟩
          else components x y z)
  | normalize {entries : Section α} {tag : String} {value : Value α} {inner : VectorSignal α}
      (hother : ¬ HasComponents entries)
      (htag : Chooses VectorKind.tag entries .normalize tag value)
      (hinner : Describes value inner) : Describes (.table entries) (normalize inner)
  | combine {entries body : Section α} {op : VectorOperator} {tag : String}
      {arguments : List (VectorSignal α)} {signal : VectorSignal α}
      (hother : ¬ HasComponents entries)
      (htag : Chooses VectorKind.tag entries (.combine op) tag (.table body))
      (hlength : body.length = arguments.length)
      (hparts : ∀ {part argument}, (part, argument) ∈ body.zip arguments →
        Describes part.2 argument)
      (hbuilt : combine? op arguments = .ok signal) : Describes (.table entries) signal
  | scale {entries body : Section α} {tag : String} {value : Value α} {vector : VectorSignal α}
      {factor : Signal α} (hother : ¬ HasComponents entries)
      (htag : Chooses VectorKind.tag entries .scale tag (.table body))
      (hvectorKey : body.get? "vector" = some value) (hvector : Describes value vector)
      (hfactor : Signal.DescribesAt body "factor" none factor) :
      Describes (.table entries) (scale vector factor)
  | rotate {entries body : Section α} {tag : String} {value : Value α} {about : VectorSignal α}
      {period radius : Signal α} (hother : ¬ HasComponents entries)
      (htag : Chooses VectorKind.tag entries .rotate tag (.table body))
      (haboutKey : body.get? "about" = some value) (habout : Describes value about)
      (hperiod : Signal.DescribesAt body "period" none period)
      (hradius : Signal.DescribesAt body "radius" (some 1.0) radius)
      (hinitial : OptionalNumber body "initialProgress") :
      Describes (.table entries)
        (rotate about period radius (Section.numberD body "initialProgress" 0.0))
  | components {entries body : Section α} {tag : String} {x y z : Signal α}
      (hother : ¬ HasComponents entries)
      (htag : Chooses VectorKind.tag entries .components tag (.table body))
      (hx : Signal.DescribesAt body "x" (some 0.0) x)
      (hy : Signal.DescribesAt body "y" (some 0.0) y)
      (hz : Signal.DescribesAt body "z" (some 0.0) z) :
      Describes (.table entries) (components x y z)

/-- A key holds a written vector signal, or it is absent and there is a default. -/
def FieldAt (entries : Section α) (key : String) (default : Option (Vec3 α)) : Prop :=
  AtKey entries key IsField (default.isSome = true)

/-- A key holds a value that is written for a vector signal, or it is absent and the vector signal
    is the default. -/
def DescribesAt (entries : Section α) (key : String) (default : Option (Vec3 α))
    (signal : VectorSignal α) : Prop :=
  AtKey entries key (fun value => Describes value signal)
    (∃ v, default = some v ∧ signal = constant v)

/-! ## Written vector signals are those that describe a vector signal -/

theorem IsField.exists_describes {value : Value α} (h : IsField value) :
    ∃ signal, Describes value signal := by
  have hscalar := fun entries key default =>
    (Signal.fieldAt_iff_exists_describesAt (α := α) entries key default).1
  induction h with
  | @numbers items hcount hitems =>
    obtain ⟨a, b, c, rfl⟩ := List.length_eq_three.1 hcount
    simp only [List.forall_mem_cons, Option.isSome_iff_exists] at hitems
    obtain ⟨⟨x, hx⟩, ⟨y, hy⟩, ⟨z, hz⟩, -⟩ := hitems
    have hnumbers : [a, b, c].map Value.number? = [some x, some y, some z] := by
      simp [hx, hy, hz]
    exact ⟨_, .numbers hnumbers⟩
  | untagged hkeys hparts =>
    obtain ⟨x, hx⟩ := hscalar _ _ _ (hparts "x" (by simp))
    obtain ⟨y, hy⟩ := hscalar _ _ _ (hparts "y" (by simp))
    obtain ⟨z, hz⟩ := hscalar _ _ _ (hparts "z" (by simp))
    exact ⟨_, .untagged hkeys hx hy hz⟩
  | normalize hother htag _ ih =>
    obtain ⟨inner, hinner⟩ := ih
    exact ⟨_, .normalize hother htag hinner⟩
  | @combine entries body op tag hother htag hcount _ ih =>
    obtain ⟨arguments, harguments⟩ := exists_forall₂ ih
    obtain ⟨hlength, hparts⟩ := List.forall₂_iff_zip.1 harguments
    have hadmits : op.arity.Admits arguments.length := by
      rw [op.admits_iff, ← hlength]
      exact hcount
    exact ⟨_, .combine hother htag hlength hparts (combine?_eq_ok_iff.2 ⟨hadmits, rfl⟩)⟩
  | scale hother htag hvectorKey _ hfactor ih =>
    obtain ⟨vector, hvector⟩ := ih
    obtain ⟨factor, hfactor⟩ := hscalar _ _ _ hfactor
    exact ⟨_, .scale hother htag hvectorKey hvector hfactor⟩
  | rotate hother htag haboutKey _ hperiod hradius hinitial ih =>
    obtain ⟨about, habout⟩ := ih
    obtain ⟨period, hperiod⟩ := hscalar _ _ _ hperiod
    obtain ⟨radius, hradius⟩ := hscalar _ _ _ hradius
    exact ⟨_, .rotate hother htag haboutKey habout hperiod hradius hinitial⟩
  | components hother htag hparts =>
    obtain ⟨x, hx⟩ := hscalar _ _ _ (hparts "x" (by simp))
    obtain ⟨y, hy⟩ := hscalar _ _ _ (hparts "y" (by simp))
    obtain ⟨z, hz⟩ := hscalar _ _ _ (hparts "z" (by simp))
    exact ⟨_, .components hother htag hx hy hz⟩

theorem Describes.isField {value : Value α} {signal : VectorSignal α} (h : Describes value signal) :
    IsField value := by
  have hscalar : ∀ {entries : Section α} {key default signal},
      Signal.DescribesAt entries key default signal → Signal.FieldAt entries key default :=
    fun h => (Signal.fieldAt_iff_exists_describesAt _ _ _).2 ⟨_, h⟩
  induction h with
  | @numbers items x y z hitems =>
    refine .numbers (by simpa using congrArg List.length hitems) fun item hitem => ?_
    have hmem : item.number? ∈ [some x, some y, some z] := by
      rw [← hitems]
      exact List.mem_map_of_mem hitem
    simp only [List.mem_cons, List.not_mem_nil, or_false] at hmem
    rcases hmem with h | h | h <;> simp [h]
  | untagged hkeys hx hy hz =>
    exact .untagged hkeys (by simp [hscalar hx, hscalar hy, hscalar hz])
  | normalize hother htag _ ih => exact .normalize hother htag ih
  | @combine entries body op tag arguments signal hother htag hlength _ hbuilt ih =>
    have hcount : op.Takes body.length := by
      rw [hlength, ← op.admits_iff]
      exact (combine?_eq_ok_iff.1 hbuilt).1
    exact .combine hother htag hcount (forall_of_forall_zip hlength ih)
  | scale hother htag hvectorKey _ hfactor ih =>
    exact .scale hother htag hvectorKey ih (hscalar hfactor)
  | rotate hother htag haboutKey _ hperiod hradius hinitial ih =>
    exact .rotate hother htag haboutKey ih (hscalar hperiod) (hscalar hradius) hinitial
  | components hother htag hx hy hz =>
    exact .components hother htag (by simp [hscalar hx, hscalar hy, hscalar hz])

theorem isField_iff_exists_describes (value : Value α) :
    IsField value ↔ ∃ signal, Describes value signal :=
  ⟨IsField.exists_describes, fun ⟨_, h⟩ => h.isField⟩

/-! ## The reader takes what describes a vector signal -/

theorem rotate_initialProgress [Numeric.Lawful α] (about : VectorSignal α)
    (period radius : Signal α) (body : Section α) :
    rotate about period radius (initialProgress body)
      = rotate about period radius (Section.numberD body "initialProgress" 0.0) := by
  unfold initialProgress Section.numberD
  cases Section.number? body "initialProgress" with
  | none => rfl
  | some x => exact rotate_abs about period radius x

theorem Describes.reads [Numeric.Lawful α] {value : Value α} {signal : VectorSignal α}
    (h : Describes value signal) : Reads ofValue value signal := by
  have hchosen : ∀ {entries : Section α} {kind tag value},
      Chooses VectorKind.tag entries kind tag value →
        chooseTag VectorKind.ofTag? entries = .ok (kind, tag, value) :=
    (chooseTag_eq_ok_iff ofTag?_eq_some_iff).2
  have htagged : ∀ {entries : Section α}, ¬ HasComponents entries →
      isComponentSection entries = false := by
    intro entries hother
    rwa [← isComponentSection_iff, Bool.not_eq_true] at hother
  have hscalar : ∀ {entries : Section α} {key default signal},
      Signal.DescribesAt entries key default signal →
        ∀ path, Signal.read entries key path default = .ok signal :=
    Signal.DescribesAt.reads
  induction h with
  | @numbers items x y z hitems =>
    intro path
    rw [ofValue_list, (mapM_number?_eq_some_iff items [x, y, z]).2 hitems]
    rfl
  | untagged hkeys hx hy hz =>
    rw [← ofComponents_eq]
    exact reads_ofComponents ((isComponentSection_iff _).2 hkeys) (hscalar hx) (hscalar hy)
      (hscalar hz)
  | normalize hother htag _ ih => exact reads_normalized (htagged hother) (hchosen htag) ih
  | combine hother htag hlength _ hbuilt ih =>
    obtain ⟨hadmits, rfl⟩ := combine?_eq_ok_iff.1 hbuilt
    refine reads_combined (htagged hother) (hchosen htag) ?_ hadmits
    rw [List.forall₂_map_left_iff]
    exact List.forall₂_iff_zip.2 ⟨hlength, ih⟩
  | scale hother htag hvectorKey _ hfactor ih =>
    exact reads_scaled (htagged hother) (hchosen htag) ⟨_, hvectorKey, ih⟩ (hscalar hfactor)
  | rotate hother htag haboutKey _ hperiod hradius hinitial ih =>
    rw [← rotate_initialProgress]
    exact reads_rotated (htagged hother) (hchosen htag) ⟨_, haboutKey, ih⟩ (hscalar hperiod)
      (hscalar hradius) (readInitialProgress_of_optionalNumber hinitial)
  | components hother htag hx hy hz =>
    exact reads_assembled (htagged hother) (hchosen htag) (hscalar hx) (hscalar hy) (hscalar hz)

/-! ## The reader gives what is described -/

/-- What describes a vector signal is put together in the way that the reader puts vector signals
    together. -/
theorem composes_describes [Numeric.Lawful α] :
    Composes (α := α) Describes
      (fun entries signal => ¬ HasComponents entries → Describes (.table entries) signal)
      Signal.DescribesAt where
  signals := Signal.gives_read_describes
  numbers := .numbers
  untagged hcomponents hx hy hz := by
    rw [ofComponents_eq]
    exact .untagged ((isComponentSection_iff _).1 hcomponents) hx hy hz
  tagged hcomponents hsignal := by
    refine hsignal ?_
    rw [← isComponentSection_iff, hcomponents]
    exact Bool.false_ne_true
  normalize htag hinner hother := .normalize hother htag hinner
  combine htag hparts hadmits hother := by
    obtain ⟨hlength, hdescribed⟩ := List.forall₂_iff_zip.1 hparts
    exact .combine hother htag hlength hdescribed (combine?_eq_ok_iff.2 ⟨hadmits, rfl⟩)
  scale htag := by
    rintro ⟨_, hvectorKey, hvector⟩ hfactor hother
    exact .scale hother htag hvectorKey hvector hfactor
  rotate htag := by
    rintro ⟨_, haboutKey, habout⟩ hperiod hradius hinitial hother
    rw [rotate_initialProgress]
    exact .rotate hother htag haboutKey habout hperiod hradius hinitial
  components htag hx hy hz hother := .components hother htag hx hy hz

theorem gives_describes [Numeric.Lawful α] (value : Value α) (path : String) :
    (ofValue value path).Gives (Describes value) :=
  gives_ofValue composes_describes value path

theorem ofValue_eq_ok_iff [Numeric.Lawful α] (value : Value α) (path : String)
    (signal : VectorSignal α) :
    (ofValue value path).result = .ok signal ↔ Describes value signal := by
  constructor
  · exact (gives_describes value path).of_result
  · intro h
    rw [h.reads path]
    rfl

theorem DescribesAt.reads [Numeric.Lawful α] {entries : Section α} {key : String}
    {default : Option (Vec3 α)} {signal : VectorSignal α}
    (h : DescribesAt entries key default signal) (path : String) :
    read entries key path default = .ok signal := by
  unfold DescribesAt AtKey at h
  unfold read
  cases hvalue : entries.get? key with
  | some value =>
    simp only [hvalue] at h
    exact h.reads _
  | none =>
    simp only [hvalue] at h
    obtain ⟨v, rfl, rfl⟩ := h
    rfl

/-- The reader of a field makes the vector signal that its value describes, or the default. -/
theorem read_eq_ok_iff [Numeric.Lawful α] (entries : Section α) (key path : String)
    (default : Option (Vec3 α)) (signal : VectorSignal α) :
    (read entries key path default).result = .ok signal
      ↔ DescribesAt entries key default signal := by
  unfold read DescribesAt AtKey
  cases entries.get? key with
  | some value => exact ofValue_eq_ok_iff value _ signal
  | none =>
    cases default with
    | none => simp [Reading.fail]
    | some v => simp [Reading.ok, eq_comm]

theorem fieldAt_iff_exists_describesAt (entries : Section α) (key : String)
    (default : Option (Vec3 α)) :
    FieldAt entries key default ↔ ∃ signal, DescribesAt entries key default signal := by
  unfold FieldAt DescribesAt AtKey
  cases entries.get? key with
  | some value => exact isField_iff_exists_describes value
  | none => simp [Option.isSome_iff_exists]

/-- A vector field is read just when its key holds a written vector signal, or is absent and there
    is a default; and the vector signal that is read is then the one that the building functions
    make of the value, or the default. -/
theorem read_vector_iff (entries : Section Float) (key path : String)
    (default : Option (Vec3 Float)) :
    ((∃ signal, (read entries key path default).result = .ok signal)
        ↔ FieldAt entries key default)
      ∧ ∀ signal, (read entries key path default).result = .ok signal
          ↔ DescribesAt entries key default signal := by
  refine ⟨?_, read_eq_ok_iff entries key path default⟩
  simp only [fieldAt_iff_exists_describesAt, read_eq_ok_iff]

end VectorSignal

end Modulation

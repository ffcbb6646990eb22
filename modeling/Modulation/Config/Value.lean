import Modulation.Config.DateTime
import Modulation.Entries
import Modulation.Numeric

set_option autoImplicit false

/-! # Configuration values

A `Value` is what a configuration text can say, and a `Section` is a table of named values in the
order in which the text mentions them. Effects read only part of it: an integer counts as the
number nearest to it, a list counts as a list of numbers when each item is a number, and everything
else is known by its type's name alone. `Value.view` is this reading.

`Value.identical` decides equality. `Value.same` compares two values as configurations: sections are
the same when they hold the same values under the same names, in whatever order. -/

namespace Modulation.Config

/-- A configuration value, with floats in `α`. -/
inductive Value (α : Type) where
  | text (content : String)
  | integer (n : Int)
  | float (x : α)
  | boolean (b : Bool)
  | datetime (moment : DateTime)
  | list (items : List (Value α))
  | table (entries : List (String × Value α))

/-- A table of named values. -/
abbrev Section (α : Type) := Entries (Value α)

/-- What readers see of a value. -/
inductive View (α : Type) where
  | number (x : α)
  | section (entries : Section α)
  | numbers (items : List α)
  | other (typeName : String)

variable {α : Type}

namespace Value

/-- The number that an integer or a float stands for. -/
def number? [Numeric α] : Value α → Option α
  | integer n => some (Numeric.ofInt n)
  | float x => some x
  | _ => none

/-- The reading of a value. A list with an item that is no number is of the type `array`. -/
def view [Numeric α] : Value α → View α
  | text _ => .other "string"
  | integer n => .number (Numeric.ofInt n)
  | float x => .number x
  | boolean _ => .other "boolean"
  | datetime _ => .other "datetime"
  | list items =>
    match items.mapM number? with
    | some numbers => .numbers numbers
    | none => .other "array"
  | table entries => .section entries

/-- The section in a value. -/
def section? : Value α → Option (Section α)
  | table entries => some entries
  | _ => none

end Value

/-- The name of what readers see. -/
def View.typeName : View α → String
  | number _ => "number"
  | .section _ => "section"
  | numbers _ => "list"
  | other typeName => typeName

/-- The name of a value's type in messages. -/
def Value.typeName [Numeric α] (value : Value α) : String :=
  value.view.typeName

/-! ## Induction

A provider section names its kind by a key and holds the parts of the provider in the section under
that key, so that readers look two sections deep: what is proved of a table may use what holds of
its values and of the values of the tables among them. -/

/-- Induction over the tables in a value, two levels at a time. -/
theorem Value.tableInduction {motive : Value α → Prop}
    (leaf : ∀ value : Value α, (∀ entries, value ≠ .table entries) → motive value)
    (table : ∀ entries : List (String × Value α), (∀ entry ∈ entries, motive entry.2) →
      (∀ entry ∈ entries, ∀ body, entry.2 = .table body → ∀ part ∈ body, motive part.2) →
      motive (.table entries))
    (value : Value α) : motive value := by
  suffices h : motive value ∧ ∀ body, value = .table body → ∀ part ∈ body, motive part.2 from h.1
  refine @Value.rec α
    (fun value => motive value ∧ ∀ body, value = .table body → ∀ part ∈ body, motive part.2)
    (fun _ => True)
    (fun entries => ∀ entry ∈ entries, motive entry.2 ∧
      ∀ body, entry.2 = .table body → ∀ part ∈ body, motive part.2)
    (fun entry => motive entry.2 ∧ ∀ body, entry.2 = .table body → ∀ part ∈ body, motive part.2)
    ?text ?integer ?float ?boolean ?datetime ?list ?table trivial (fun _ _ _ _ => trivial)
    (fun _ h => absurd h List.not_mem_nil) ?cons (fun _ _ h => h) value
  case table =>
    intro entries ih
    refine ⟨table entries (fun entry h => (ih entry h).1) (fun entry h => (ih entry h).2), ?_⟩
    intro body hbody part hpart
    cases hbody
    exact (ih part hpart).1
  case cons =>
    intro first rest ihFirst ihRest entry hentry
    rcases List.mem_cons.1 hentry with rfl | h
    · exact ihFirst
    · exact ihRest entry h
  all_goals
    intros
    exact ⟨leaf _ (fun _ h => nomatch h), fun _ h => nomatch h⟩

/-! ## Names -/

/-- No table in a value mentions a name twice, at any depth. -/
inductive Value.Proper : Value α → Prop where
  | text (content : String) : Proper (.text content)
  | integer (n : Int) : Proper (.integer n)
  | float (x : α) : Proper (.float x)
  | boolean (b : Bool) : Proper (.boolean b)
  | datetime (moment : DateTime) : Proper (.datetime moment)
  | list {items : List (Value α)} (h : ∀ item ∈ items, Proper item) : Proper (.list items)
  | table {entries : List (String × Value α)} (distinct : Entries.Distinct entries)
      (h : ∀ entry ∈ entries, Proper entry.2) : Proper (.table entries)

theorem Value.Proper.distinct {entries : Section α} (h : (Value.table entries).Proper) :
    entries.Distinct := by
  cases h
  assumption

theorem Value.Proper.entries {entries : Section α} (h : (Value.table entries).Proper) :
    ∀ entry ∈ entries, entry.2.Proper := by
  cases h
  assumption

/-! ## Equality -/

mutual

/-- Whether two values are one and the same, order included. -/
def Value.identical [DecidableEq α] : Value α → Value α → Bool
  | .text a, .text b => decide (a = b)
  | .integer a, .integer b => decide (a = b)
  | .float a, .float b => decide (a = b)
  | .boolean a, .boolean b => decide (a = b)
  | .datetime a, .datetime b => decide (a = b)
  | .list items, .list others => Value.identicalItems items others
  | .table entries, .table others => Value.identicalEntries entries others
  | _, _ => false

/-- Whether two lists hold identical values. -/
def Value.identicalItems [DecidableEq α] : List (Value α) → List (Value α) → Bool
  | [], [] => true
  | a :: rest, b :: others => a.identical b && Value.identicalItems rest others
  | _, _ => false

/-- Whether two tables hold identical values under the same names in the same order. -/
def Value.identicalEntries [DecidableEq α] :
    List (String × Value α) → List (String × Value α) → Bool
  | [], [] => true
  | (key, a) :: rest, (name, b) :: others =>
    decide (key = name) && a.identical b && Value.identicalEntries rest others
  | _, _ => false

end

theorem Value.identical_iff [DecidableEq α] (a b : Value α) : a.identical b = true ↔ a = b := by
  refine @Value.rec α
    (fun a => ∀ b, a.identical b = true ↔ a = b)
    (fun items => ∀ others, identicalItems items others = true ↔ items = others)
    (fun entries => ∀ others, identicalEntries entries others = true ↔ entries = others)
    (fun entry => ∀ b, entry.2.identical b = true ↔ entry.2 = b)
    ?text ?integer ?float ?boolean ?datetime ?list ?table ?nil ?cons ?noEntries ?entries
    (fun _ _ h => h) a b
  case nil => intro others; cases others <;> simp [identicalItems]
  case noEntries => intro others; cases others <;> simp [identicalEntries]
  case cons =>
    intro first rest ihFirst ihRest others
    cases others with
    | nil => simp [identicalItems]
    | cons other others => simp [identicalItems, ihFirst, ihRest]
  case entries =>
    rintro ⟨key, first⟩ rest ihFirst ihRest others
    cases others with
    | nil => simp [identicalEntries]
    | cons other others => simp [identicalEntries, ihFirst, ihRest, Prod.ext_iff]
  case list =>
    intro items ih other
    cases other <;> simp [identical, ih]
  case table =>
    intro entries ih other
    cases other <;> simp [identical, ih]
  all_goals
    intro x other
    cases other <;> simp [identical]

instance [DecidableEq α] : DecidableEq (Value α) :=
  fun a b => decidable_of_iff _ (Value.identical_iff a b)

/-! ## Comparison -/

mutual

/-- Whether two values are the same. An integer differs from every float. -/
def Value.same [BEq α] : Value α → Value α → Bool
  | .text a, .text b => a == b
  | .integer a, .integer b => a == b
  | .float a, .float b => a == b
  | .boolean a, .boolean b => a == b
  | .datetime a, .datetime b => a == b
  | .list items, .list others => Value.sameItems items others
  | .table entries, .table others =>
    entries.length == others.length && Value.sameEntries entries others
  | _, _ => false

/-- Whether two lists hold the same values in the same order. -/
def Value.sameItems [BEq α] : List (Value α) → List (Value α) → Bool
  | [], [] => true
  | a :: rest, b :: others => a.same b && Value.sameItems rest others
  | _, _ => false

/-- Whether each value stands in the other section under its name. -/
def Value.sameEntries [BEq α] : List (String × Value α) → Section α → Bool
  | [], _ => true
  | (key, value) :: rest, others =>
    (match others.get? key with
      | some other => value.same other
      | none => false)
      && Value.sameEntries rest others

end

/-- Whether two sections hold the same values under the same names. -/
def Section.same [BEq α] (a b : Section α) : Bool :=
  (Value.table a).same (.table b)

end Modulation.Config

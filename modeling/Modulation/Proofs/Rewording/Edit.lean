import Mathlib.Logic.Relation
import Modulation.Proofs.Faults.Part

set_option autoImplicit false

/-! # Other ways to write a field

A field can be written in many ways that should mean the same: the keys of a section can stand in
another order, a tag can be in capitals, an integer can be a float. What may be changed at a value
depends on what the value is used for. A `Use` says so, `Use.Under` says what the values under the
keys of a section are used for if one knows what the section is used for, and `Rewords` lists the
single edits, each of them at any depth. `Reworded` is any number of them, one after the other.

The arguments of an operator are used in the order in which they stand, and all of them are, so that
their section is the one that may be neither reordered nor enlarged. -/

namespace Modulation

open Modulation.Config

variable {α : Type}

/-- What a value is used for. -/
inductive Use (α : Type) where
  /-- It is read as a field. -/
  | field (type : FieldType)
  /-- It is read as a number. -/
  | number
  /-- It is a section, and all that stands in it is read as fields, in order. -/
  | arguments (type : FieldType)
  /-- It is a section, and what stands under the keys of the parts is read. -/
  | parts (parts : List (Part α))
  /-- It is not read. -/
  | nothing

/-- What the value of a part is used for. -/
def Part.use : Part α → Use α
  | vector _ => .field .vector
  | signal _ _ => .field .signal
  | number _ => .number

/-- What the value under the tag of a provider is used for. Only the parts of an operator depend on
    what its section holds. -/
def Form.use (type : FieldType) : Form α → Use α
  | whole => .field type
  | parts _ (some _) => .arguments type
  | parts named none => .parts (named [])

/-- A key is the tag of a kind, in capitals or not. -/
def FieldType.IsTag (type : FieldType) (key : String) : Prop :=
  match type with
  | signal => ∃ kind : SignalKind, sameTag kind.tag key = true
  | vector => ∃ kind : VectorKind, sameTag kind.tag key = true

variable [Numeric α]

/-- What the value under a key of a section is used for. -/
inductive Use.Under : Use α → Section α → String → Use α → Prop where
  | tag {type : FieldType} {entries : Section α} {tag : String} {form : Form α} {value : Value α}
      (hoffer : type.Offers entries tag form value) :
      Under (.field type) entries tag (form.use type)
  | beside {type : FieldType} {entries : Section α} {tag key : String} {form : Form α}
      {value : Value α} (hoffer : type.Offers entries tag form value) (hkey : key ≠ tag) :
      Under (.field type) entries key .nothing
  | component {entries : Section α} (key : String) (hkeys : VectorSignal.HasComponents entries) :
      Under (.field .vector) entries key (.field .signal)
  | argument (type : FieldType) (entries : Section α) (key : String) :
      Under (.arguments type) entries key (.field type)
  | part {parts : List (Part α)} (part : Part α) (entries : Section α) (hpart : part ∈ parts)
      (honly : ∀ other ∈ parts, other.key = part.key → other = part) :
      Under (.parts parts) entries part.key part.use
  | rest {parts : List (Part α)} {key : String} (entries : Section α)
      (hkey : ∀ part ∈ parts, part.key ≠ key) : Under (.parts parts) entries key .nothing

/-- One edit of a value that is used in a certain way. -/
inductive Rewords : Use α → Value α → Value α → Prop where
  /-- What is not read is replaced. -/
  | unread (value other : Value α) : Rewords .nothing value other
  /-- An integer becomes a float. -/
  | widen (use : Use α) (n : Int) : Rewords use (.integer n) (.float (Numeric.ofInt n))
  /-- An integer in a list of numbers becomes a float. -/
  | widenItem (earlier later : List (Value α)) (n : Int) :
      Rewords (.field .vector) (.list (earlier ++ .integer n :: later))
        (.list (earlier ++ .float (Numeric.ofInt n) :: later))
  /-- A list of three numbers becomes the section of its components. -/
  | name {x y z : Value α} (hnumbers : ∀ item ∈ [x, y, z], item.number?.isSome = true) :
      Rewords (.field .vector) (.list [x, y, z]) (.table [("x", x), ("y", y), ("z", z)])
  /-- The section of three components that are numbers becomes a list. -/
  | unname {x y z : Value α} (hnumbers : ∀ item ∈ [x, y, z], item.number?.isSome = true) :
      Rewords (.field .vector) (.table [("x", x), ("y", y), ("z", z)]) (.list [x, y, z])
  /-- The entries of a section change places, but for those of an operator. -/
  | reorder {use : Use α} {entries others : Section α} (huse : ∀ type, use ≠ .arguments type)
      (distinct : entries.Distinct) (hperm : entries.Perm others) :
      Rewords use (.table entries) (.table others)
  /-- A tag is written in capitals or in small letters. -/
  | retag {type : FieldType} {tag other : String} (earlier later : Section α) (value : Value α)
      (htag : type.IsTag tag) (hother : sameTag tag other = true) :
      Rewords (.field type) (.table (earlier ++ (tag, value) :: later))
        (.table (earlier ++ (other, value) :: later))
  /-- An entry is added that is not read. -/
  | add {use : Use α} (earlier later : Section α) {key : String} {value : Value α}
      (hkey : use.Under (earlier ++ (key, value) :: later) key .nothing) :
      Rewords use (.table (earlier ++ later)) (.table (earlier ++ (key, value) :: later))
  /-- The value of an entry is edited. -/
  | within {use inner : Use α} (earlier later : Section α) {key : String} {value other : Value α}
      (hkey : use.Under (earlier ++ (key, value) :: later) key inner)
      (hvalue : Rewords inner value other) :
      Rewords use (.table (earlier ++ (key, value) :: later))
        (.table (earlier ++ (key, other) :: later))

/-- Two sections say the same of a part in other words: any number of edits lead from the one to the
    other. -/
def Reworded (part : Part α) (entries others : Section α) : Prop :=
  Relation.ReflTransGen (Rewords (.parts [part])) (.table entries) (.table others)

end Modulation

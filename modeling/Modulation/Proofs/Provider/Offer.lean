import Mathlib.Data.List.Forall2
import Modulation.Proofs.Provider.Choice

set_option autoImplicit false

/-! # Reading the parts of a provider

A reader of values `read` decides how every part of a provider is read: an offer holds a value
together with how `read` takes it, and a body holds a section together with how `read` takes each of
its entries. The lemmas below say what the parts of such offers and bodies are.

`Reads read value x` says that a value is read as `x` without an issue, wherever it stands, and
`HoldsAt read entries key x` says so of the value under a key. -/

namespace Modulation

open Modulation.Config

variable {α β : Type}

/-- The parts that a reader finds in a section. -/
def bodyBy (read : Value α → Reader β) (entries : Section α) : Body α β :=
  ⟨entries, entries.map fun entry => (entry.1, read entry.2)⟩

/-- What a value offers to a reader. -/
def offerBy (read : Value α → Reader β) (value : Value α) : Offer α β :=
  ⟨value, read value,
    match value with
    | .table entries => (bodyBy read entries).operands
    | _ => []⟩

theorem offerBy_table_body [Numeric α] (read : Value α → Reader β) (entries : Section α)
    (tag path : String) :
    (offerBy read (.table entries)).body tag path = .ok (bodyBy read entries) := rfl

/-- A value offers the parts of a section, or it is no section and that is its fault. -/
theorem offerBy_body [Numeric α] (read : Value α → Reader β) (value : Value α)
    (tag path : String) :
    (∃ entries, value = .table entries ∧
        (offerBy read value).body tag path = .ok (bodyBy read entries))
      ∨ (offerBy read value).body tag path = .fail (.notSection tag value.typeName) path := by
  cases value with
  | table entries => exact Or.inl ⟨entries, rfl, rfl⟩
  | _ => exact Or.inr rfl

theorem bodyBy_operand (read : Value α → Reader β) (entries : Section α) (key path : String) :
    (bodyBy read entries).operand key path
      = match entries.get? key with
        | some value => read value (joinPath path key)
        | none => .fail (.missingKey key) (joinPath path key) := by
  unfold Body.operand bodyBy
  rw [Entries.get?_map]
  cases entries.get? key <;> rfl

theorem bodyBy_allOperands (read : Value α → Reader β) (entries : Section α) (path : String) :
    (bodyBy read entries).allOperands path
      = .all (entries.map fun entry => read entry.2 (joinPath path entry.1)) := by
  unfold Body.allOperands bodyBy
  rw [List.map_map]
  rfl

/-! ## Parts that are read without an issue -/

/-- A value is read as `x` without an issue, wherever it stands. -/
def Reads (read : Value α → Reader β) (value : Value α) (x : β) : Prop :=
  ∀ path, read value path = .ok x

/-- The value under a key is read as `x` without an issue, wherever it stands. -/
def HoldsAt (read : Value α → Reader β) (entries : Section α) (key : String) (x : β) : Prop :=
  ∃ value, entries.get? key = some value ∧ Reads read value x

theorem operand_of_holdsAt {read : Value α → Reader β} {entries : Section α} {key : String} {x : β}
    (h : HoldsAt read entries key x) (path : String) :
    (bodyBy read entries).operand key path = .ok x := by
  obtain ⟨value, hvalue, hreads⟩ := h
  rw [bodyBy_operand, hvalue]
  exact hreads _

theorem all_ok (values : List β) : Reading.all (values.map Reading.ok) = .ok values := by
  induction values with
  | nil => rfl
  | cons value rest ih =>
    rw [List.map_cons, Reading.all, ih]
    rfl

/-- Entries whose values are read as the items of a list, one by one, are read as that list. -/
theorem allOperands_of_reads {read : Value α → Reader β} {entries : Section α} {items : List β}
    (h : List.Forall₂ (Reads read) (entries.map Prod.snd) items) (path : String) :
    (bodyBy read entries).allOperands path = .ok items := by
  rw [bodyBy_allOperands, ← all_ok items]
  -- Both sides read item after item, so it is enough that the single readings are the same.
  congr 1
  induction entries generalizing items with
  | nil =>
    cases h
    rfl
  | cons entry rest ih =>
    obtain _ | ⟨hfirst, hrest⟩ := h
    rw [List.map_cons, List.map_cons, ih hrest, hfirst]

end Modulation

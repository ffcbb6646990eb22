import Modulation.Config.Section
import Modulation.Provider.Reading

set_option autoImplicit false

/-! # Provider sections

A provider section names its kind by a key, the tag, and holds the parts of the provider in the
section under it. Tags are compared without regard to ASCII case. Exactly one key of the section may
be a tag; keys beside it that are no tags are ignored. -/

namespace Modulation

open Modulation.Config

variable {α β κ : Type}

/-- Whether two texts are equal but for the case of ASCII letters. -/
def sameTag (a b : String) : Bool :=
  a.toList.map Char.toLower == b.toList.map Char.toLower

/-- The kind and the entry that a section chooses by its tag. -/
def chooseTag (ofTag? : String → Option κ) (entries : Entries β) :
    Except Cause (κ × String × β) :=
  match entries.filterMap fun (key, value) => (ofTag? key).map fun kind => (kind, key, value) with
  | [chosen] => .ok chosen
  | _ :: _ :: _ => .error .severalProviders
  | [] =>
    match entries with
    | [(key, _)] => .error (.unknownProvider key)
    | _ => .error .noProvider

/-- The parts of a provider: the section under its tag, and how each entry of that section is read
    as an operand. -/
structure Body (α β : Type) where
  entries : Section α
  operands : Entries (Reader β)

/-- What a key of a provider section offers: its value read as an operand, and the operands of the
    section that it may be. -/
structure Offer (α β : Type) where
  value : Value α
  operand : Reader β
  operands : Entries (Reader β)

/-- The parts of the provider under a tag. -/
def Offer.body [Numeric α] (offer : Offer α β) (tag : String) (path : String) :
    Reading (Body α β) :=
  match offer.value with
  | .table entries => .ok ⟨entries, offer.operands⟩
  | value => .fail (.notSection tag value.typeName) path

/-- Reads an operand that must be there. -/
def Body.operand (body : Body α β) (key : String) (path : String) : Reading β :=
  match body.operands.get? key with
  | some read => read (joinPath path key)
  | none => .fail (.missingKey key) (joinPath path key)

/-- Reads every entry as an operand, in order. -/
def Body.allOperands (body : Body α β) (path : String) : Reading (List β) :=
  .all (body.operands.map fun (key, read) => read (joinPath path key))

/-- Reads a plain number that may be absent. -/
def readNumber? [Numeric α] (entries : Section α) (key : String) (path : String) :
    Reading (Option α) :=
  match entries.get? key with
  | none => .ok none
  | some value =>
    match value.number? with
    | some x => .ok (some x)
    | none => .fail (.notNumber key value.typeName) (joinPath path key)

/-- Reads the phase at which a periodic provider starts; its sign does not count. -/
def readInitialProgress [Numeric α] (entries : Section α) (path : String) : Reading α :=
  (readNumber? entries "initialProgress" path).map fun x => (x.map Numeric.abs).getD 0.0

/-- The key of an argument in a written list of arguments: a letter, and beyond the alphabet a
    number. -/
def argumentKey (index : Nat) : String :=
  if index < 26 then String.singleton (Char.ofNat ('a'.toNat + index))
  else "arg" ++ toString index

/-- Writes arguments under their keys. -/
def argumentSection (arguments : List (Value α)) : Section α :=
  Entries.ofList (arguments.mapIdx fun index value => (argumentKey index, value))

/-- Takes the arguments of an operator if there are as many as it admits. -/
def Arity.check (arity : Arity) (tag : String) (path : String) (arguments : List β) :
    Except Fault (List β) :=
  match arity.fault? arguments.length with
  | some rule => .error ⟨.wrongArity tag rule arguments.length, path⟩
  | none => .ok arguments

/-- Reports the fault of a result. -/
def Reading.report (result : Except Fault β) : Reading β :=
  match result with
  | .ok value => .ok value
  | .error fault => .fail fault.cause fault.path

end Modulation

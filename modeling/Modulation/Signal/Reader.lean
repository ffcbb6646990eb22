import Modulation.Signal.Basic

set_option autoImplicit false

/-! # Reading a signal

A signal is written as a number or as a provider section. All parts of a provider are read before
the first fault among them is given back, so that one pass reports every broken part; a number of
arguments that the operator does not admit is reported when all of them are read.

`ofValue` reads a value at its path by recursion on the value. `read` reads the value under a key,
for which a default may be given. -/

namespace Modulation.Signal

open Modulation.Config

variable {α : Type} [Numeric α]

/-- Reads the two bounds of a signal under their keys. -/
def readBounds (body : Body α (Signal α)) (lowKey highKey path : String) :
    Reading (Signal α × Signal α) :=
  (body.operand lowKey path).pair (body.operand highKey path)

/-- Reads the provider of a kind from what stands under its tag. -/
def ofOffer (kind : SignalKind) (tag : String) (offer : Offer α (Signal α)) (path : String) :
    Reading (Signal α) :=
  match kind with
  | .abs => (offer.operand path).map abs
  | .combine op =>
    (offer.body tag path).andThen fun body =>
      (body.allOperands path).andThen fun arguments =>
        (Reading.report (op.arity.check tag path arguments)).map (combine op)
  | .clamp =>
    (offer.body tag path).andThen fun body =>
      ((readBounds body "min" "max" path).pair (body.operand "value" path)).map
        fun ((low, high), inner) => clamp low high inner
  | .wave form =>
    (offer.body tag path).andThen fun body =>
      (((readBounds body form.lowKey form.highKey path).pair (body.operand "period" path)).pair
        (readInitialProgress body.entries path)).map
        fun (((low, high), period), initial) => wave form low high period initial
  | .random =>
    (offer.body tag path).andThen fun body =>
      ((readBounds body "min" "max" path).pair (readNumber? body.entries "lastValue" path)).map
        fun ((low, high), last) =>
          match last with
          | some last => withLast low high last
          | none => random low high

/-- Reads a provider section from what its keys offer. -/
def ofOffers (offers : Entries (Offer α (Signal α))) (path : String) : Reading (Signal α) :=
  match chooseTag SignalKind.ofTag? offers with
  | .error cause => .fail cause path
  | .ok (kind, tag, offer) => ofOffer kind tag offer (joinPath path tag)

mutual

/-- Reads a value as a signal. -/
def ofValue : Value α → Reader (Signal α)
  | .integer n, _ => .ok (.constant (Numeric.ofInt n))
  | .float x, _ => .ok (.constant x)
  | .table entries, path => ofOffers (offersOf entries) path
  | value, path => .fail (.notSignal value.typeName) path

/-- What each key of a provider section offers. -/
def offersOf : List (String × Value α) → Entries (Offer α (Signal α))
  | [] => []
  | (key, value) :: rest => (key, ⟨value, ofValue value, operandsIn value⟩) :: offersOf rest

/-- How each entry of a value that is a section is read as a signal. -/
def operandsIn : Value α → Entries (Reader (Signal α))
  | .table entries => operandsOf entries
  | _ => []

/-- How each entry of a section is read as a signal. -/
def operandsOf : List (String × Value α) → Entries (Reader (Signal α))
  | [] => []
  | (key, value) :: rest => (key, ofValue value) :: operandsOf rest

end

/-- Reads the signal under a key of a section; an absent key stands for the default, if there is
    one. -/
def read (entries : Section α) (key : String) (path : String) (default : Option α) :
    Reading (Signal α) :=
  match entries.get? key with
  | some value => ofValue value (joinPath path key)
  | none =>
    match default with
    | some value => .ok (.constant value)
    | none => .fail (.missingKey key) (joinPath path key)

/-- Reads a provider section. -/
def ofSection (entries : Section α) (path : String) : Reading (Signal α) :=
  ofValue (.table entries) path

/-! ## Pair lists -/

/-- Enters keys and numbers, given in turn in one list, into a section. -/
def pairSection (number? : String → Option α) (path : String) :
    List String → Section α → Except Fault (Section α)
  | key :: text :: rest, entries =>
    match number? text with
    | some x => pairSection number? path rest (entries.setNumber key x)
    | none => .error ⟨.pairNotNumber key text, joinPath path key⟩
  | _, entries => .ok entries

/-- Reads a provider of a tag from a list of keys and numbers in turn. A list that ends with a key
    is refused before its numbers are looked at. -/
def ofPairs (number? : String → Option α) (tag : String) (pairs : List String) (path : String) :
    Reading (Signal α) :=
  if pairs.length % 2 = 0 then
    (Reading.report (pairSection number? path pairs [])).andThen fun body =>
      ofSection [(tag, .table body)] path
  else .fail (.unpairedKey (pairs.getLast?.getD "")) path

end Modulation.Signal

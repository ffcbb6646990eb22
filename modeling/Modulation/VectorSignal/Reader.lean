import Modulation.Signal.Reader
import Modulation.VectorSignal.Basic

set_option autoImplicit false

/-! # Reading a vector signal

A vector signal is written as a list of three numbers, as a section of components or as a provider
section. A section with no keys but `x`, `y` and `z`, and at least one of them, is a section of
components; one that is absent is zero. As with signals, all parts are read before a fault is given
back. -/

namespace Modulation.VectorSignal

open Modulation.Config

variable {α : Type} [Numeric α]

/-- Whether a section holds components: it has keys, and only those of components. -/
def isComponentSection {β : Type} (entries : Entries β) : Bool :=
  !entries.isEmpty && entries.keys.all fun key => key == "x" || key == "y" || key == "z"

/-- Reads the signals of the three components. -/
def readComponents (entries : Section α) (path : String) :
    Reading ((Signal α × Signal α) × Signal α) :=
  ((Signal.read entries "x" path (some 0.0)).pair (Signal.read entries "y" path (some 0.0))).pair
    (Signal.read entries "z" path (some 0.0))

/-- Reads the provider of a kind from what stands under its tag. -/
def ofOffer (kind : VectorKind) (tag : String) (offer : Offer α (VectorSignal α))
    (path : String) : Reading (VectorSignal α) :=
  match kind with
  | .normalize => (offer.operand path).map normalize
  | .combine op =>
    (offer.body tag path).andThen fun body =>
      (body.allOperands path).andThen fun arguments =>
        (Reading.report (op.arity.check tag path arguments)).map (combine op)
  | .scale =>
    (offer.body tag path).andThen fun body =>
      ((body.operand "vector" path).pair (Signal.read body.entries "factor" path none)).map
        fun (vector, factor) => scale vector factor
  | .rotate =>
    (offer.body tag path).andThen fun body =>
      ((((body.operand "about" path).pair (Signal.read body.entries "period" path none)).pair
        (Signal.read body.entries "radius" path (some 1.0))).pair
        (readInitialProgress body.entries path)).map
        fun (((about, period), radius), initial) => rotate about period radius initial
  | .components =>
    (offer.body tag path).andThen fun body =>
      (readComponents body.entries path).map fun ((x, y), z) => components x y z

/-- Reads a provider section from what its keys offer. -/
def ofOffers (offers : Entries (Offer α (VectorSignal α))) (path : String) :
    Reading (VectorSignal α) :=
  match chooseTag VectorKind.ofTag? offers with
  | .error cause => .fail cause path
  | .ok (kind, tag, offer) => ofOffer kind tag offer (joinPath path tag)

/-- Reads a list of numbers. -/
def ofNumbers (numbers : List α) (path : String) : Reading (VectorSignal α) :=
  match numbers with
  | [x, y, z] => .ok (.constant ⟨x, y, z⟩)
  | _ => .fail (.componentCount numbers.length) path

mutual

/-- Reads a value as a vector signal. -/
def ofValue : Value α → Reader (VectorSignal α)
  | .table entries, path =>
    if isComponentSection entries then
      (readComponents entries path).map fun ((x, y), z) => ofComponents x y z
    else ofOffers (offersOf entries) path
  | value, path =>
    match value.view with
    | .numbers numbers => ofNumbers numbers path
    | view => .fail (.notVector view.typeName) path

/-- What each key of a provider section offers. -/
def offersOf : List (String × Value α) → Entries (Offer α (VectorSignal α))
  | [] => []
  | (key, value) :: rest => (key, ⟨value, ofValue value, operandsIn value⟩) :: offersOf rest

/-- How each entry of a value that is a section is read as a vector signal. -/
def operandsIn : Value α → Entries (Reader (VectorSignal α))
  | .table entries => operandsOf entries
  | _ => []

/-- How each entry of a section is read as a vector signal. -/
def operandsOf : List (String × Value α) → Entries (Reader (VectorSignal α))
  | [] => []
  | (key, value) :: rest => (key, ofValue value) :: operandsOf rest

end

/-- Reads the vector signal under a key of a section; an absent key stands for the default, if there
    is one. -/
def read (entries : Section α) (key : String) (path : String) (default : Option (Vec3 α)) :
    Reading (VectorSignal α) :=
  match entries.get? key with
  | some value => ofValue value (joinPath path key)
  | none =>
    match default with
    | some value => .ok (.constant value)
    | none => .fail (.missingKey key) (joinPath path key)

end Modulation.VectorSignal

import Modulation.Provider.Choice
import Modulation.VectorSignal.Space

set_option autoImplicit false

/-! # Kinds of generated vector signals

A generated vector signal combines its arguments by an operator, is brought to length one, scaled by
a signal, swung around an axis or put together from a signal for each component. -/

namespace Modulation

/-- Operators that combine the values of vector arguments. -/
inductive VectorOperator where
  | add
  | sub
  | mul
  | cross
  deriving DecidableEq, Repr

namespace VectorOperator

/-- All operators, in the order in which they are listed. -/
def all : List VectorOperator :=
  [add, sub, mul, cross]

/-- The tag of an operator. -/
def tag : VectorOperator → String
  | add => "add"
  | sub => "sub"
  | mul => "mul"
  | cross => "cross"

/-- How many arguments an operator takes. -/
def arity : VectorOperator → Arity
  | add | mul => ⟨2, none⟩
  | sub | cross => ⟨2, some 2⟩

variable {α : Type} [Numeric α]

/-- Applies an operation of two operands; other numbers of arguments have no result. -/
def binary (op : Vec3 α → Vec3 α → Vec3 α) : List (Vec3 α) → Vec3 α
  | [a, b] => op a b
  | _ => Vec3.splat Numeric.nan

/-- The value of an operator at the values of its arguments. -/
def apply : VectorOperator → List (Vec3 α) → Vec3 α
  | add, values => values.foldl Vec3.add (Vec3.splat 0.0)
  | mul, values => values.foldl Vec3.mul (Vec3.splat 1.0)
  | sub, values => binary Vec3.sub values
  | cross, values => binary Vec3.cross values

end VectorOperator

/-- Kinds of generated vector signals. -/
inductive VectorKind where
  | combine (op : VectorOperator)
  | normalize
  | scale
  | rotate
  | components
  deriving DecidableEq, Repr

namespace VectorKind

/-- All kinds, in the order in which they are listed. -/
def all : List VectorKind :=
  VectorOperator.all.map combine ++ [normalize, scale, rotate, components]

/-- The tag of a kind. -/
def tag : VectorKind → String
  | combine op => op.tag
  | normalize => "normalize"
  | scale => "scale"
  | rotate => "rotate"
  | components => "components"

/-- The kind with a tag. -/
def ofTag? (tag : String) : Option VectorKind :=
  all.find? fun kind => sameTag kind.tag tag

end VectorKind

end Modulation

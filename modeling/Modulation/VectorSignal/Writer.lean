import Modulation.Signal.Writer
import Modulation.VectorSignal.Basic

set_option autoImplicit false

/-! # Writing a vector signal

A vector signal is always written as a section: a constant, and a vector put together from signals,
as a section of components, every other one under its tag. -/

namespace Modulation.VectorSignal

open Modulation.Config

variable {α : Type}

/-- A section of components. -/
def componentTable (x y z : Value α) : Value α :=
  .table [("x", x), ("y", y), ("z", z)]

mutual

/-- The value that a vector signal is written as. -/
def toValue : VectorSignal α → Value α
  | constant value => componentTable (.float value.x) (.float value.y) (.float value.z)
  | combined op arguments _ => .table [(op.tag, .table (argumentSection (toValues arguments)))]
  | normalized inner _ => .table [("normalize", inner.toValue)]
  | scaled vector factor _ =>
    .table [("scale", .table [("vector", vector.toValue), ("factor", factor.toValue)])]
  | rotated about period radius phase _ =>
    .table [("rotate", .table
      [("about", about.toValue), ("period", period.toValue), ("radius", radius.toValue),
        ("initialProgress", .float phase)])]
  | assembled x y z _ => componentTable x.toValue y.toValue z.toValue

/-- The values that vector signals are written as. -/
def toValues : List (VectorSignal α) → List (Value α)
  | [] => []
  | signal :: rest => signal.toValue :: toValues rest

end

/-- Writes a vector signal under a key of a section. -/
def write (signal : VectorSignal α) (entries : Section α) (key : String) : Section α :=
  entries.set key signal.toValue

end Modulation.VectorSignal

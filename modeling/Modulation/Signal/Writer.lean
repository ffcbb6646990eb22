import Modulation.Signal.Basic

set_option autoImplicit false

/-! # Writing a signal

A signal is written so that reading it resumes where it stands: a constant as a number, a generated
signal as a provider section with its parts under their keys, its phase as the initial progress, and
the number drawn last. -/

namespace Modulation.Signal

open Modulation.Config

variable {α : Type}

mutual

/-- The value that a signal is written as. -/
def toValue : Signal α → Value α
  | constant value => .float value
  | combined op arguments _ => .table [(op.tag, .table (argumentSection (toValues arguments)))]
  | absolute inner _ => .table [("abs", inner.toValue)]
  | clamped low high inner _ =>
    .table [("clamp", .table
      [("min", low.toValue), ("max", high.toValue), ("value", inner.toValue)])]
  | periodic form low high period phase _ =>
    .table [(form.tag, .table
      [(form.lowKey, low.toValue), (form.highKey, high.toValue), ("period", period.toValue),
        ("initialProgress", .float phase)])]
  | drawn low high last _ =>
    .table [("random", .table
      [("min", low.toValue), ("max", high.toValue), ("lastValue", .float last)])]

/-- The values that signals are written as. -/
def toValues : List (Signal α) → List (Value α)
  | [] => []
  | signal :: rest => signal.toValue :: toValues rest

end

/-- Writes a signal under a key of a section. -/
def write (signal : Signal α) (entries : Section α) (key : String) : Section α :=
  entries.set key signal.toValue

end Modulation.Signal

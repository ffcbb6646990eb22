import Modulation.Provider.Choice
import Modulation.Provider.Phase

set_option autoImplicit false

/-! # Kinds of generated signals

A generated signal combines its arguments by an operator, takes an absolute value, clamps, follows a
waveform or draws at random. Each kind has a tag in the configuration. -/

namespace Modulation

/-- Operators that combine the values of their arguments. -/
inductive Operator where
  | add
  | sub
  | mul
  | div
  | mod
  | min
  | max
  deriving DecidableEq, Repr

/-- Waveforms of periodic signals: a ramp that starts over, a ramp there and back, and a sine. -/
inductive Waveform where
  | cycle
  | pingPong
  | pulse
  deriving DecidableEq, Repr

namespace Operator

/-- All operators, in the order in which they are listed. -/
def all : List Operator :=
  [add, sub, mul, div, mod, min, max]

/-- The tag of an operator. -/
def tag : Operator → String
  | add => "add"
  | sub => "sub"
  | mul => "mul"
  | div => "div"
  | mod => "mod"
  | min => "min"
  | max => "max"

/-- How many arguments an operator takes: two, or two and more where the order of combination is
    settled by a fold. -/
def arity : Operator → Arity
  | add | mul | min | max => ⟨2, none⟩
  | sub | div | mod => ⟨2, some 2⟩

variable {α : Type} [Numeric α]

/-- Applies an operation of two operands; other numbers of arguments have no result. -/
def binary (op : α → α → α) : List α → α
  | [a, b] => op a b
  | _ => Numeric.nan

/-- The value of an operator at the values of its arguments. -/
def apply : Operator → List α → α
  | add, values => values.foldl (· + ·) 0.0
  | mul, values => values.foldl (· * ·) 1.0
  | min, values => values.foldl Numeric.smaller Numeric.infinity
  | max, values => values.foldl Numeric.larger (-Numeric.infinity)
  | sub, values => binary (· - ·) values
  | div, values => binary (· / ·) values
  | mod, values => binary (· % ·) values

end Operator

namespace Waveform

/-- The tag of a waveform. -/
def tag : Waveform → String
  | cycle => "cycle"
  | pingPong => "pingpong"
  | pulse => "pulse"

/-- The key of the lower bound. -/
def lowKey : Waveform → String
  | cycle => "start"
  | pingPong | pulse => "min"

/-- The key of the upper bound. -/
def highKey : Waveform → String
  | cycle => "end"
  | pingPong | pulse => "max"

variable {α : Type} [Numeric α]

/-- The length of a lap: the way there and back counts twice. -/
def range : Waveform → α
  | cycle | pulse => 1.0
  | pingPong => 2.0

/-- How far between the bounds a waveform stands at a phase. -/
def level : Waveform → (phase : α) → α
  | cycle, phase => phase
  | pingPong, phase => if phase ≤ 1.0 then phase else 2.0 - phase
  | pulse, phase => Numeric.sin (Numeric.tau * phase) / 2.0 + 0.5

end Waveform

/-- Kinds of generated signals. -/
inductive SignalKind where
  | combine (op : Operator)
  | abs
  | clamp
  | wave (form : Waveform)
  | random
  deriving DecidableEq, Repr

namespace SignalKind

/-- All kinds, in the order in which they are listed. -/
def all : List SignalKind :=
  Operator.all.map combine ++ [abs, clamp, wave .cycle, wave .pingPong, wave .pulse, random]

/-- The tag of a kind. -/
def tag : SignalKind → String
  | combine op => op.tag
  | abs => "abs"
  | clamp => "clamp"
  | wave form => form.tag
  | random => "random"

/-- The kind with a tag. -/
def ofTag? (tag : String) : Option SignalKind :=
  all.find? fun kind => sameTag kind.tag tag

end SignalKind

end Modulation

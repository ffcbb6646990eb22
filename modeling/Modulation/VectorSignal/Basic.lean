import Modulation.Signal.Basic
import Modulation.VectorSignal.Kind

set_option autoImplicit false

/-! # Vector signals

A `VectorSignal` is a vector that changes from tick to tick. Like a signal it is a constant or is
generated from other signals, and holds its current value; vector signals are only made by the
functions below. -/

namespace Modulation

/-- A vector that changes from tick to tick. The last field of a generated signal is its current
    value. -/
inductive VectorSignal (α : Type) where
  | constant (value : Vec3 α)
  | combined (op : VectorOperator) (arguments : List (VectorSignal α)) (value : Vec3 α)
  | normalized (inner : VectorSignal α) (value : Vec3 α)
  | scaled (vector : VectorSignal α) (factor : Signal α) (value : Vec3 α)
  | rotated (about : VectorSignal α) (period radius : Signal α) (phase : α) (value : Vec3 α)
  | assembled (x y z : Signal α) (value : Vec3 α)

namespace VectorSignal

variable {α : Type}

/-- The current value. -/
def value : VectorSignal α → Vec3 α
  | constant value => value
  | combined _ _ value => value
  | normalized _ value => value
  | scaled _ _ value => value
  | rotated _ _ _ _ value => value
  | assembled _ _ _ value => value

/-- The kind of a generated vector signal. -/
def kind? : VectorSignal α → Option VectorKind
  | constant _ => none
  | combined op _ _ => some (.combine op)
  | normalized _ _ => some .normalize
  | scaled _ _ _ => some .scale
  | rotated _ _ _ _ _ => some .rotate
  | assembled _ _ _ _ => some .components

/-- Whether a vector signal is a constant. -/
def isConstant (signal : VectorSignal α) : Bool :=
  signal.kind?.isNone

/-- The phase of a rotation. -/
def phase? : VectorSignal α → Option α
  | rotated _ _ _ phase _ => some phase
  | _ => none

/-! ## Induction -/

/-- Induction over the vector signals in a vector signal. -/
theorem partInduction {motive : VectorSignal α → Prop}
    (constant : ∀ value, motive (constant value))
    (combined : ∀ op arguments value, (∀ argument ∈ arguments, motive argument) →
      motive (combined op arguments value))
    (normalized : ∀ inner value, motive inner → motive (normalized inner value))
    (scaled : ∀ vector factor value, motive vector → motive (scaled vector factor value))
    (rotated : ∀ about period radius phase value, motive about →
      motive (rotated about period radius phase value))
    (assembled : ∀ x y z value, motive (assembled x y z value)) (signal : VectorSignal α) :
    motive signal :=
  @VectorSignal.rec α motive (fun arguments => ∀ argument ∈ arguments, motive argument) constant
    combined normalized scaled rotated assembled (fun _ hnone => absurd hnone List.not_mem_nil)
    (fun _ _ hfirst hrest => List.forall_mem_cons.2 ⟨hfirst, hrest⟩) signal

/-! ## Building vector signals -/

variable [Numeric α]

/-- Combines arguments, however many there are. -/
def combine (op : VectorOperator) (arguments : List (VectorSignal α)) : VectorSignal α :=
  combined op arguments (op.apply (arguments.map value))

/-- Combines arguments if there are as many as the operator admits. -/
def combine? (op : VectorOperator) (arguments : List (VectorSignal α)) :
    Except Fault (VectorSignal α) :=
  (op.arity.check op.tag "" arguments).map (combine op)

/-- The difference of two vector signals. -/
def sub (a b : VectorSignal α) : VectorSignal α :=
  combine .sub [a, b]

/-- The cross product of two vector signals. -/
def cross (a b : VectorSignal α) : VectorSignal α :=
  combine .cross [a, b]

/-- A vector signal brought to length one. -/
def normalize (inner : VectorSignal α) : VectorSignal α :=
  normalized inner inner.value.normalize

/-- A vector signal times a signal. -/
def scale (vector : VectorSignal α) (factor : Signal α) : VectorSignal α :=
  scaled vector factor (vector.value.scale factor.value)

/-- The point of a circle around an axis at a phase. The circle starts on the level of the upward
    axis and is then brought to the axis; an axis without a direction counts as the upward one. -/
def onCircle (axis : Vec3 α) (radius phase : α) : Vec3 α :=
  let angle := Numeric.tau * phase
  let level : Vec3 α := ⟨Numeric.cos angle, 0.0, Numeric.sin angle⟩
  (Rotation.fromUp (axis.normalize?.getD Vec3.up)).apply (level.scale radius)

/-- A rotation at a given phase. -/
def atPhase (about : VectorSignal α) (period radius : Signal α) (phase : α) : VectorSignal α :=
  rotated about period radius phase (onCircle about.value radius.value phase)

/-- The length of a lap of a rotation. -/
def rotationRange : α := 1.0

/-- A rotation that starts at an initial progress. -/
def rotate (about : VectorSignal α) (period radius : Signal α) (initial : α) : VectorSignal α :=
  atPhase about period radius (startPhase initial rotationRange)

/-- A vector with a signal for each component. -/
def components (x y z : Signal α) : VectorSignal α :=
  assembled x y z ⟨x.value, y.value, z.value⟩

/-- A vector with a signal for each component, which is a constant when all of them are. -/
def ofComponents : (x y z : Signal α) → VectorSignal α
  | .constant x, .constant y, .constant z => constant ⟨x, y, z⟩
  | x, y, z => components x y z

/-! ## Comparison -/

mutual

/-- Whether two vector signals agree in every part, phases and current values included. -/
def same : VectorSignal α → VectorSignal α → Bool
  | constant v, constant v' => v == v'
  | combined op arguments v, combined op' arguments' v' =>
    op == op' && sameAll arguments arguments' && v == v'
  | normalized inner v, normalized inner' v' => same inner inner' && v == v'
  | scaled vector factor v, scaled vector' factor' v' =>
    same vector vector' && factor.same factor' && v == v'
  | rotated about period radius phase v, rotated about' period' radius' phase' v' =>
    same about about' && period.same period' && radius.same radius' && phase == phase' && v == v'
  | assembled x y z v, assembled x' y' z' v' =>
    x.same x' && y.same y' && z.same z' && v == v'
  | _, _ => false

/-- Whether two lists of vector signals agree. -/
def sameAll : List (VectorSignal α) → List (VectorSignal α) → Bool
  | [], [] => true
  | a :: rest, b :: rest' => same a b && sameAll rest rest'
  | _, _ => false

end

end VectorSignal

end Modulation

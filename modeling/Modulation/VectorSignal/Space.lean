import Modulation.Numeric

set_option autoImplicit false

/-! # Vectors in space

Vectors of three components, and the rotation that brings the upward axis to a given direction. The
rotation is a unit quaternion: the cross product of the two directions beside one more than their
dot product points along the half angle, so that no angle has to be computed. It is undefined for
opposite directions, where any half turn about a level axis will do, and it is left out for
directions that agree up to rounding. -/

namespace Modulation

/-- A vector of three components. -/
structure Vec3 (α : Type) where
  x : α
  y : α
  z : α
  deriving DecidableEq, Repr

namespace Vec3

variable {α : Type}

instance [BEq α] : BEq (Vec3 α) where
  beq a b := a.x == b.x && a.y == b.y && a.z == b.z

/-- Applies a function to each component. -/
def map (f : α → α) (v : Vec3 α) : Vec3 α :=
  ⟨f v.x, f v.y, f v.z⟩

/-- Combines two vectors component by component. -/
def zipWith (f : α → α → α) (a b : Vec3 α) : Vec3 α :=
  ⟨f a.x b.x, f a.y b.y, f a.z b.z⟩

/-- The vector whose components are all the same. -/
def splat (x : α) : Vec3 α :=
  ⟨x, x, x⟩

variable [Numeric α]

/-- The sum of two vectors. -/
def add (a b : Vec3 α) : Vec3 α :=
  zipWith (· + ·) a b

/-- The difference of two vectors. -/
def sub (a b : Vec3 α) : Vec3 α :=
  zipWith (· - ·) a b

/-- The product of two vectors component by component. -/
def mul (a b : Vec3 α) : Vec3 α :=
  zipWith (· * ·) a b

/-- A vector times a number. -/
def scale (v : Vec3 α) (factor : α) : Vec3 α :=
  v.map (· * factor)

/-- The dot product. -/
def dot (a b : Vec3 α) : α :=
  a.x * b.x + a.y * b.y + a.z * b.z

/-- The cross product. -/
def cross (a b : Vec3 α) : Vec3 α :=
  ⟨a.y * b.z - b.y * a.z, a.z * b.x - b.z * a.x, a.x * b.y - b.x * a.y⟩

/-- The length. -/
def length (v : Vec3 α) : α :=
  Numeric.sqrt (v.dot v)

/-- The vector of length one in the same direction; there is none for a vector without length. -/
def normalize (v : Vec3 α) : Vec3 α :=
  v.scale (1.0 / v.length)

/-- The vector of length one in the same direction, if the length has a finite inverse. -/
def normalize? (v : Vec3 α) : Option (Vec3 α) :=
  let inverse := 1.0 / v.length
  if inverse < Numeric.infinity ∧ 0.0 < inverse then some (v.scale inverse) else none

/-- The upward axis. -/
def up : Vec3 α :=
  ⟨0.0, 1.0, 0.0⟩

end Vec3

/-- A rotation: the sine of its half angle along its axis, and the cosine of its half angle. -/
structure Rotation (α : Type) where
  vector : Vec3 α
  scalar : α

namespace Rotation

variable {α : Type} [Numeric α]

/-- How close to one the cosine of an angle is taken for one: twice the unit of rounding. -/
def alignment : α :=
  1.0 - 2.0 * 2.220446049250313e-16

/-- The rotation that brings the upward axis to a direction of length one. -/
def fromUp (direction : Vec3 α) : Rotation α :=
  let cosine := Vec3.up.dot direction
  if cosine > alignment then ⟨Vec3.splat 0.0, 1.0⟩
  else if cosine < -alignment then
    let half := Numeric.pi * 0.5
    let axis : Vec3 α := ⟨-0.0, 0.0, -1.0⟩
    ⟨axis.scale (Numeric.sin half), Numeric.cos half⟩
  else
    let vector := Vec3.up.cross direction
    let scalar := 1.0 + cosine
    let inverse :=
      1.0 / Numeric.sqrt
        (vector.x * vector.x + vector.y * vector.y + vector.z * vector.z + scalar * scalar)
    ⟨vector.scale inverse, scalar * inverse⟩

/-- Rotates a vector. -/
def apply (rotation : Rotation α) (v : Vec3 α) : Vec3 α :=
  let b := rotation.vector
  let w := rotation.scalar
  ((v.scale (w * w - b.dot b)).add (b.scale (v.dot b * 2.0))).add ((b.cross v).scale (w * 2.0))

end Rotation

end Modulation

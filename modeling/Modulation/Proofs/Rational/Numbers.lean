import Mathlib
import Modulation.Proofs.Numeric.Laws
import Modulation.Random.Source

set_option autoImplicit false

/-! # Rationals as the numbers of signals

`Exact` reads the arithmetic of signals over the rationals, where nothing is rounded. Rationals have
no square roots, sines and cosines, no number above all others and none that is not a number; what
stands for these is given with the number system (`ExactFunctions`), and all that is asked of it is
that a sine lies between minus one and one. `Shares` are the sources that keep to what is promised
of a source: the numbers that they give are in `[0, 1)`.

The lemmas tagged for `simp` take each operation to the operation of rationals that it is. -/

namespace Modulation

/-- What stands for the functions and values that the rationals do not have. -/
structure ExactFunctions where
  sqrt : ℚ → ℚ
  sin : ℚ → ℚ
  cos : ℚ → ℚ
  infinity : ℚ
  nan : ℚ
  abs_sin_le : ∀ x, |sin x| ≤ 1

/-- A rational as a number of signals. -/
@[ext]
structure Exact (functions : ExactFunctions) where
  rat : ℚ

namespace Exact

variable {f : ExactFunctions}

/-- The whole part of a rational, without its fraction. -/
def whole (x : ℚ) : Int :=
  if 0 ≤ x then ⌊x⌋ else ⌈x⌉

/-- As for rationals, a quotient by zero is zero. -/
instance : Numeric (Exact f) where
  add x y := ⟨x.rat + y.rat⟩
  sub x y := ⟨x.rat - y.rat⟩
  mul x y := ⟨x.rat * y.rat⟩
  div x y := ⟨x.rat / y.rat⟩
  mod x y := ⟨x.rat - y.rat * whole (x.rat / y.rat)⟩
  neg x := ⟨-x.rat⟩
  lt x y := x.rat < y.rat
  le x y := x.rat ≤ y.rat
  beq x y := x.rat == y.rat
  ofScientific mantissa negative exponent :=
    ⟨OfScientific.ofScientific mantissa negative exponent⟩
  decLT x y := inferInstanceAs (Decidable (x.rat < y.rat))
  decLE x y := inferInstanceAs (Decidable (x.rat ≤ y.rat))
  ofInt n := ⟨n⟩
  abs x := ⟨|x.rat|⟩
  sqrt x := ⟨f.sqrt x.rat⟩
  sin x := ⟨f.sin x.rat⟩
  cos x := ⟨f.cos x.rat⟩
  infinity := ⟨f.infinity⟩
  nan := ⟨f.nan⟩

@[simp] theorem rat_add (x y : Exact f) : (x + y).rat = x.rat + y.rat := rfl

@[simp] theorem rat_sub (x y : Exact f) : (x - y).rat = x.rat - y.rat := rfl

@[simp] theorem rat_mul (x y : Exact f) : (x * y).rat = x.rat * y.rat := rfl

@[simp] theorem rat_div (x y : Exact f) : (x / y).rat = x.rat / y.rat := rfl

@[simp] theorem rat_mod (x y : Exact f) :
    (x % y).rat = x.rat - y.rat * whole (x.rat / y.rat) := rfl

@[simp] theorem rat_abs (x : Exact f) : (Numeric.abs x).rat = |x.rat| := rfl

@[simp] theorem rat_sin (x : Exact f) : (Numeric.sin x).rat = f.sin x.rat := rfl

@[simp] theorem rat_ofInt (n : Int) : (Numeric.ofInt n : Exact f).rat = n := rfl

@[simp] theorem lt_iff (x y : Exact f) : x < y ↔ x.rat < y.rat := Iff.rfl

@[simp] theorem le_iff (x y : Exact f) : x ≤ y ↔ x.rat ≤ y.rat := Iff.rfl

@[simp] theorem rat_ofScientific (mantissa : Nat) (negative : Bool) (exponent : Nat) :
    (OfScientific.ofScientific mantissa negative exponent : Exact f).rat
      = OfScientific.ofScientific mantissa negative exponent := rfl

theorem rat_zero : (0.0 : Exact f).rat = 0 := by
  norm_num

theorem rat_one : (1.0 : Exact f).rat = 1 := by
  norm_num

theorem rat_two : (2.0 : Exact f).rat = 2 := by
  norm_num

instance : Numeric.Lawful (Exact f) where
  lt_asymm {x y} (h : x.rat < y.rat) := h.not_gt
  abs_abs x := Exact.ext (abs_abs x.rat)

end Exact

/-- An endless list of numbers in `[0, 1)`, of which the head is drawn first. -/
structure Shares (f : ExactFunctions) where
  draws : Draws (Exact f)
  nonneg : ∀ n, 0 ≤ (draws n).rat
  lt_one : ∀ n, (draws n).rat < 1

instance {f : ExactFunctions} : RandomSource (Shares f) (Exact f) where
  next shares :=
    (shares.draws 0,
      { draws := fun n => shares.draws (n + 1)
        nonneg := fun n => shares.nonneg (n + 1)
        lt_one := fun n => shares.lt_one (n + 1) })

end Modulation

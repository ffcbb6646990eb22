import Modulation.Proofs.Binary64.Order

set_option autoImplicit false

/-! # Interpolation between doubles

An operation on what is no number gives no number. Between two doubles of which neither exceeds the
other, interpolation gives the same number from either end (`sameNumber_lerp_swap`): they are equal,
or they are the two zeros, or one of them is no number, and then neither result is. -/

namespace Modulation.Binary64

open Float.Model (UnpackedFloat)
open Float.Model.UnpackedFloat

/-- Two doubles are equal as numbers, or both are no number. -/
def SameNumber (x y : Float) : Prop :=
  (x == y) = true ∨ x.isNaN = true ∧ y.isNaN = true

theorem SameNumber.refl (x : Float) : SameNumber x x := by
  cases hx : x.isNaN with
  | true => exact Or.inr ⟨hx, hx⟩
  | false =>
    refine Or.inl (Float.beq_self_iff.2 fun hnan => ?_)
    rw [Float.isNaN_eq_decide_eq_nan, hnan] at hx
    exact absurd hx (by decide)

/-! ## What is no number -/

/-- What is packed from no number is no number. -/
theorem isNaN_of_eq_notANumber {u : UnpackedFloat} (h : u = .notANumber) :
    (Float.ofModel (Float.Model.pack u)).isNaN = true := by
  rw [h]
  rfl

theorem isNaN_add {x y : Float} (h : x.isNaN = true ∨ y.isNaN = true) :
    (x + y).isNaN = true := by
  refine isNaN_of_eq_notANumber (u := UnpackedFloat.add _ x.toModel.unpack y.toModel.unpack) ?_
  rcases h with h | h
  · rw [(isNaN_iff_unpack _).1 h]
    rfl
  · rw [(isNaN_iff_unpack _).1 h]
    cases x.toModel.unpack <;> rfl

theorem isNaN_sub {x y : Float} (h : x.isNaN = true ∨ y.isNaN = true) :
    (x - y).isNaN = true := by
  refine isNaN_of_eq_notANumber (u := UnpackedFloat.sub _ x.toModel.unpack y.toModel.unpack) ?_
  rcases h with h | h
  · rw [(isNaN_iff_unpack _).1 h]
    rfl
  · rw [(isNaN_iff_unpack _).1 h]
    cases x.toModel.unpack <;> rfl

theorem isNaN_mul_left {x : Float} (h : x.isNaN = true) (y : Float) : (x * y).isNaN = true := by
  refine isNaN_of_eq_notANumber (u := UnpackedFloat.mul _ x.toModel.unpack y.toModel.unpack) ?_
  rw [(isNaN_iff_unpack _).1 h]
  rfl

/-- There is no number a share of the way between two ends of which one is no number. -/
theorem isNaN_lerp {low high : Float} (h : low.isNaN = true ∨ high.isNaN = true) (t : Float) :
    (Numeric.lerp low high t).isNaN = true :=
  isNaN_add (Or.inr (isNaN_mul_left (isNaN_sub h.symm) t))

/-! ## Zeros -/

theorem ofModel_pack_zero (sign : Sign) :
    Float.ofModel (Float.Model.pack (.zero sign)) = 0
      ∨ Float.ofModel (Float.Model.pack (.zero sign)) = -0 := by
  cases sign with
  | positive => exact Or.inl (by decide +kernel)
  | negative => exact Or.inr (by decide +kernel)

/-- The two zeros times a double are zeros, or both are no number. -/
theorem zero_mul_cases (t : Float) :
    ((0 * t).isNaN = true ∧ (-0 * t).isNaN = true)
      ∨ (0 * t = 0 ∨ 0 * t = -0) ∧ (-0 * t = 0 ∨ -0 * t = -0) := by
  have hzero : (0 : Float).toModel.unpack = .zero .positive := rfl
  have hminus : (-0 : Float).toModel.unpack = .zero .negative := rfl
  have hproduct : ∀ x : Float, x * t
      = .ofModel (.pack (UnpackedFloat.mul _ x.toModel.unpack t.toModel.unpack)) := fun _ => rfl
  rw [hproduct, hproduct, hzero, hminus]
  cases t.toModel.unpack with
  | infinity sign => exact Or.inl ⟨isNaN_of_eq_notANumber rfl, isNaN_of_eq_notANumber rfl⟩
  | notANumber => exact Or.inl ⟨isNaN_of_eq_notANumber rfl, isNaN_of_eq_notANumber rfl⟩
  | zero sign => exact Or.inr ⟨ofModel_pack_zero _, ofModel_pack_zero _⟩
  | finite sign mantissa exponent hpositive =>
    exact Or.inr ⟨ofModel_pack_zero _, ofModel_pack_zero _⟩

/-- Between the two zeros there is no other number. -/
theorem sameNumber_lerp_zeros (t : Float) :
    SameNumber (Numeric.lerp 0 (-0) t) (Numeric.lerp (-0) 0 t) := by
  have hfall : (-0 - 0 : Float) = -0 := by decide +kernel
  have hrise : (0 - -0 : Float) = 0 := by decide +kernel
  unfold Numeric.lerp
  rw [hfall, hrise]
  rcases zero_mul_cases t with ⟨hplus, hminus⟩ | ⟨hplus, hminus⟩
  · exact Or.inr ⟨isNaN_add (Or.inr hminus), isNaN_add (Or.inr hplus)⟩
  · rcases hplus with hplus | hplus <;> rcases hminus with hminus | hminus <;>
      rw [hplus, hminus] <;> exact Or.inl (by decide +kernel)

/-! ## Interpolation from either end -/

theorem SameNumber.symm {x y : Float} (h : SameNumber x y) : SameNumber y x := by
  rcases h with h | ⟨hx, hy⟩
  · exact Or.inl (BEq.symm h)
  · exact Or.inr ⟨hy, hx⟩

/-- Where neither end exceeds the other, interpolation gives the same number from either end. -/
theorem sameNumber_lerp_swap {low high : Float} (h : ¬ low > high) (h' : ¬ high > low)
    (t : Float) : SameNumber (Numeric.lerp low high t) (Numeric.lerp high low t) := by
  cases hlow : low.isNaN with
  | true => exact Or.inr ⟨isNaN_lerp (Or.inl hlow) t, isNaN_lerp (Or.inr hlow) t⟩
  | false =>
    cases hhigh : high.isNaN with
    | true => exact Or.inr ⟨isNaN_lerp (Or.inr hhigh) t, isNaN_lerp (Or.inl hhigh) t⟩
    | false =>
      obtain ⟨-, -, hequal⟩ := Float.beq_iff_ne_nan_and_eq.1 (beq_of_not_lt hlow hhigh h' h)
      rcases hequal with rfl | ⟨rfl, rfl⟩ | ⟨rfl, rfl⟩
      · exact .refl _
      · exact sameNumber_lerp_zeros t
      · exact (sameNumber_lerp_zeros t).symm

end Modulation.Binary64

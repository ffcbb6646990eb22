import Modulation.Proofs.Binary64.Rounding

set_option autoImplicit false

/-! # Rounded sums

The sum of two finite doubles is their exact sum, rounded. A sum is therefore on the side of zero on
which the exact sum is (`zero_le_add`, `sub_le_zero`), and it is finite unless the exact sum is as
far from zero as the middle after the greatest double (`isFinite_add`). -/

namespace Modulation.Binary64

open Float.Model (Format UnpackedFloat)
open Float.Model.UnpackedFloat

/-! ## Exact sums -/

/-- What the sum of two unpacked doubles that are finite is: their exact sum, as one of the two or
    zero, or the exact sum rounded. -/
inductive Sum (u v : UnpackedFloat) : UnpackedFloat → Prop where
  | exact {w : UnpackedFloat} (hfinite : w.isFinite = true) (hvalue : value w = value u + value v)
      (hfits : Fits u → Fits v → Fits w) : Sum u v w
  | rounded {mantissa exponent : Int} (hvalue : (mantissa : ℚ) * 2 ^ exponent = value u + value v) :
      Sum u v (normalize .binary64 mantissa exponent .positive)

theorem apply_decreaseExponent {s : Sign} {mantissa : Nat} {exponent target : Int}
    (h : target ≤ exponent) :
    (s.apply (decreaseExponent mantissa exponent target).1 : ℚ) * 2 ^ target
      = s.apply mantissa * 2 ^ exponent := by
  have hvalue := decreaseExponent_value mantissa exponent target
  rw [decreaseExponent_exponent h] at hvalue
  cases s with
  | positive => exact hvalue
  | negative =>
    simp only [Sign.apply, Int.cast_neg, neg_mul]
    exact congrArg Neg.neg hvalue

theorem sum_add {u v : UnpackedFloat} (hu : u.isFinite = true) (hv : v.isFinite = true) :
    Sum u v (UnpackedFloat.add .binary64 u v) := by
  cases u with
  | notANumber => cases hu
  | infinity => cases hu
  | zero s =>
    cases v with
    | notANumber => cases hv
    | infinity => cases hv
    | zero s' =>
      have hvalue : (0 : ℚ) = 0 + 0 := (add_zero 0).symm
      cases s <;> cases s' <;> exact .exact rfl hvalue fun _ _ => trivial
    | finite => exact .exact rfl (zero_add _).symm fun _ h => h
  | finite s mantissa exponent =>
    cases v with
    | notANumber => cases hv
    | infinity => cases hv
    | zero => exact .exact rfl (add_zero _).symm fun h _ => h
    | finite s' mantissa' exponent' =>
      refine .rounded ?_
      rw [Int.cast_add, add_mul]
      exact congrArg₂ (· + ·) (apply_decreaseExponent (min_le_left _ _))
        (apply_decreaseExponent (min_le_right _ _))

theorem Sum.sided {s : Sign} {u v w : UnpackedFloat} (hsum : Sum u v w)
    (h : OnSide s (value u + value v)) : Sided s w := by
  cases hsum with
  | exact hfinite hvalue => exact sided_of_onSide hfinite (by rwa [hvalue])
  | rounded hvalue =>
    rw [← hvalue] at h
    exact sided_normalize (onSide_scaled.1 h)

theorem Sum.fits {u v w : UnpackedFloat} (hsum : Sum u v w) (hu : Fits u) (hv : Fits v)
    (h : |value u + value v| < (2 ^ 54 - 1) * halfStep) : Fits w := by
  cases hsum with
  | exact _ _ hfits => exact hfits hu hv
  | rounded hvalue =>
    rw [← hvalue] at h
    exact fits_normalize h

theorem Sum.exists_sided {u v w : UnpackedFloat} (hsum : Sum u v w) : ∃ s, Sided s w := by
  rcases le_total 0 (value u + value v) with h | h
  · exact ⟨.positive, hsum.sided h⟩
  · exact ⟨.negative, hsum.sided h⟩

/-- Subtraction adds the number on the other side of zero. -/
theorem sub_eq_add_opposite (u v : UnpackedFloat) :
    UnpackedFloat.sub .binary64 u v = UnpackedFloat.add .binary64 u v.neg := by
  rcases u with s | _ | s | ⟨s, mantissa, exponent, hpositive⟩ <;>
    rcases v with s' | _ | s' | ⟨s', mantissa', exponent', hpositive'⟩ <;> try rfl
  -- Two finite numbers are left, whose mantissas are subtracted.
  cases s' with
  | positive => rfl
  | negative =>
    show UnpackedFloat.normalize _ (_ - -_) _ _ = UnpackedFloat.normalize _ (_ + _) _ _
    rw [sub_neg_eq_add]
    rfl

theorem value_neg (u : UnpackedFloat) : value u.neg = -value u := by
  rcases u with _ | _ | _ | ⟨_ | _, mantissa, exponent, hpositive⟩ <;>
    simp [UnpackedFloat.neg, value, Sign.apply]

theorem not_isFinite_unpacked_add {u v : UnpackedFloat}
    (h : u.isFinite = false ∨ v.isFinite = false) :
    (UnpackedFloat.add .binary64 u v).isFinite = false := by
  rcases u with s | _ | s | ⟨s, mantissa, exponent, hpositive⟩ <;>
    rcases v with s' | _ | s' | ⟨s', mantissa', exponent', hpositive'⟩ <;>
    first
    | rfl
    | (cases s <;> cases s' <;> rfl)
    | simp [UnpackedFloat.isFinite] at h

theorem sided_sub_infinity {u : UnpackedFloat} (hu : u.isFinite = true) (s : Sign) :
    Sided (-s) (UnpackedFloat.sub .binary64 u (.infinity s)) := by
  cases u with
  | notANumber => cases hu
  | infinity => cases hu
  | zero => rfl
  | finite => rfl

theorem exists_sided_sub {u v : UnpackedFloat} (hu : u.isFinite = true) (hv : v ≠ .notANumber) :
    ∃ s, Sided s (UnpackedFloat.sub .binary64 u v) := by
  cases v with
  | notANumber => exact absurd rfl hv
  | infinity s => exact ⟨-s, sided_sub_infinity hu s⟩
  | zero s =>
    rw [sub_eq_add_opposite]
    exact (sum_add hu rfl).exists_sided
  | finite s mantissa exponent hpositive =>
    rw [sub_eq_add_opposite]
    exact (sum_add hu rfl).exists_sided

/-! ## Sums of doubles -/

theorem fits_unpack {x : Float} (h : x.isFinite = true) : Fits x.toModel.unpack := by
  rw [isFinite_iff] at h
  have hunpacked := unpacked x
  generalize x.toModel.unpack = u at hunpacked ⊢
  cases hunpacked with
  | zero => trivial
  | finite =>
    show exponentOf (magnitude x) ≤ 971
    unfold exponentOf
    unfold infinityWord at h
    split <;> omega
  | infinity hinfinity => omega
  | notANumber hnan => omega

/-- A sum is not negative if the exact sum is not. -/
theorem zero_le_add {x y : Float} (hx : x.isFinite = true) (hy : y.isFinite = true)
    (h : 0 ≤ exact x + exact y) : 0.0 ≤ x + y := by
  rw [zero_le_iff]
  exact sided_pack ((sum_add hx hy).sided h)

/-- A difference is not positive if the exact difference is not. -/
theorem sub_le_zero {x y : Float} (hx : x.isFinite = true) (hy : y.isFinite = true)
    (h : exact x ≤ exact y) : x - y ≤ 0.0 := by
  rw [le_zero_iff]
  refine sided_pack (u := UnpackedFloat.sub .binary64 x.toModel.unpack y.toModel.unpack) ?_
  have hneg : y.toModel.unpack.neg.isFinite = true := by
    revert hy
    show y.toModel.unpack.isFinite = true → _
    cases y.toModel.unpack <;> exact id
  have hside : value x.toModel.unpack + value y.toModel.unpack.neg ≤ 0 := by
    rw [value_neg]
    exact add_neg_nonpos_iff.2 h
  rw [sub_eq_add_opposite]
  exact (sum_add hx hneg).sided hside

/-- The greatest double is the one before infinity. -/
theorem distance_greatest : distance (infinityWord - 1) = (2 ^ 54 - 2) * halfStep := by
  have hexponent : exponentOf (infinityWord - 1) = 971 := by decide
  have hmantissa : mantissaOf (infinityWord - 1) = 2 ^ 53 - 1 := by decide
  rw [distance, hexponent, hmantissa, zpow_last]
  push_cast
  ring

theorem abs_exact_le {x : Float} (hx : x.isFinite = true) :
    |exact x| ≤ (2 ^ 54 - 2) * halfStep := by
  have hmagnitude := (isFinite_iff x).1 hx
  have hdistance : distance (magnitude x) ≤ (2 ^ 54 - 2) * halfStep :=
    distance_greatest ▸ strictMono_distance.monotone (Nat.le_sub_one_of_lt hmagnitude)
  have hnonneg := distance_nonneg (magnitude x)
  cases hsign : sign x with
  | positive => rwa [exact_of_positive hx hsign, abs_of_nonneg hnonneg]
  | negative => rwa [exact_of_negative hx hsign, abs_neg, abs_of_nonneg hnonneg]

/-- A sum is finite if the exact sum is not too far from zero. -/
theorem isFinite_add {x y : Float} (hx : x.isFinite = true) (hy : y.isFinite = true)
    (h : |exact x + exact y| < (2 ^ 54 - 1) * halfStep) : (x + y).isFinite = true :=
  isFinite_pack ((sum_add hx hy).fits (fits_unpack hx) (fits_unpack hy) h)

/-- A sum of which a part is not finite is not finite. -/
theorem not_isFinite_add {x y : Float} (h : x.isFinite = false ∨ y.isFinite = false) :
    (x + y).isFinite = false :=
  not_isFinite_pack (not_isFinite_unpacked_add h)

theorem not_isFinite_of_isNaN {x : Float} (h : x.isNaN = true) : x.isFinite = false := by
  show x.toModel.unpack.isFinite = false
  rw [(isNaN_iff_unpack x).1 h]
  rfl

theorem not_isNaN_of_isFinite {x : Float} (h : x.isFinite = true) : x.isNaN = false := by
  rw [Bool.eq_false_iff]
  intro hnan
  rw [not_isFinite_of_isNaN hnan] at h
  cases h

theorem not_isNaN_of_zero_le {x : Float} (h : 0.0 ≤ x) : x.isNaN = false := by
  rw [zero_le_iff] at h
  rw [Bool.eq_false_iff]
  exact fun hnan => h.ne_notANumber ((isNaN_iff_unpack x).1 hnan)

/-- Taking a number from a finite one gives a number. -/
theorem not_isNaN_sub {x y : Float} (hx : x.isFinite = true) (hy : y.isNaN = false) :
    (x - y).isNaN = false := by
  have hnumber : y.toModel.unpack ≠ .notANumber := fun hnan => by
    rw [(isNaN_iff_unpack y).2 hnan] at hy
    cases hy
  obtain ⟨s, hsided⟩ := exists_sided_sub hx hnumber
  rw [Bool.eq_false_iff, ne_eq, isNaN_iff_unpack]
  exact (sided_pack hsided).ne_notANumber

end Modulation.Binary64

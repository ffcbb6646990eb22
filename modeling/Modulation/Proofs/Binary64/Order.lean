import Modulation.Proofs.Binary64.Word

set_option autoImplicit false

/-! # The order of doubles

Two doubles compare in one of three ways unless one of them is no number (`compare_eq_none_iff`).
A double that does not exceed another is therefore at most the other (`le_of_not_lt`), and two
doubles of which neither exceeds the other are equal (`beq_of_not_lt`).

The larger of a lower bound and of the smaller of an upper bound and any double, be it no number,
lies between the bounds (`larger_smaller_between`), and it is the double where that lies between
them (`larger_smaller_beq`). -/

namespace Modulation.Binary64

open Float.Model (UnpackedFloat)
open Float.Model.UnpackedFloat

theorem le_iff (x y : Float) :
    x ≤ y ↔ ((UnpackedFloat.compare x.toModel.unpack y.toModel.unpack).any (·.isLE)) = true := by
  show decide (Float.Model.le x.toModel y.toModel = true) = true ↔ _
  rw [decide_eq_true_iff, Float.Model.le, UnpackedFloat.le]

theorem beq_iff (x y : Float) :
    (x == y) = true ↔ UnpackedFloat.compare x.toModel.unpack y.toModel.unpack = some .eq := by
  show Float.Model.beq x.toModel y.toModel = true ↔ _
  rw [Float.Model.beq, UnpackedFloat.beq, beq_iff_eq]

theorem isNaN_iff_unpack (x : Float) : x.isNaN = true ↔ x.toModel.unpack = .notANumber :=
  isNaN_iff

theorem compare_eq_none_iff (a b : UnpackedFloat) :
    UnpackedFloat.compare a b = none ↔ a = .notANumber ∨ b = .notANumber := by
  rcases a with (_ | _) | _ | _ | ⟨_ | _, _, _, _⟩ <;>
    rcases b with (_ | _) | _ | _ | ⟨_ | _, _, _, _⟩ <;> simp [UnpackedFloat.compare]

/-- Two doubles that are numbers compare in some way. -/
theorem exists_compare {x y : Float} (hx : x.isNaN = false) (hy : y.isNaN = false) :
    ∃ ordering, UnpackedFloat.compare x.toModel.unpack y.toModel.unpack = some ordering := by
  refine Option.ne_none_iff_exists'.1 fun hnone => ?_
  rcases (compare_eq_none_iff _ _).1 hnone with h | h
  · rw [(isNaN_iff_unpack x).2 h] at hx
    cases hx
  · rw [(isNaN_iff_unpack y).2 h] at hy
    cases hy

/-- A number that does not exceed another is at most the other. -/
theorem le_of_not_lt {x y : Float} (hx : x.isNaN = false) (hy : y.isNaN = false) (h : ¬ y < x) :
    x ≤ y := by
  obtain ⟨ordering, hordering⟩ := exists_compare hx hy
  rw [lt_iff, compare_swap, hordering] at h
  rw [le_iff, hordering]
  cases ordering with
  | lt => rfl
  | eq => rfl
  | gt => exact absurd rfl h

/-- What is at most another double does not exceed it. -/
theorem not_lt_of_le {x y : Float} (h : x ≤ y) : ¬ y < x := by
  intro hlt
  rw [le_iff] at h
  rw [lt_iff, compare_swap] at hlt
  cases hcompare : UnpackedFloat.compare x.toModel.unpack y.toModel.unpack with
  | none => simp [hcompare] at h
  | some ordering => cases ordering <;> simp [hcompare] at h hlt

/-- Two numbers of which neither exceeds the other are equal. -/
theorem beq_of_not_lt {x y : Float} (hx : x.isNaN = false) (hy : y.isNaN = false) (h : ¬ x < y)
    (h' : ¬ y < x) : (x == y) = true := by
  obtain ⟨ordering, hordering⟩ := exists_compare hx hy
  rw [lt_iff, hordering] at h
  rw [lt_iff, compare_swap, hordering] at h'
  rw [beq_iff, hordering]
  cases ordering with
  | lt => exact absurd rfl h
  | eq => rfl
  | gt => exact absurd rfl h'

/-- What is not above zero is not as much as something that is. -/
theorem not_le_of_le_zero {x y : Float} (hx : 0.0 < x) (hy : y ≤ 0.0) : ¬ x ≤ y := by
  have hzero : (0.0 : Float).toModel.unpack = .zero .positive := rfl
  have hsign : compare Sign.positive Sign.negative = .gt := rfl
  rw [lt_iff, hzero] at hx
  rw [le_iff, hzero] at hy
  rw [le_iff]
  revert hx hy
  generalize x.toModel.unpack = u
  generalize y.toModel.unpack = v
  rcases u with (_ | _) | _ | _ | ⟨_ | _, _, _, _⟩ <;>
    rcases v with (_ | _) | _ | _ | ⟨_ | _, _, _, _⟩ <;> simp [UnpackedFloat.compare, hsign]

theorem float_le_of_lt {x y : Float} (h : x < y) : x ≤ y := by
  rw [lt_iff] at h
  rw [le_iff, h]
  rfl

/-- A number is at most itself. -/
theorem float_le_refl {x : Float} (hx : x.isNaN = false) : x ≤ x :=
  le_of_not_lt hx hx fun h => float_lt_asymm h h

/-- What is at most a double and not below it is equal to it. -/
theorem beq_of_le_of_not_lt {x y : Float} (h : x ≤ y) (h' : ¬ x < y) : (x == y) = true := by
  rw [le_iff] at h
  rw [lt_iff] at h'
  rw [beq_iff]
  cases hcompare : UnpackedFloat.compare x.toModel.unpack y.toModel.unpack with
  | none => simp [hcompare] at h
  | some ordering =>
    cases ordering with
    | lt => exact absurd hcompare h'
    | eq => rfl
    | gt => simp [hcompare] at h

/-- Doubles of which one is at most the other are numbers. -/
theorem isNaN_eq_false_of_le {x y : Float} (h : x ≤ y) : x.isNaN = false ∧ y.isNaN = false := by
  have hsome : UnpackedFloat.compare x.toModel.unpack y.toModel.unpack ≠ none := by
    intro hnone
    rw [le_iff, hnone] at h
    cases h
  simpa [compare_eq_none_iff, ← isNaN_iff_unpack] using hsome

/-! ## The smaller and the larger of two doubles -/

/-- A double is no number just when it differs from itself. -/
theorem numeric_isNaN_eq (x : Float) : Numeric.isNaN x = x.isNaN := by
  rw [Numeric.isNaN, Float.isNaN_eq_decide_eq_nan]
  by_cases h : x = Float.nan
  · simp [h]
  · simp [h, Float.beq_self_iff]

/-- The smaller of a number and a double is the double only if that is below the number. -/
theorem smaller_eq {x : Float} (hx : x.isNaN = false) (y : Float) :
    Numeric.smaller x y = if y < x then y else x := by
  rw [Numeric.smaller, numeric_isNaN_eq, hx, if_neg Bool.false_ne_true]

/-- The larger of a number and a double is the double only if that is above the number. -/
theorem larger_eq {x : Float} (hx : x.isNaN = false) (y : Float) :
    Numeric.larger x y = if x < y then y else x := by
  rw [Numeric.larger, numeric_isNaN_eq, hx, if_neg Bool.false_ne_true]

section Between

variable {low high : Float}

/-- Between bounds that are numbers and in order lies what is kept between them, even if it was no
    number. -/
theorem larger_smaller_between (hlow : low.isNaN = false) (hhigh : high.isNaN = false)
    (horder : ¬ low > high) (x : Float) :
    low ≤ Numeric.larger low (Numeric.smaller high x)
      ∧ Numeric.larger low (Numeric.smaller high x) ≤ high := by
  have hbounds : low ≤ high := le_of_not_lt hlow hhigh horder
  rw [smaller_eq hhigh, larger_eq hlow]
  by_cases hbelow : x < high
  · rw [if_pos hbelow]
    by_cases habove : low < x
    · rw [if_pos habove]
      exact ⟨float_le_of_lt habove, float_le_of_lt hbelow⟩
    · rw [if_neg habove]
      exact ⟨float_le_refl hlow, hbounds⟩
  · rw [if_neg hbelow]
    split
    · exact ⟨hbounds, float_le_refl hhigh⟩
    · exact ⟨float_le_refl hlow, hbounds⟩

/-- What lies between the bounds already is kept as it is. -/
theorem larger_smaller_beq (horder : ¬ low > high) {x : Float} (hlow : low ≤ x)
    (hhigh : x ≤ high) : (Numeric.larger low (Numeric.smaller high x) == x) = true := by
  obtain ⟨hlowNumber, hnumber⟩ := isNaN_eq_false_of_le hlow
  obtain ⟨-, hhighNumber⟩ := isNaN_eq_false_of_le hhigh
  have hself : (x == x) = true :=
    beq_of_le_of_not_lt (float_le_refl hnumber) fun h => float_lt_asymm h h
  rw [smaller_eq hhighNumber, larger_eq hlowNumber]
  by_cases hbelow : x < high
  · rw [if_pos hbelow]
    by_cases habove : low < x
    · rw [if_pos habove]
      exact hself
    · rw [if_neg habove]
      exact beq_of_le_of_not_lt hlow habove
  · rw [if_neg hbelow]
    have hequal : (high == x) = true := BEq.symm (beq_of_le_of_not_lt hhigh hbelow)
    by_cases habove : low < high
    · rw [if_pos habove]
      exact hequal
    · -- The bounds and the double between them are all equal, perhaps as zeros of two signs.
      rw [if_neg habove]
      exact BEq.trans (beq_of_not_lt hlowNumber hhighNumber habove horder) hequal

end Between

end Modulation.Binary64

import Modulation.Proofs.Binary64.Magnitude

set_option autoImplicit false

/-! # Rounding

A mantissa and an exponent are rounded to a double. Rounding keeps the side of zero on which a number
is (`sided_normalize`), and it gives something finite below the middle between the greatest double
and the power of two after it (`fits_normalize`). Packing then changes neither (`sided_pack`,
`isFinite_pack`). -/

namespace Modulation.Binary64

open Float.Model (Format UnpackedFloat totalExponent)
open Float.Model.UnpackedFloat

/-! ## Sides of zero -/

/-- Unpacked bits stand for zero or for something of a sign. -/
def Sided (s : Sign) : UnpackedFloat → Prop
  | .notANumber => False
  | .zero _ => True
  | .infinity s' => s' = s
  | .finite s' _ _ _ => s' = s

theorem Sided.ne_notANumber {s : Sign} {u : UnpackedFloat} (h : Sided s u) : u ≠ .notANumber := by
  rintro rfl
  exact h

theorem Sided.value_nonneg {u : UnpackedFloat} (h : Sided .positive u) : 0 ≤ value u := by
  cases u with
  | finite s mantissa exponent hpositive =>
    cases h
    exact mul_nonneg (Nat.cast_nonneg _) (zpow_nonneg two_pos.le _)
  | notANumber => exact h.elim
  | infinity => exact le_rfl
  | zero => exact le_rfl

theorem zero_le_iff (x : Float) : 0.0 ≤ x ↔ Sided .positive x.toModel.unpack := by
  have hzero : (0.0 : Float).toModel.unpack = .zero .positive := rfl
  rw [le_iff, hzero]
  rcases x.toModel.unpack with (_ | _) | _ | _ | ⟨_ | _, _, _, _⟩ <;>
    simp [UnpackedFloat.compare, Sided]

theorem le_zero_iff (x : Float) : x ≤ 0.0 ↔ Sided .negative x.toModel.unpack := by
  have hzero : (0.0 : Float).toModel.unpack = .zero .positive := rfl
  rw [le_iff, hzero]
  rcases x.toModel.unpack with (_ | _) | _ | _ | ⟨_ | _, _, _, _⟩ <;>
    simp [UnpackedFloat.compare, Sided]

/-! ## Packing -/

/-- Unpacked bits are finite, with an exponent that a double can have. -/
def Fits : UnpackedFloat → Prop
  | .zero _ => True
  | .finite _ _ exponent _ => exponent ≤ 971
  | _ => False

theorem sided_packComponents {s : Sign} {exponent : BitVec 11} {mantissa : BitVec 52}
    (h : exponent = -1#11 → mantissa = 0#52) :
    Sided s (unpack .binary64 (packComponents .binary64 s exponent mantissa)) := by
  simp only [unpack, unpackExponent_packComponents, unpackMantissa_packComponents,
    unpackSign_packComponents, Sign.ofBitVec_toBitVec]
  split
  · next hmost =>
    rw [if_pos (h hmost)]
    rfl
  · split
    · split
      · trivial
      · rfl
    · rfl

theorem isFinite_packComponents {s : Sign} {exponent : BitVec 11} {mantissa : BitVec 52}
    (h : exponent ≠ -1#11) :
    (unpack .binary64 (packComponents .binary64 s exponent mantissa)).isFinite = true := by
  simp only [unpack, unpackExponent_packComponents, unpackMantissa_packComponents]
  rw [if_neg h]
  split
  · split <;> rfl
  · rfl

/-- A biased exponent below that of infinity is not that of infinity. -/
theorem ofNat_ne_allOnes {biased : Nat} (h : ¬ 2 ^ 11 ≤ biased + 1) :
    BitVec.ofNat 11 biased ≠ -1#11 := by
  intro hmost
  have hmost := congrArg BitVec.toNat hmost
  rw [BitVec.toNat_ofNat, Nat.mod_eq_of_lt (by omega)] at hmost
  have : (-1#11 : BitVec 11).toNat = 2047 := rfl
  omega

theorem sided_pack {s : Sign} {u : UnpackedFloat} (h : Sided s u) :
    Sided s (unpack .binary64 (UnpackedFloat.pack .binary64 u)) := by
  cases u with
  | notANumber => exact h.elim
  | zero s' =>
    cases s' <;> trivial
  | infinity s' =>
    cases h
    exact sided_packComponents fun _ => rfl
  | finite s' mantissa exponent hpositive =>
    cases h
    unfold UnpackedFloat.pack
    dsimp only
    split
    · exact sided_packComponents fun _ => rfl
    · next hbiased =>
      split
      · exact sided_packComponents fun hmost => absurd hmost (ofNat_ne_allOnes hbiased)
      · exact sided_packComponents nofun

theorem isFinite_pack {u : UnpackedFloat} (h : Fits u) :
    (Float.ofModel (Float.Model.pack u)).isFinite = true := by
  show (unpack .binary64 (UnpackedFloat.pack .binary64 u)).isFinite = true
  cases u with
  | notANumber => exact h.elim
  | infinity => exact h.elim
  | zero s => exact isFinite_packComponents nofun
  | finite s mantissa exponent hpositive =>
    unfold UnpackedFloat.pack
    dsimp only
    have hbiased : ¬ 2 ^ 11 ≤ (exponent + Format.binary64.exponentBias
        + Format.binary64.mantissaBitsWithoutImplicit).toNat + 1 := by
      show ¬ 2048 ≤ (exponent + 1023 + 52).toNat + 1
      unfold Fits at h
      omega
    rw [if_neg hbiased]
    split
    · exact isFinite_packComponents (ofNat_ne_allOnes hbiased)
    · exact isFinite_packComponents nofun

theorem not_isFinite_pack {u : UnpackedFloat} (h : u.isFinite = false) :
    (Float.ofModel (Float.Model.pack u)).isFinite = false := by
  cases u with
  | notANumber => rfl
  | infinity s => cases s <;> rfl
  | zero => cases h
  | finite => cases h

/-! ## Rounding -/

theorem mantissa_shiftRight (em : ExtendedMantissa) (k : Nat) :
    (em >>> k).mantissa = em.mantissa / 2 ^ k := by
  induction k with
  | zero => exact (Nat.div_one _).symm
  | succ k ih =>
    show (em >>> k).mantissa / 2 = _
    rw [ih, Nat.div_div_eq_div_mul, Nat.pow_succ]

theorem roundedMantissa_le (em : ExtendedMantissa) :
    em.roundedMantissa ≤ em.mantissa + em.roundBit.toNat := by
  obtain ⟨mantissa, roundBit, stickyBit⟩ := em
  cases roundBit <;> cases stickyBit <;>
    simp only [ExtendedMantissa.roundedMantissa, ExtendedMantissa.accuracy,
      Accuracy.roundToNearestEven, Bool.toNat_false, Bool.toNat_true] <;> omega

/-- A mantissa is rounded up only from the middle between two mantissas on. -/
theorem roundedMantissa_shiftRight_le (mantissa k : Nat) :
    2 * (ExtendedMantissa.mk mantissa false false >>> k).roundedMantissa * 2 ^ k
      ≤ 2 * mantissa + 2 ^ k := by
  have hrounded := roundedMantissa_le (ExtendedMantissa.mk mantissa false false >>> k)
  rw [mantissa_shiftRight] at hrounded
  generalize (ExtendedMantissa.mk mantissa false false >>> k).roundedMantissa = rounded at *
  cases k with
  | zero =>
    have hrounded : rounded ≤ mantissa / 2 ^ 0 + 0 := hrounded
    rw [Nat.pow_zero, Nat.div_one] at hrounded
    omega
  | succ k =>
    have hbit : (ExtendedMantissa.mk mantissa false false >>> (k + 1)).roundBit
        = (mantissa / 2 ^ k % 2 != 0) := by
      rw [← mantissa_shiftRight ⟨mantissa, false, false⟩ k]
      rfl
    rw [hbit] at hrounded
    -- With the round bit set, twice the rounded mantissa is one more than what was shifted less.
    have hhalf : 2 * rounded ≤ mantissa / 2 ^ k + 1 := by
      have hsplit : mantissa / 2 ^ (k + 1) = mantissa / 2 ^ k / 2 := by
        rw [Nat.div_div_eq_div_mul, Nat.pow_succ]
      rw [hsplit] at hrounded
      by_cases heven : mantissa / 2 ^ k % 2 = 0
      · rw [heven] at hrounded
        have hrounded : rounded ≤ mantissa / 2 ^ k / 2 := hrounded
        omega
      · have hodd : mantissa / 2 ^ k % 2 = 1 := by omega
        rw [hodd] at hrounded
        have hrounded : rounded ≤ mantissa / 2 ^ k / 2 + 1 := hrounded
        omega
    calc 2 * rounded * 2 ^ (k + 1)
        ≤ (mantissa / 2 ^ k + 1) * 2 ^ (k + 1) := Nat.mul_le_mul_right _ hhalf
      _ = 2 * (mantissa / 2 ^ k * 2 ^ k) + 2 ^ (k + 1) := by rw [Nat.pow_succ]; ring
      _ ≤ 2 * mantissa + 2 ^ (k + 1) := by
          have := Nat.div_mul_le_self mantissa (2 ^ k)
          omega

/-- What is below `2 ^ 1024` gets an exponent that a double can have. -/
theorem targetExponent_le {mantissa : Nat} {exponent : Int}
    (hexponent : mantissa = 0 → exponent ≤ 971)
    (h : (mantissa : ℚ) * 2 ^ exponent < 2 ^ (1024 : ℤ)) :
    Format.binary64.targetExponent (totalExponent mantissa exponent) ≤ 971 := by
  have hlog : (mantissa.log2 : ℤ) + exponent < 1024 := by
    by_cases hzero : mantissa = 0
    · have := hexponent hzero
      rw [hzero, Nat.log2_zero]
      omega
    · have hpower : (2 : ℚ) ^ ((mantissa.log2 : ℤ) + exponent) < 2 ^ (1024 : ℤ) :=
        calc (2 : ℚ) ^ ((mantissa.log2 : ℤ) + exponent)
            = (2 ^ mantissa.log2 : Nat) * 2 ^ exponent := by
              rw [zpow_add₀ two_ne_zero, zpow_natCast, Nat.cast_pow, Nat.cast_two]
          _ ≤ mantissa * 2 ^ exponent :=
              mul_le_mul_of_nonneg_right (Nat.cast_le.2 (Nat.log2_self_le hzero))
                (zpow_nonneg two_pos.le _)
          _ < 2 ^ (1024 : ℤ) := h
      exact (zpow_lt_zpow_iff_right₀ one_lt_two).1 hpower
  show max (mantissa.log2 + 1 + exponent - (53 : Nat)) (-1074 : ℤ) ≤ 971
  omega

/-- Half of what the two greatest doubles differ by. -/
def halfStep : ℚ :=
  2 ^ (970 : ℤ)

theorem halfStep_pos : 0 < halfStep :=
  zpow_pos two_pos _

theorem zpow_last : (2 : ℚ) ^ (971 : ℤ) = 2 * halfStep := by
  rw [halfStep, show (971 : ℤ) = 970 + 1 from rfl, zpow_add_one₀ two_ne_zero, mul_comm]

theorem zpow_beyond : (2 : ℚ) ^ (1024 : ℤ) = 2 ^ 54 * halfStep := by
  rw [halfStep, ← zpow_natCast, ← zpow_add₀ two_ne_zero]
  rfl

/-- Below the middle between the greatest double and `2 ^ 1024`, rounding gives a double. -/
theorem fits_roundWithAccuracy {s : Sign} {mantissa : Nat} {exponent : Int}
    (hexponent : exponent ≤ 971)
    (h : (mantissa : ℚ) * 2 ^ exponent < (2 ^ 54 - 1) * halfStep) :
    Fits (roundWithAccuracy .binary64 s mantissa exponent .exact) := by
  have hfirst : Format.binary64.targetExponent (totalExponent mantissa exponent) ≤ 971 :=
    targetExponent_le (fun _ => hexponent) (by rw [zpow_beyond]; linarith [halfStep_pos])
  unfold roundWithAccuracy
  generalize hshift : (Format.binary64.targetExponent (totalExponent mantissa exponent)
    - exponent).toNat = shift
  have hshifted : shiftToTargetExponent .binary64 mantissa exponent .exact
      = (ExtendedMantissa.mk mantissa false false >>> shift, exponent + shift) := by
    rw [← hshift]
    rfl
  rw [hshifted]
  dsimp only
  have hrounded := roundedMantissa_shiftRight_le mantissa shift
  generalize (ExtendedMantissa.mk mantissa false false >>> shift).roundedMantissa = rounded at *
  have hleast : exponent + shift ≤ 971 := by omega
  -- The rounded mantissa may be a bit longer, but then the exponent is not the greatest.
  have hbound : (rounded : ℚ) * 2 ^ (exponent + shift) < 2 ^ (1024 : ℤ) := by
    have hcast : (2 * rounded * 2 ^ shift : ℚ) ≤ 2 * mantissa + 2 ^ shift := by
      exact_mod_cast hrounded
    have hscaled := mul_le_mul_of_nonneg_right hcast (zpow_pos two_pos exponent).le
    have hsplit : (2 : ℚ) ^ (exponent + shift) = 2 ^ shift * 2 ^ exponent := by
      rw [zpow_add₀ two_ne_zero, zpow_natCast, mul_comm]
    have hmost : (2 : ℚ) ^ (exponent + shift) ≤ 2 ^ (971 : ℤ) :=
      zpow_le_zpow_right₀ one_le_two hleast
    rw [hsplit, zpow_last] at hmost
    rw [hsplit, zpow_beyond]
    linarith
  have hlast := targetExponent_le (fun _ => hleast) hbound
  split
  · trivial
  · show exponent + shift + _ ≤ 971
    omega

theorem sided_roundWithAccuracy (s : Sign) (mantissa : Nat) (exponent : Int) (accuracy : Accuracy) :
    Sided s (roundWithAccuracy .binary64 s mantissa exponent accuracy) := by
  unfold roundWithAccuracy
  dsimp only
  split
  · trivial
  · rfl

/-- Lowering the exponent keeps what mantissa and exponent stand for. -/
theorem decreaseExponent_value (mantissa : Nat) (exponent target : Int) :
    ((decreaseExponent mantissa exponent target).1 : ℚ)
      * 2 ^ (decreaseExponent mantissa exponent target).2 = mantissa * 2 ^ exponent := by
  show ((mantissa <<< (exponent - target).toNat : Nat) : ℚ)
    * 2 ^ (exponent - (exponent - target).toNat) = _
  generalize (exponent - target).toNat = shift
  have hpower : (2 : ℚ) ^ (exponent - shift) * 2 ^ (shift : ℤ) = 2 ^ exponent := by
    rw [← zpow_add₀ two_ne_zero, sub_add_cancel]
  rw [Nat.shiftLeft_eq, ← hpower, zpow_natCast]
  push_cast
  ring

theorem decreaseExponent_exponent {mantissa : Nat} {exponent target : Int}
    (h : target ≤ exponent) : (decreaseExponent mantissa exponent target).2 = target := by
  show exponent - ((exponent - target).toNat : ℤ) = target
  omega

theorem fits_round {s : Sign} {mantissa : Nat} {exponent : Int} (hpositive : mantissa ≠ 0)
    (h : (mantissa : ℚ) * 2 ^ exponent < (2 ^ 54 - 1) * halfStep) :
    Fits (UnpackedFloat.round .binary64 s mantissa exponent) := by
  have htarget : Format.binary64.targetExponent (totalExponent mantissa exponent) ≤ 971 :=
    targetExponent_le (fun hzero => absurd hzero hpositive)
      (by rw [zpow_beyond]; linarith [halfStep_pos])
  rw [← decreaseExponent_value mantissa exponent
    (Format.binary64.targetExponent (totalExponent mantissa exponent))] at h
  refine fits_roundWithAccuracy ?_ h
  show exponent - ((exponent - _ : ℤ).toNat : ℤ) ≤ 971
  omega

/-! ## Rounding a number with a sign -/

/-- A number is zero or has a sign. -/
def OnSide : Sign → ℚ → Prop
  | .positive, q => 0 ≤ q
  | .negative, q => q ≤ 0

/-- What a mantissa with a sign and an exponent stand for is on the side of the mantissa. -/
theorem onSide_scaled {s : Sign} {mantissa exponent : Int} :
    OnSide s ((mantissa : ℚ) * 2 ^ exponent) ↔ OnSide s mantissa := by
  have hpower : (0 : ℚ) < 2 ^ exponent := zpow_pos two_pos _
  cases s with
  | positive => exact mul_nonneg_iff_of_pos_right hpower
  | negative =>
    show (mantissa : ℚ) * 2 ^ exponent ≤ 0 ↔ (mantissa : ℚ) ≤ 0
    rw [← neg_nonneg, ← neg_mul, mul_nonneg_iff_of_pos_right hpower, neg_nonneg]

theorem sided_of_onSide {s : Sign} {u : UnpackedFloat} (hfinite : u.isFinite = true)
    (h : OnSide s (value u)) : Sided s u := by
  cases u with
  | notANumber => cases hfinite
  | infinity => cases hfinite
  | zero => trivial
  | finite s' mantissa exponent hpositive =>
    have hside : OnSide s (s'.apply mantissa : ℤ) := onSide_scaled.1 h
    have hcast : (0 : ℚ) < mantissa := Nat.cast_pos.2 hpositive
    cases s <;> cases s' <;> simp only [OnSide, Sign.apply] at hside <;>
      first
      | rfl
      | (push_cast at hside; linarith)

theorem sided_normalize {s : Sign} {mantissa exponent : Int} (h : OnSide s mantissa) :
    Sided s (normalize .binary64 mantissa exponent .positive) := by
  unfold UnpackedFloat.normalize
  cases s with
  | positive =>
    have h : 0 ≤ mantissa := Int.cast_nonneg_iff.1 h
    split
    · next hlt =>
      rw [compare_lt_iff_lt] at hlt
      omega
    · trivial
    · exact sided_roundWithAccuracy _ _ _ _
  | negative =>
    have h : mantissa ≤ 0 := Int.cast_nonpos.1 h
    split
    · exact sided_roundWithAccuracy _ _ _ _
    · trivial
    · next hgt =>
      rw [compare_gt_iff_gt] at hgt
      omega

theorem fits_normalize {mantissa exponent : Int}
    (h : |(mantissa : ℚ) * 2 ^ exponent| < (2 ^ 54 - 1) * halfStep) :
    Fits (normalize .binary64 mantissa exponent .positive) := by
  have hpower : (0 : ℚ) < 2 ^ exponent := zpow_pos two_pos _
  rw [abs_mul, abs_of_pos hpower, ← Int.cast_abs, Int.abs_eq_natAbs, Int.cast_natCast] at h
  unfold UnpackedFloat.normalize
  split
  · next hlt =>
    rw [compare_lt_iff_lt] at hlt
    have hnatAbs : (-mantissa).toNat = mantissa.natAbs := by omega
    rw [hnatAbs]
    exact fits_round (by omega) h
  · trivial
  · next hgt =>
    rw [compare_gt_iff_gt] at hgt
    have hnatAbs : mantissa.toNat = mantissa.natAbs := by omega
    rw [hnatAbs]
    exact fits_round (by omega) h

end Modulation.Binary64

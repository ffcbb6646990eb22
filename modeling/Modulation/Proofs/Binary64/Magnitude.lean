import Modulation.Proofs.Binary64.Order

set_option autoImplicit false

/-! # The exact value of a double

The word of a double without its leading bit is its magnitude. A finite double stands for a rational
number (`exact`), which its sign and its magnitude settle: the greater the magnitude, the farther
the number is from zero (`strictMono_distance`). Magnitudes from that of infinity on are those of
doubles that are not finite (`isFinite_iff`). -/

namespace Modulation.Binary64

open Float.Model (Format UnpackedFloat)
open Float.Model.UnpackedFloat

/-- The word of a double without its sign. -/
def magnitude (x : Float) : Nat :=
  word x % 2 ^ 63

/-- The sign of a double. -/
def sign (x : Float) : Sign :=
  Sign.ofBitVec (@unpackSign .binary64 x.toModel.toBits.toBitVec)

/-- The mantissa of a finite double by its magnitude. -/
def mantissaOf (n : Nat) : Nat :=
  if n / 2 ^ 52 = 0 then n % 2 ^ 52 else 2 ^ 52 + n % 2 ^ 52

/-- The exponent of a finite double by its magnitude. -/
def exponentOf (n : Nat) : Int :=
  if n / 2 ^ 52 = 0 then -1074 else (n / 2 ^ 52 : Nat) - 1075

/-! ## Magnitudes -/

theorem magnitude_of_lt {x : Float} (h : word x < 2 ^ 63) : magnitude x = word x :=
  Nat.mod_eq_of_lt h

theorem magnitude_abs (x : Float) : magnitude x.abs = magnitude x := by
  unfold magnitude
  rw [word_abs, Nat.mod_mod]

theorem magnitude_ofBits {n : Nat} (h : n < infinityWord) :
    magnitude (Float.ofBits (UInt64.ofNat n)) = n := by
  have hword := word_ofBits h
  have hsign : n < 2 ^ 63 := Nat.lt_trans h (by decide)
  rw [magnitude_of_lt (by rwa [hword]), hword]

/-- The distance of a finite double from zero is the double with its magnitude as its word. -/
theorem abs_eq_ofBits {x : Float} (h : magnitude x < infinityWord) :
    x.abs = Float.ofBits (UInt64.ofNat (magnitude x)) := by
  refine ext_word ?_
  rw [word_abs, word_ofBits h]
  rfl

theorem mantissaOf_lt (n : Nat) : mantissaOf n < 2 ^ 53 := by
  unfold mantissaOf
  split <;> omega

/-! ## Taking a double apart by its magnitude -/

theorem magnitude_eq (x : Float) :
    magnitude x = (@unpackExponent .binary64 x.toModel.toBits.toBitVec).toNat * 2 ^ 52
      + (@unpackMantissa .binary64 x.toModel.toBits.toBitVec).toNat := by
  rw [toNat_unpackExponent, toNat_unpackMantissa]
  show word x % 2 ^ 63 = word x / 2 ^ 52 % 2 ^ 11 * 2 ^ 52 + word x % 2 ^ 52
  omega

/-- What the bits of a double say, by its sign and its magnitude. -/
inductive Unpacked (x : Float) : UnpackedFloat → Prop where
  | zero (h : magnitude x = 0) : Unpacked x (.zero (sign x))
  | finite (h : magnitude x < infinityWord) (hpositive : 0 < mantissaOf (magnitude x)) :
      Unpacked x
        (.finite (sign x) (mantissaOf (magnitude x)) (exponentOf (magnitude x)) hpositive)
  | infinity (h : magnitude x = infinityWord) : Unpacked x (.infinity (sign x))
  | notANumber (h : infinityWord < magnitude x) : Unpacked x .notANumber

theorem Unpacked.of_finite {x : Float} {mantissa : Nat} {exponent : Int}
    {hpositive : 0 < mantissa} (h : magnitude x < infinityWord)
    (hmantissa : mantissa = mantissaOf (magnitude x))
    (hexponent : exponent = exponentOf (magnitude x)) :
    Unpacked x (.finite (sign x) mantissa exponent hpositive) := by
  subst hmantissa hexponent
  exact .finite h hpositive

theorem unpacked (x : Float) : Unpacked x x.toModel.unpack := by
  have hmagnitude := magnitude_eq x
  show Unpacked x (unpack .binary64 x.toModel.toBits.toBitVec)
  unfold unpack
  have hexponent_lt : (@unpackExponent .binary64 x.toModel.toBits.toBitVec).toNat < 2 ^ 11 :=
    (@unpackExponent .binary64 _).isLt
  have hmantissa_lt : (@unpackMantissa .binary64 x.toModel.toBits.toBitVec).toNat < 2 ^ 52 :=
    (@unpackMantissa .binary64 _).isLt
  have hquotient : magnitude x / 2 ^ 52
      = (@unpackExponent .binary64 x.toModel.toBits.toBitVec).toNat := by omega
  have hrest : magnitude x % 2 ^ 52
      = (@unpackMantissa .binary64 x.toModel.toBits.toBitVec).toNat := by omega
  dsimp only
  split
  · next hmost =>
    have hmost : magnitude x / 2 ^ 52 = 2047 := by rw [hquotient, hmost]; rfl
    split
    · next hzero =>
      have hzero : magnitude x % 2 ^ 52 = 0 := by rw [hrest, hzero]; rfl
      refine .infinity ?_
      unfold infinityWord
      omega
    · next hzero =>
      have hzero : magnitude x % 2 ^ 52 ≠ 0 :=
        fun h => hzero (BitVec.eq_of_toNat_eq (hrest.symm.trans h))
      refine .notANumber ?_
      unfold infinityWord
      omega
  · next hmost =>
    have hmost : magnitude x / 2 ^ 52 ≠ 2047 :=
      fun h => hmost (BitVec.eq_of_toNat_eq (hquotient.symm.trans h))
    have hfinite : magnitude x < infinityWord := by
      unfold infinityWord
      omega
    split
    · next hleast =>
      have hleast : magnitude x / 2 ^ 52 = 0 := by rw [hquotient, hleast]; rfl
      split
      · next hzero =>
        have hzero : magnitude x % 2 ^ 52 = 0 := by rw [hrest, hzero]; rfl
        exact .zero (by omega)
      · refine .of_finite hfinite ?_ ?_
        · rw [mantissaOf, if_pos hleast, hrest]
        · rw [exponentOf, if_pos hleast, ← hquotient, hleast]
          rfl
    · next hleast =>
      have hleast : magnitude x / 2 ^ 52 ≠ 0 :=
        fun h => hleast (BitVec.eq_of_toNat_eq (hquotient.symm.trans h))
      refine .of_finite hfinite ?_ ?_
      · rw [mantissaOf, if_neg hleast, hrest, toNat_leading]
        rfl
      · rw [exponentOf, if_neg hleast, hquotient]
        rfl

theorem isFinite_iff (x : Float) : x.isFinite = true ↔ magnitude x < infinityWord := by
  show UnpackedFloat.isFinite x.toModel.unpack = true ↔ _
  have hunpacked := unpacked x
  generalize x.toModel.unpack = u at hunpacked ⊢
  cases hunpacked with
  | zero h => simp [UnpackedFloat.isFinite, h, infinityWord]
  | finite h => simp [UnpackedFloat.isFinite, h]
  | infinity h => simp [UnpackedFloat.isFinite, h]
  | notANumber h => simp [UnpackedFloat.isFinite, Nat.le_of_lt h]

/-! ## Distance from zero -/

/-- The distance from zero of the finite double with a magnitude. -/
def distance (n : Nat) : ℚ :=
  mantissaOf n * 2 ^ exponentOf n

/-- One magnitude further, the mantissa is one more at the same exponent. -/
theorem distance_succ (n : Nat) : distance (n + 1) = (mantissaOf n + 1) * 2 ^ exponentOf n := by
  by_cases hcarry : n % 2 ^ 52 = 2 ^ 52 - 1
  · -- The fraction is full: the next magnitude has the next exponent and no fraction.
    have hquotient : (n + 1) / 2 ^ 52 = n / 2 ^ 52 + 1 := by omega
    have hrest : (n + 1) % 2 ^ 52 = 0 := by omega
    have hmantissa : mantissaOf (n + 1) = 2 ^ 52 := by
      rw [mantissaOf, if_neg (by omega), hrest, Nat.add_zero]
    by_cases hsubnormal : n / 2 ^ 52 = 0
    · have hexponent : exponentOf (n + 1) = exponentOf n := by
        rw [exponentOf, exponentOf, if_neg (by omega), if_pos hsubnormal, hquotient, hsubnormal]
        rfl
      rw [distance, hexponent, hmantissa, mantissaOf, if_pos hsubnormal, hcarry]
      norm_num
    · have hexponent : exponentOf (n + 1) = exponentOf n + 1 := by
        rw [exponentOf, exponentOf, if_neg (by omega), if_neg hsubnormal, hquotient]
        push_cast
        ring
      rw [distance, hexponent, hmantissa, mantissaOf, if_neg hsubnormal, hcarry,
        zpow_add_one₀ two_ne_zero]
      push_cast
      ring
  · have hquotient : (n + 1) / 2 ^ 52 = n / 2 ^ 52 := by omega
    have hrest : (n + 1) % 2 ^ 52 = n % 2 ^ 52 + 1 := by omega
    have hexponent : exponentOf (n + 1) = exponentOf n := by rw [exponentOf, hquotient, exponentOf]
    have hmantissa : mantissaOf (n + 1) = mantissaOf n + 1 := by
      rw [mantissaOf, mantissaOf, hquotient, hrest]
      split <;> omega
    rw [distance, hexponent, hmantissa, Nat.cast_add_one]

/-- The greater the magnitude, the farther a double is from zero. -/
theorem strictMono_distance : StrictMono distance := by
  refine strictMono_nat_of_lt_succ fun n => ?_
  rw [distance_succ, distance]
  exact mul_lt_mul_of_pos_right (lt_add_one _) (zpow_pos two_pos _)

theorem distance_zero : distance 0 = 0 := by
  simp [distance, mantissaOf]

theorem distance_nonneg (n : Nat) : 0 ≤ distance n :=
  distance_zero ▸ strictMono_distance.monotone (Nat.zero_le n)

/-! ## The exact value -/

/-- The number that unpacked bits stand for; infinity and what is no number stand for none, and get
    zero here. -/
def value : UnpackedFloat → ℚ
  | .finite s mantissa exponent _ => (s.apply mantissa : ℚ) * 2 ^ exponent
  | _ => 0

/-- The number that a finite double stands for. -/
def exact (x : Float) : ℚ :=
  value x.toModel.unpack

theorem exact_eq {x : Float} (hfinite : x.isFinite = true) :
    exact x = ((sign x).apply 1 : ℤ) * distance (magnitude x) := by
  rw [isFinite_iff] at hfinite
  have hunpacked := unpacked x
  unfold exact
  generalize x.toModel.unpack = u at hunpacked ⊢
  cases hunpacked with
  | zero hzero =>
    rw [hzero, distance_zero, mul_zero]
    rfl
  | finite =>
    rw [value, distance]
    cases sign x <;> simp [Sign.apply]
  | infinity hinfinity => omega
  | notANumber hnan => omega

theorem exact_of_positive {x : Float} (hfinite : x.isFinite = true) (h : sign x = .positive) :
    exact x = distance (magnitude x) := by
  rw [exact_eq hfinite, h, Sign.apply, Int.cast_one, one_mul]

theorem exact_of_negative {x : Float} (hfinite : x.isFinite = true) (h : sign x = .negative) :
    exact x = -distance (magnitude x) := by
  rw [exact_eq hfinite, h, Sign.apply, Int.cast_neg, Int.cast_one, neg_one_mul]

end Modulation.Binary64

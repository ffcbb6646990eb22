import Mathlib
import Modulation.Binary64.Numeric
import Modulation.Proofs.Numeric.Laws

set_option autoImplicit false

/-! # The word of a double

The word of a double is the number that its bits stand for. A double is known by its word
(`ext_word`); the absolute value clears the leading bit of the word (`word_abs`), and every number
below the word of infinity is the word of a double (`word_ofBits`). From this and the comparison of
doubles, which gives the opposite answer the other way round (`compare_swap`), doubles obey the laws
that signals rely on. -/

namespace Modulation.Binary64

open Float.Model (Format UnpackedFloat)
open Float.Model.UnpackedFloat

/-- The number that the bits of a double stand for. -/
def word (x : Float) : Nat :=
  x.toBits.toNat

/-- The word of infinity: the words of finite doubles that are not negative are those below it. -/
def infinityWord : Nat :=
  2047 * 2 ^ 52

/-- Doubles with the same word are the same. -/
theorem ext_word {x y : Float} (h : word x = word y) : x = y :=
  Float.toBits_inj.1 (UInt64.toNat_inj.1 h)

/-! ## The parts of a word -/

theorem toNat_unpackSign (b : BitVec Format.binary64.numBits) :
    (unpackSign b).toNat = b.toNat / 2 ^ 63 % 2 := by
  simp [unpackSign, Nat.shiftRight_eq_div_pow]

theorem toNat_unpackExponent (b : BitVec Format.binary64.numBits) :
    (unpackExponent b).toNat = b.toNat / 2 ^ 52 % 2 ^ 11 := by
  simp [unpackExponent, Nat.shiftRight_eq_div_pow]

theorem toNat_unpackMantissa (b : BitVec Format.binary64.numBits) :
    (unpackMantissa b).toNat = b.toNat % 2 ^ 52 := by
  simp [unpackMantissa, Nat.shiftRight_eq_div_pow]

theorem toNat_leading {n k : Nat} (a : BitVec k) (m : BitVec n) :
    (a ++ m).toNat = a.toNat * 2 ^ n + m.toNat := by
  rw [BitVec.toNat_append, ← Nat.shiftLeft_add_eq_or_of_lt m.isLt, Nat.shiftLeft_eq]

theorem toNat_packComponents (s : Sign) (e : BitVec 11) (m : BitVec 52) :
    (packComponents .binary64 s e m).toNat
      = s.toBitVec.toNat * 2 ^ 63 + e.toNat * 2 ^ 52 + m.toNat := by
  unfold packComponents
  rw [toNat_leading, toNat_leading]
  omega

/-! ## The absolute value -/

/-- The absolute value is the double with the same parts and no sign. -/
theorem abs_unpack (b : BitVec Format.binary64.numBits) :
    (unpack .binary64 b).abs
      = unpack .binary64
          (packComponents .binary64 .positive (unpackExponent b) (unpackMantissa b)) := by
  simp only [unpack, unpackExponent_packComponents, unpackMantissa_packComponents,
    unpackSign_packComponents, Sign.ofBitVec_toBitVec]
  split
  · split <;> rfl
  · split
    · split <;> rfl
    · rfl

/-- The absolute value clears the leading bit of the word. -/
theorem word_abs (x : Float) : word x.abs = word x % 2 ^ 63 := by
  obtain ⟨⟨bits, valid⟩⟩ := x
  show (pack .binary64 (unpack .binary64 bits.toBitVec).abs).toNat = bits.toBitVec.toNat % 2 ^ 63
  rw [abs_unpack, pack_unpack, isNaNBits, unpackExponent_packComponents,
    unpackMantissa_packComponents]
  split
  · next hnan =>
    -- What is no number has one word only, and the leading bit of that word is clear.
    obtain ⟨hexponent, hmantissa⟩ := of_decide_eq_true hnan
    rw [valid.eq_packedNaN hexponent hmantissa]
    rfl
  · have hlt : bits.toBitVec.toNat < 2 ^ 64 := bits.toBitVec.isLt
    have hpositive : Sign.positive.toBitVec.toNat = 0 := rfl
    rw [toNat_packComponents, hpositive, toNat_unpackExponent, toNat_unpackMantissa]
    omega

/-- A number that is below the word of infinity without its leading bit is the word of the double
    with those bits. -/
theorem word_ofBits_of_mod {n : Nat} (hn : n < 2 ^ 64) (h : n % 2 ^ 63 < infinityWord) :
    word (Float.ofBits (UInt64.ofNat n)) = n := by
  have hbits : (UInt64.ofNat n).toBitVec.toNat = n := UInt64.toNat_ofNat_of_lt' hn
  have hvalid : Format.binary64.Valid (UInt64.ofNat n).toBitVec := by
    refine ⟨fun hexponent _ => absurd (congrArg BitVec.toNat hexponent) ?_⟩
    rw [toNat_unpackExponent, hbits]
    show ¬ n / 2 ^ 52 % 2 ^ 11 = 2047
    unfold infinityWord at h
    omega
  show (pack .binary64 (unpack .binary64 (UInt64.ofNat n).toBitVec)).toNat = n
  rw [pack_unpack_of_valid hvalid, hbits]

/-- A number below the word of infinity is the word of the double with those bits. -/
theorem word_ofBits {n : Nat} (h : n < infinityWord) : word (Float.ofBits (UInt64.ofNat n)) = n :=
  word_ofBits_of_mod (Nat.lt_trans h (by decide)) (Nat.lt_of_le_of_lt (Nat.mod_le _ _) h)

/-- A double with a number below the word of infinity as its word has no sign to clear. -/
theorem abs_ofBits {n : Nat} (h : n < infinityWord) :
    (Float.ofBits (UInt64.ofNat n)).abs = Float.ofBits (UInt64.ofNat n) := by
  apply ext_word
  rw [word_abs, word_ofBits h]
  exact Nat.mod_eq_of_lt (Nat.lt_trans h (by decide))

/-! ## The laws of numbers -/

theorem compare_swap (a b : UnpackedFloat) :
    UnpackedFloat.compare b a = (UnpackedFloat.compare a b).map Ordering.swap := by
  -- Only two finite doubles of the same sign are compared by exponent and mantissa.
  rcases a with (_ | _) | _ | _ | ⟨_ | _, m, e, hm⟩ <;>
    rcases b with (_ | _) | _ | _ | ⟨_ | _, m', e', hm'⟩ <;>
    first
    | rfl
    | simp [UnpackedFloat.compare, Ordering.swap_then, Int.compare_swap, Nat.compare_swap]

theorem lt_iff (x y : Float) :
    x < y ↔ UnpackedFloat.compare x.toModel.unpack y.toModel.unpack = some .lt := by
  show decide (Float.Model.lt x.toModel y.toModel = true) = true ↔ _
  rw [decide_eq_true_iff, Float.Model.lt, UnpackedFloat.lt, beq_iff_eq]

theorem float_lt_asymm {x y : Float} (h : x < y) : ¬ y < x := by
  rw [lt_iff] at h
  rw [lt_iff, compare_swap, h]
  decide

theorem float_abs_abs (x : Float) : x.abs.abs = x.abs := by
  apply ext_word
  rw [word_abs, word_abs, Nat.mod_mod]

instance : Numeric.Lawful Float where
  lt_asymm := float_lt_asymm
  abs_abs := float_abs_abs

end Modulation.Binary64

import Modulation.Proofs.Binary64.Magnitude
import Modulation.Signal.Kind

set_option autoImplicit false

/-! # The remainder of doubles, and starting phases

The laps of phases are powers of two. The remainder of a finite double by such a range is nearer to
zero than the range (`magnitude_remainder_lt`), and a double without a sign below the range is its
own remainder (`remainder_of_lt`). A phase at which a provider starts is therefore kept when a
provider starts at it (`startPhase_startPhase`). -/

namespace Modulation.Binary64

open Float.Model (Format UnpackedFloat)
open Float.Model.UnpackedFloat

/-! ## Finite doubles -/

theorem decode_of_magnitude_lt {x : Float} (h : magnitude x < infinityWord) :
    decode x = .finite (decide (2 ^ 63 ≤ word x)) (mantissaOf (magnitude x))
      (exponentOf (magnitude x)) := by
  unfold infinityWord magnitude at h
  have hbiased : word x / 2 ^ 52 % 2 ^ 11 = word x % 2 ^ 63 / 2 ^ 52 := by omega
  have hfraction : word x % 2 ^ 52 = word x % 2 ^ 63 % 2 ^ 52 := by omega
  unfold decode mantissaOf exponentOf magnitude
  show (if word x / 2 ^ 52 % 2 ^ 11 = 2047 then _ else
    if word x / 2 ^ 52 % 2 ^ 11 = 0 then
      Parts.finite (decide (2 ^ 63 ≤ word x)) (word x % 2 ^ 52) (-1074)
    else Parts.finite (decide (2 ^ 63 ≤ word x)) (2 ^ 52 + word x % 2 ^ 52)
      ((word x / 2 ^ 52 % 2 ^ 11 : Nat) - 1075)) = _
  rw [hbiased, hfraction, if_neg (by omega)]
  split <;> rfl

theorem decode_of_infinityWord_le {x : Float} (h : infinityWord ≤ magnitude x) :
    decode x = .nan ∨ ∃ negative, decode x = .infinite negative := by
  unfold infinityWord magnitude at h
  have hword : word x < 2 ^ 64 := x.toBits.toBitVec.isLt
  unfold decode
  show (if word x / 2 ^ 52 % 2 ^ 11 = 2047 then
      if word x % 2 ^ 52 = 0 then Parts.infinite (decide (2 ^ 63 ≤ word x)) else Parts.nan
    else _) = _ ∨ ∃ negative, (if word x / 2 ^ 52 % 2 ^ 11 = 2047 then
      if word x % 2 ^ 52 = 0 then Parts.infinite (decide (2 ^ 63 ≤ word x)) else Parts.nan
    else _) = .infinite negative
  rw [if_pos (by omega)]
  by_cases hzero : word x % 2 ^ 52 = 0
  · exact Or.inr ⟨_, if_pos hzero⟩
  · exact Or.inl (if_neg hzero)

/-- The word of a mantissa that is moved up and of an exponent that is lowered by as much. -/
def shiftedWord (mantissa shift : Nat) (exponent : Int) : Nat :=
  if mantissa * 2 ^ shift < 2 ^ 52 then mantissa * 2 ^ shift
  else (exponent - shift + 1075).toNat * 2 ^ 52 + (mantissa * 2 ^ shift - 2 ^ 52)

/-- The word that is put together from a mantissa and an exponent. -/
def scaledWord (mantissa : Nat) (exponent : Int) : Nat :=
  shiftedWord mantissa (min (52 - mantissa.log2) (exponent + 1074).toNat) exponent

theorem ofScaled_eq (negative : Bool) (mantissa : Nat) (exponent : Int) :
    ofScaled negative mantissa exponent
      = Float.ofBits
          (UInt64.ofNat ((if negative then 2 ^ 63 else 0) + scaledWord mantissa exponent)) :=
  rfl

theorem ofScaled_false (mantissa : Nat) (exponent : Int) :
    ofScaled false mantissa exponent
      = Float.ofBits (UInt64.ofNat (scaledWord mantissa exponent)) := by
  rw [ofScaled_eq, if_neg Bool.false_ne_true, Nat.zero_add]

theorem scaledWord_subnormal {n : Nat} (h : n < 2 ^ 52) : scaledWord n (-1074) = n := by
  have hshift : min (52 - n.log2) ((-1074 : Int) + 1074).toNat = 0 := Nat.min_zero _
  rw [scaledWord, hshift, shiftedWord, Nat.pow_zero, Nat.mul_one, if_pos h]

theorem scaledWord_normal {biased fraction : Nat} (hfraction : fraction < 2 ^ 52) :
    scaledWord (2 ^ 52 + fraction) (biased - 1075) = biased * 2 ^ 52 + fraction := by
  have hlog : (2 ^ 52 + fraction).log2 = 52 := (Nat.log2_eq_iff (by omega)).2 ⟨by omega, by omega⟩
  have hexponent : ((biased : Int) - 1075 - ((0 : Nat) : Int) + 1075).toNat = biased := by omega
  rw [scaledWord, hlog, Nat.sub_self, Nat.zero_min, shiftedWord, Nat.pow_zero, Nat.mul_one,
    if_neg (by omega), hexponent, Nat.add_sub_cancel_left]

/-- What is less than a power of two is put together below the word of that power. -/
theorem scaledWord_lt {mantissa biased : Nat} {exponent : Int} (hbiased : 0 < biased)
    (hmantissa : mantissa < 2 ^ 53) {distance : Nat}
    (hdistance : exponent + distance = biased - 1075)
    (h : mantissa < 2 ^ 52 * 2 ^ distance) : scaledWord mantissa exponent < biased * 2 ^ 52 := by
  unfold scaledWord
  generalize hshift : min (52 - mantissa.log2) (exponent + 1074).toNat = shift
  unfold shiftedWord
  split
  · omega
  · next hnormal =>
    have hpositive : mantissa ≠ 0 := by
      rintro rfl
      omega
    have hlog : mantissa.log2 ≤ 52 := Nat.lt_succ_iff.1 ((Nat.log2_lt hpositive).2 hmantissa)
    have hfull : mantissa * 2 ^ shift < 2 ^ 53 :=
      calc mantissa * 2 ^ shift
          < 2 ^ (mantissa.log2 + 1) * 2 ^ shift :=
            Nat.mul_lt_mul_of_pos_right Nat.lt_log2_self (Nat.two_pow_pos _)
        _ = 2 ^ (mantissa.log2 + 1 + shift) := (Nat.pow_add _ _ _).symm
        _ ≤ 2 ^ 53 := Nat.pow_le_pow_right (by decide) (by omega)
    have hscaled : mantissa * 2 ^ shift < 2 ^ (52 + distance + shift) :=
      calc mantissa * 2 ^ shift
          < 2 ^ 52 * 2 ^ distance * 2 ^ shift :=
            Nat.mul_lt_mul_of_pos_right h (Nat.two_pow_pos _)
        _ = 2 ^ (52 + distance + shift) := by rw [← Nat.pow_add, ← Nat.pow_add]
    -- A mantissa of full length leaves less to move up than there is distance to the power.
    have hroom : 52 < 52 + distance + shift :=
      (Nat.pow_lt_pow_iff_right (by decide)).1 (Nat.lt_of_le_of_lt (Nat.not_lt.1 hnormal) hscaled)
    have hexponent : (exponent - shift + 1075).toNat ≤ biased - 1 := by omega
    omega

/-- The sign of a double below the leading bit is positive. -/
theorem unpackSign_of_lt {x : Float} (h : word x < 2 ^ 63) :
    Sign.ofBitVec (@unpackSign .binary64 x.toModel.toBits.toBitVec) = .positive := by
  refine if_pos (BitVec.eq_of_toNat_eq ?_)
  rw [toNat_unpackSign]
  show word x / 2 ^ 63 % 2 = 0
  omega

/-- The sign of a double with the leading bit is negative. -/
theorem unpackSign_of_le {x : Float} (h : 2 ^ 63 ≤ word x) :
    Sign.ofBitVec (@unpackSign .binary64 x.toModel.toBits.toBitVec) = .negative := by
  have hsize : word x < 2 ^ 64 := x.toBits.toNat_lt
  refine if_neg fun hzero => ?_
  have hbit := congrArg BitVec.toNat hzero
  rw [toNat_unpackSign] at hbit
  change word x / 2 ^ 63 % 2 = 0 at hbit
  omega

/-- A double without a sign is not below zero. -/
theorem not_lt_zero {x : Float} (h : word x < 2 ^ 63) : ¬ x < 0.0 := by
  rw [lt_iff]
  show ¬ UnpackedFloat.compare (unpack .binary64 x.toModel.toBits.toBitVec) (.zero .positive) = _
  simp only [unpack, unpackSign_of_lt h]
  split
  · split
    · decide
    · decide
  · split
    · split
      · decide
      · exact nofun
    · exact nofun

/-! ## Remainders -/

/-- A range of a power of two: the double whose mantissa is `2 ^ 52`, with a biased exponent. -/
def IsPower (range : Float) (biased : Nat) : Prop :=
  decode range = .finite false (2 ^ 52) (biased - 1075) ∧ 0 < biased ∧ biased < 2047

theorem IsPower.lt_infinityWord {range : Float} {biased n : Nat} (hrange : IsPower range biased)
    (h : n < biased * 2 ^ 52) : n < infinityWord :=
  Nat.lt_of_lt_of_le h (Nat.mul_le_mul_right _ (Nat.le_of_lt hrange.2.2))

/-- The mantissa that is left of a mantissa at an exponent, at the lesser of its exponent and that of
    a power of two. -/
def restOf (mantissa : Nat) (exponent : Int) (biased : Nat) : Nat :=
  mantissa * 2 ^ (exponent - min exponent (biased - 1075)).toNat
    % (2 ^ 52 * 2 ^ ((biased : Int) - 1075 - min exponent (biased - 1075)).toNat)

theorem remainder_of_decode {x range : Float} {negative : Bool} {biased mantissa : Nat}
    {exponent : Int} (hrange : IsPower range biased)
    (hx : decode x = .finite negative mantissa exponent) :
    x % range
      = ofScaled negative (restOf mantissa exponent biased) (min exponent (biased - 1075)) := by
  show remainder x range = _
  unfold remainder
  rw [hx, hrange.1]
  exact if_neg (by decide)

/-- What is left by a power of two is put together below the word of that power. -/
theorem scaledWord_restOf_lt {mantissa biased : Nat} (hmantissa : mantissa < 2 ^ 53)
    (exponent : Int) (hbiased : 0 < biased) :
    scaledWord (restOf mantissa exponent biased) (min exponent (biased - 1075))
      < biased * 2 ^ 52 := by
  unfold restOf
  generalize hleast : min exponent ((biased : Int) - 1075) = least
  have hdistance : least + ((biased : Int) - 1075 - least).toNat = biased - 1075 := by omega
  have hmodulus : 0 < 2 ^ 52 * 2 ^ ((biased : Int) - 1075 - least).toNat :=
    Nat.mul_pos (by decide) (Nat.two_pow_pos _)
  refine scaledWord_lt hbiased ?_ hdistance (Nat.mod_lt _ hmodulus)
  -- The lesser of the two exponents is reached by one of the two numbers as it stands.
  by_cases hsmall : exponent ≤ biased - 1075
  · have hsame : (exponent - least).toNat = 0 := by omega
    rw [hsame, Nat.pow_zero, Nat.mul_one]
    exact Nat.lt_of_le_of_lt (Nat.mod_le _ _) hmantissa
  · have hsame : ((biased : Int) - 1075 - least).toNat = 0 := by omega
    rw [hsame, Nat.pow_zero, Nat.mul_one]
    exact Nat.lt_trans (Nat.mod_lt _ (by decide)) (by decide)

/-- The remainder of a finite double by a power of two has a lesser magnitude. -/
theorem magnitude_remainder_lt {x range : Float} {biased : Nat} (hrange : IsPower range biased)
    (h : magnitude x < infinityWord) : magnitude (x % range) < biased * 2 ^ 52 := by
  rw [remainder_of_decode hrange (decode_of_magnitude_lt h), ofScaled_eq]
  generalize hrest : scaledWord (restOf (mantissaOf (magnitude x)) (exponentOf (magnitude x)) biased)
    (min (exponentOf (magnitude x)) (biased - 1075)) = rest
  have hless : rest < biased * 2 ^ 52 :=
    hrest ▸ scaledWord_restOf_lt (mantissaOf_lt _) _ hrange.2.1
  have hfinite : rest < 2047 * 2 ^ 52 := hrange.lt_infinityWord hless
  unfold magnitude
  rw [word_ofBits_of_mod]
  · split <;> omega
  · split <;> omega
  · unfold infinityWord
    split <;> omega

/-- The remainder of a finite double without a sign has no sign. -/
theorem remainder_eq_ofBits {x range : Float} {biased : Nat} (hrange : IsPower range biased)
    (h : word x < infinityWord) :
    ∃ n, n < biased * 2 ^ 52 ∧ x % range = Float.ofBits (UInt64.ofNat n) := by
  have hsign : word x < 2 ^ 63 := Nat.lt_trans h (by decide)
  have hdecode := decode_of_magnitude_lt (x := x) (by rwa [magnitude_of_lt hsign])
  rw [decide_eq_false (Nat.not_le.2 hsign)] at hdecode
  rw [remainder_of_decode hrange hdecode, ofScaled_false]
  exact ⟨_, scaledWord_restOf_lt (mantissaOf_lt _) _ hrange.2.1, rfl⟩

theorem remainder_eq_scaledWord {x range : Float} {biased mantissa : Nat} {exponent : Int}
    (hrange : IsPower range biased) (hx : decode x = .finite false mantissa exponent)
    {distance : Nat} (hdistance : exponent + distance = biased - 1075)
    (hmantissa : mantissa < 2 ^ 52 * 2 ^ distance) :
    x % range = Float.ofBits (UInt64.ofNat (scaledWord mantissa exponent)) := by
  have hleast : min exponent ((biased : Int) - 1075) = exponent := by omega
  have hpower : ((biased : Int) - 1075 - exponent).toNat = distance := by omega
  rw [remainder_of_decode hrange hx, restOf, hleast, hpower, Int.sub_self, Int.toNat_zero,
    Nat.pow_zero, Nat.mul_one, Nat.mod_eq_of_lt hmantissa, ofScaled_false]

/-- A double below a power of two is its own remainder. -/
theorem remainder_of_lt {range : Float} {biased n : Nat} (hrange : IsPower range biased)
    (h : n < biased * 2 ^ 52) :
    Float.ofBits (UInt64.ofNat n) % range = Float.ofBits (UInt64.ofNat n) := by
  have hpositive := hrange.2.1
  have hmost := hrange.2.2
  have hfinite : n < infinityWord := hrange.lt_infinityWord h
  have hsign : n < 2 ^ 63 := Nat.lt_trans hfinite (by decide)
  have hdecode := decode_of_magnitude_lt (x := Float.ofBits (UInt64.ofNat n))
    (by rwa [magnitude_ofBits hfinite])
  rw [magnitude_ofBits hfinite, word_ofBits hfinite, decide_eq_false (Nat.not_le.2 hsign),
    mantissaOf, exponentOf] at hdecode
  -- Without a biased exponent the mantissa is the word itself; otherwise it has its leading bit.
  by_cases hsubnormal : n / 2 ^ 52 = 0
  · have hn : n % 2 ^ 52 = n := by omega
    rw [if_pos hsubnormal, if_pos hsubnormal, hn] at hdecode
    have hdistance : (-1074 : Int) + (biased - 1 : Nat) = biased - 1075 := by omega
    have hmantissa : n < 2 ^ 52 * 2 ^ (biased - 1) :=
      Nat.lt_of_lt_of_le (by omega) (Nat.le_mul_of_pos_right _ (Nat.two_pow_pos _))
    rw [remainder_eq_scaledWord hrange hdecode hdistance hmantissa, scaledWord_subnormal (by omega)]
  · rw [if_neg hsubnormal, if_neg hsubnormal] at hdecode
    have hdistance : ((n / 2 ^ 52 : Nat) : Int) - 1075 + (biased - n / 2 ^ 52 : Nat)
        = biased - 1075 := by omega
    have hmantissa : 2 ^ 52 + n % 2 ^ 52 < 2 ^ 52 * 2 ^ (biased - n / 2 ^ 52) :=
      calc 2 ^ 52 + n % 2 ^ 52
          < 2 ^ 52 * 2 ^ 1 := by omega
        _ ≤ 2 ^ 52 * 2 ^ (biased - n / 2 ^ 52) :=
            Nat.mul_le_mul_left _ (Nat.pow_le_pow_right (by decide) (by omega))
    rw [remainder_eq_scaledWord hrange hdecode hdistance hmantissa,
      scaledWord_normal (Nat.mod_lt _ (by decide)), Nat.div_add_mod']

/-! ## Starting phases -/

theorem residue_eq_ofBits {x range : Float} {biased : Nat} (hrange : IsPower range biased)
    (h : word x < infinityWord) :
    ∃ n, n < biased * 2 ^ 52 ∧ Numeric.residue x range = Float.ofBits (UInt64.ofNat n) := by
  obtain ⟨n, hn, hrest⟩ := remainder_eq_ofBits hrange h
  have hfinite : n < infinityWord := hrange.lt_infinityWord hn
  refine ⟨n, hn, ?_⟩
  unfold Numeric.residue
  rw [hrest]
  refine if_neg (not_lt_zero ?_)
  rw [word_ofBits hfinite]
  exact Nat.lt_trans hfinite (by decide)

theorem residue_of_lt {range : Float} {biased n : Nat} (hrange : IsPower range biased)
    (h : n < biased * 2 ^ 52) :
    Numeric.residue (Float.ofBits (UInt64.ofNat n)) range = Float.ofBits (UInt64.ofNat n) := by
  have hfinite : n < infinityWord := hrange.lt_infinityWord h
  unfold Numeric.residue
  rw [remainder_of_lt hrange h]
  refine if_neg (not_lt_zero ?_)
  rw [word_ofBits hfinite]
  exact Nat.lt_trans hfinite (by decide)

/-- There is no remainder of what is not finite. -/
theorem residue_of_infinityWord_le {x range : Float} {biased : Nat} (hrange : IsPower range biased)
    (h : infinityWord ≤ magnitude x) : Numeric.residue x range = 0.0 / 0.0 := by
  have hrest : x % range = 0.0 / 0.0 := by
    show remainder x range = _
    unfold remainder
    rw [hrange.1]
    rcases decode_of_infinityWord_le h with hx | ⟨negative, hx⟩
    · rw [hx]
    · rw [hx]
  have hnan : ¬ (0.0 / 0.0 : Float) < 0.0 := by decide +kernel
  unfold Numeric.residue
  rw [hrest]
  exact if_neg hnan

theorem startPhase_of_residue {x y range : Float}
    (h : Numeric.residue x.abs range = Numeric.residue y.abs range) :
    startPhase x range = startPhase y range := by
  show wrapPhase x.abs range = wrapPhase y.abs range
  unfold wrapPhase
  rw [h]

/-- A phase is the residue of the initial progress, or the start of the next lap. -/
theorem startPhase_eq_or {x range rest : Float} (h : Numeric.residue x.abs range = rest) :
    startPhase x range = 0.0 ∨ startPhase x range = rest := by
  show wrapPhase x.abs range = 0.0 ∨ wrapPhase x.abs range = rest
  unfold wrapPhase
  rw [h]
  by_cases hsnap : range - rest < snapDistance
  · exact Or.inl (if_pos hsnap)
  · exact Or.inr (if_neg hsnap)

theorem startPhase_startPhase_of_finite {x range : Float} {biased : Nat}
    (hrange : IsPower range biased) (hzero : startPhase 0.0 range = 0.0)
    (hfinite : word x.abs < infinityWord) :
    startPhase (startPhase x range) range = startPhase x range := by
  obtain ⟨n, hn, hresidue⟩ := residue_eq_ofBits hrange hfinite
  -- Starting at the residue is starting at the initial progress, because it is its own residue.
  have hagain : startPhase (Float.ofBits (UInt64.ofNat n)) range = startPhase x range := by
    refine startPhase_of_residue ?_
    rw [abs_ofBits (hrange.lt_infinityWord hn), residue_of_lt hrange hn, hresidue]
  rcases startPhase_eq_or hresidue with h | h
  · rw [h, hzero]
  · rw [h, hagain, h]

theorem startPhase_startPhase_of_isPower {range : Float} {biased : Nat}
    (hrange : IsPower range biased) (hzero : startPhase 0.0 range = 0.0)
    (hnan : startPhase (0.0 / 0.0) range = 0.0 / 0.0) (x : Float) :
    startPhase (startPhase x range) range = startPhase x range := by
  by_cases hfinite : word x.abs < infinityWord
  · exact startPhase_startPhase_of_finite hrange hzero hfinite
  · have hsign : word x.abs < 2 ^ 63 := by
      rw [word_abs]
      exact Nat.mod_lt _ (by decide)
    have hinfinite : infinityWord ≤ magnitude x.abs := by
      rw [magnitude_of_lt hsign]
      exact Nat.not_lt.1 hfinite
    have hsame : startPhase (0.0 / 0.0) range = startPhase x range := by
      refine startPhase_of_residue ?_
      rw [residue_of_infinityWord_le hrange hinfinite,
        residue_of_infinityWord_le hrange (by decide +kernel)]
    rw [← hsame, hnan, hnan]

/-- A phase at which a periodic signal starts is kept by starting at it. -/
theorem startPhase_startPhase (form : Waveform) (x : Float) :
    startPhase (startPhase x form.range) form.range = startPhase x form.range := by
  have hone : IsPower 1.0 1023 := ⟨by decide +kernel, by decide, by decide⟩
  have htwo : IsPower 2.0 1024 := ⟨by decide +kernel, by decide, by decide⟩
  cases form with
  | pingPong =>
    exact startPhase_startPhase_of_isPower htwo (by decide +kernel) (by decide +kernel) x
  | cycle => exact startPhase_startPhase_of_isPower hone (by decide +kernel) (by decide +kernel) x
  | pulse => exact startPhase_startPhase_of_isPower hone (by decide +kernel) (by decide +kernel) x

end Modulation.Binary64

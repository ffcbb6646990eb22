import Modulation.Proofs.Binary64.Interpolation
import Modulation.Proofs.Binary64.Phase
import Modulation.Proofs.Binary64.Sum

set_option autoImplicit false

/-! # Phases in their lap

A phase is in its lap if it is not negative and keeps the snapping distance from the range, or if it
is no number. Wrapping gives a phase in its lap (`inLap_wrapPhase`): a negative remainder is less
than the range away from zero, so that its rounded sum with the range is not negative, and a sum that
is rounded to the range itself snaps to zero. Wrapping gives a number just where it is given a finite
one (`isNaN_wrapPhase_iff`). A phase in its lap is far below the range of doubles, so that a finite
step takes it to a finite sum (`isNaN_nextPhase_iff`). -/

namespace Modulation.Binary64

open Float.Model (Format UnpackedFloat)
open Float.Model.UnpackedFloat

/-- A phase is in its lap, or no number. -/
def InLap (range phase : Float) : Prop :=
  phase.isNaN = true ∨ 0.0 ≤ phase ∧ snapDistance ≤ range - phase

/-! ## Laps -/

/-- A range that is a moderate power of two, and at whose start a phase does not snap. -/
structure IsLap (range : Float) (biased : Nat) : Prop where
  power : IsPower range biased
  word_eq : word range = biased * 2 ^ 52
  small : biased ≤ 1024
  start : snapDistance ≤ range - 0.0

theorem isLap_one : IsLap 1.0 1023 where
  power := ⟨by decide +kernel, by decide, by decide⟩
  word_eq := by decide +kernel
  small := by decide
  start := by decide +kernel

theorem isLap_two : IsLap 2.0 1024 where
  power := ⟨by decide +kernel, by decide, by decide⟩
  word_eq := by decide +kernel
  small := by decide
  start := by decide +kernel

section

variable {range : Float} {biased : Nat} (hlap : IsLap range biased)

include hlap

theorem IsLap.word_lt : word range < 2 ^ 63 := by
  rw [hlap.word_eq]
  have := hlap.small
  omega

theorem IsLap.magnitude_eq : magnitude range = biased * 2 ^ 52 := by
  rw [magnitude_of_lt hlap.word_lt, hlap.word_eq]

theorem IsLap.isFinite : range.isFinite = true := by
  rw [isFinite_iff, hlap.magnitude_eq, infinityWord]
  have := hlap.small
  omega

theorem IsLap.exact_eq : exact range = distance (biased * 2 ^ 52) := by
  rw [exact_of_positive hlap.isFinite (unpackSign_of_lt hlap.word_lt), hlap.magnitude_eq]

theorem IsLap.abs_eq : range.abs = range := by
  refine ext_word ?_
  rw [word_abs, Nat.mod_eq_of_lt hlap.word_lt]

theorem IsLap.exact_le : exact range ≤ halfStep := by
  have hpositive := hlap.power.2.1
  have hsmall := hlap.small
  have hquotient : biased * 2 ^ 52 / 2 ^ 52 = biased := Nat.mul_div_cancel _ (by decide)
  have hmantissa : mantissaOf (biased * 2 ^ 52) = 2 ^ 52 := by
    rw [mantissaOf, hquotient, if_neg (by omega), Nat.mul_mod_left, Nat.add_zero]
  have hexponent : exponentOf (biased * 2 ^ 52) = biased - 1075 := by
    rw [exponentOf, hquotient, if_neg (by omega)]
  calc exact range
      = 2 ^ (52 : ℤ) * 2 ^ ((biased : ℤ) - 1075) := by
        rw [hlap.exact_eq, distance, hmantissa, hexponent]
        rfl
    _ = 2 ^ (52 + ((biased : ℤ) - 1075)) := (zpow_add₀ two_ne_zero _ _).symm
    _ ≤ halfStep := zpow_le_zpow_right₀ one_le_two (by omega)

/-! ## Wrapping -/

/-- The remainder of a finite double is less than the range away from zero. -/
theorem IsLap.remainder_cases {x : Float} (hx : x.isFinite = true) :
    (x % range).isFinite = true ∧ -exact range ≤ exact (x % range) := by
  have hmagnitude : magnitude (x % range) < biased * 2 ^ 52 :=
    magnitude_remainder_lt hlap.power ((isFinite_iff x).1 hx)
  have hfinite : (x % range).isFinite = true :=
    (isFinite_iff _).2 (hlap.power.lt_infinityWord hmagnitude)
  have hdistance : distance (magnitude (x % range)) ≤ exact range :=
    hlap.exact_eq ▸ strictMono_distance.monotone (Nat.le_of_lt hmagnitude)
  refine ⟨hfinite, ?_⟩
  cases hsign : sign (x % range) with
  | negative =>
    rw [exact_of_negative hfinite hsign]
    exact neg_le_neg hdistance
  | positive =>
    rw [exact_of_positive hfinite hsign]
    have := distance_nonneg (magnitude (x % range))
    linarith

theorem IsLap.zero_le_residue {x : Float} (hx : x.isFinite = true) :
    0.0 ≤ Numeric.residue x range := by
  obtain ⟨hfinite, hexact⟩ := hlap.remainder_cases hx
  unfold Numeric.residue
  dsimp only
  split
  · show 0.0 ≤ x % range + range.abs
    rw [hlap.abs_eq]
    exact zero_le_add hfinite hlap.isFinite (by linarith)
  · next hnonnegative => exact le_of_not_lt rfl (not_isNaN_of_isFinite hfinite) hnonnegative

/-- Wrapping a finite double gives a phase that is not negative and keeps its distance. -/
theorem IsLap.wrapPhase_bounds {x : Float} (hx : x.isFinite = true) :
    0.0 ≤ wrapPhase x range ∧ snapDistance ≤ range - wrapPhase x range := by
  have hresidue := hlap.zero_le_residue hx
  unfold wrapPhase
  dsimp only
  split
  · exact ⟨by decide +kernel, hlap.start⟩
  · next hdistance =>
    have hnumber := not_isNaN_sub hlap.isFinite (not_isNaN_of_zero_le hresidue)
    exact ⟨hresidue, le_of_not_lt (by decide +kernel) hnumber hdistance⟩

/-- A tiny step back from the start is rounded up to the whole range, which starts the next lap. -/
example : Numeric.residue (-1e-300) (1.0 : Float) = 1.0
    ∧ wrapPhase (-1e-300) (1.0 : Float) = 0.0 := by
  decide +kernel

/-- Wrapping what is not finite gives no number. -/
theorem IsLap.wrapPhase_of_not_isFinite {x : Float} (hx : x.isFinite = false) :
    wrapPhase x range = 0.0 / 0.0 := by
  have hmagnitude : infinityWord ≤ magnitude x := by
    rw [← Nat.not_lt, ← isFinite_iff, hx]
    exact Bool.false_ne_true
  have hnan : (range - 0.0 / 0.0).isNaN = true := isNaN_sub (Or.inr rfl)
  have hsnap : ¬ range - 0.0 / 0.0 < snapDistance := by
    rw [lt_iff, (isNaN_iff_unpack _).1 hnan]
    exact nofun
  unfold wrapPhase
  rw [residue_of_infinityWord_le hlap.power hmagnitude]
  exact if_neg hsnap

theorem IsLap.isNaN_wrapPhase_iff (x : Float) :
    (wrapPhase x range).isNaN = true ↔ ¬ x.isFinite = true := by
  cases hx : x.isFinite with
  | true =>
    rw [not_isNaN_of_zero_le (hlap.wrapPhase_bounds hx).1]
    decide
  | false =>
    rw [hlap.wrapPhase_of_not_isFinite hx]
    decide +kernel

theorem IsLap.inLap_wrapPhase (x : Float) : InLap range (wrapPhase x range) := by
  cases hx : x.isFinite with
  | true => exact Or.inr (hlap.wrapPhase_bounds hx)
  | false => exact Or.inl ((hlap.isNaN_wrapPhase_iff x).2 (by rw [hx]; decide))

theorem IsLap.isNaN_startPhase_iff (initial : Float) :
    (startPhase initial range).isNaN = true ↔ ¬ initial.isFinite = true := by
  have hfinite : initial.abs.isFinite = true ↔ initial.isFinite = true := by
    rw [isFinite_iff, isFinite_iff, magnitude_abs]
  rw [← hfinite]
  exact hlap.isNaN_wrapPhase_iff initial.abs

/-! ## Steps -/

/-- A number in its lap is finite and less than the range. -/
theorem IsLap.exact_of_inLap {phase : Float} (hzero : 0.0 ≤ phase)
    (hdistance : snapDistance ≤ range - phase) :
    phase.isFinite = true ∧ 0 ≤ exact phase ∧ exact phase < exact range := by
  have hpositive : ¬ range - phase ≤ 0.0 :=
    fun hle => not_le_of_le_zero (by decide +kernel) hle hdistance
  have hsided := (zero_le_iff phase).1 hzero
  have hfinite : phase.isFinite = true := by
    show phase.toModel.unpack.isFinite = true
    cases hphase : phase.toModel.unpack with
    | zero => rfl
    | finite => rfl
    | notANumber =>
      rw [hphase] at hsided
      exact hsided.elim
    | infinity s =>
      rw [hphase] at hsided
      cases hsided
      refine absurd ((le_zero_iff _).2 ?_) hpositive
      refine sided_pack (u := UnpackedFloat.sub .binary64 range.toModel.unpack
        phase.toModel.unpack) ?_
      rw [hphase]
      exact sided_sub_infinity hlap.isFinite .positive
  have hexact : exact phase < exact range := by
    by_contra hle
    exact hpositive (sub_le_zero hlap.isFinite hfinite (not_lt.1 hle))
  exact ⟨hfinite, hsided.value_nonneg, hexact⟩

/-- A finite step from a number in its lap leads to a finite sum. -/
theorem IsLap.isFinite_add {phase step : Float} (hzero : 0.0 ≤ phase)
    (hdistance : snapDistance ≤ range - phase) (hstep : step.isFinite = true) :
    (phase + step).isFinite = true := by
  obtain ⟨hphase, hnonneg, hless⟩ := hlap.exact_of_inLap hzero hdistance
  refine Binary64.isFinite_add hphase hstep ?_
  have hrange := hlap.exact_le
  have hpositive := halfStep_pos
  obtain ⟨hlower, hupper⟩ := abs_le.1 (abs_exact_le hstep)
  rw [abs_lt]
  constructor <;> linarith

/-- The next phase is no number just where the phase is none or the step is not finite. -/
theorem IsLap.isNaN_nextPhase_iff {phase : Float} (h : InLap range phase) (period : Float) :
    (nextPhase phase range period).isNaN = true
      ↔ phase.isNaN = true ∨ ¬ (range / period).isFinite = true := by
  show (wrapPhase (phase + range / period) range).isNaN = true ↔ _
  rw [hlap.isNaN_wrapPhase_iff]
  generalize range / period = step
  constructor
  · rintro hsum
    rcases h with hnan | ⟨hzero, hdistance⟩
    · exact Or.inl hnan
    · exact Or.inr fun hstep => hsum (hlap.isFinite_add hzero hdistance hstep)
  · intro hbroken
    have hpart : phase.isFinite = false ∨ step.isFinite = false := by
      rcases hbroken with hnan | hstep
      · exact Or.inl (not_isFinite_of_isNaN hnan)
      · exact Or.inr (Bool.eq_false_iff.2 hstep)
    rw [not_isFinite_add hpart]
    exact Bool.false_ne_true

/-! ## Starting where a phase stands -/

/-- A number in its lap has no sign, but for the zero that has one. -/
theorem IsLap.magnitude_of_inLap {phase : Float} (hzero : 0.0 ≤ phase)
    (hdistance : snapDistance ≤ range - phase) :
    magnitude phase < biased * 2 ^ 52 ∧ (word phase < 2 ^ 63 ∨ phase = -0.0) := by
  obtain ⟨hfinite, hnonneg, hless⟩ := hlap.exact_of_inLap hzero hdistance
  by_cases hword : word phase < 2 ^ 63
  · rw [exact_of_positive hfinite (unpackSign_of_lt hword), hlap.exact_eq] at hless
    exact ⟨strictMono_distance.lt_iff_lt.1 hless, Or.inl hword⟩
  · -- The number that it stands for is not negative, and so it is zero.
    rw [not_lt] at hword
    rw [exact_of_negative hfinite (unpackSign_of_le hword), Left.nonneg_neg_iff,
      ← distance_zero] at hnonneg
    have hmagnitude : magnitude phase = 0 :=
      Nat.le_zero.1 (strictMono_distance.le_iff_le.1 hnonneg)
    refine ⟨?_, Or.inr (ext_word ?_)⟩
    · rw [hmagnitude]
      exact Nat.mul_pos hlap.power.2.1 (Nat.two_pow_pos 52)
    · have hsigned : word (-0.0) = 2 ^ 63 := by decide +kernel
      have hsize : word phase < 2 ^ 64 := phase.toBits.toNat_lt
      rw [hsigned]
      unfold magnitude at hmagnitude
      omega

theorem IsLap.abs_eq_self_iff {phase : Float} (hzero : 0.0 ≤ phase)
    (hdistance : snapDistance ≤ range - phase) : phase.abs = phase ↔ phase ≠ -0.0 := by
  constructor
  · rintro habs rfl
    exact absurd habs (by decide +kernel)
  · intro hsigned
    have hword := (hlap.magnitude_of_inLap hzero hdistance).2.resolve_right hsigned
    refine ext_word ?_
    rw [word_abs, Nat.mod_eq_of_lt hword]

/-- Starting at a number in its lap is starting at its distance from zero. -/
theorem IsLap.startPhase_of_inLap {phase : Float} (hzero : 0.0 ≤ phase)
    (hdistance : snapDistance ≤ range - phase) : startPhase phase range = phase.abs := by
  obtain ⟨hmagnitude, -⟩ := hlap.magnitude_of_inLap hzero hdistance
  have hresidue : Numeric.residue phase.abs range = phase.abs := by
    rw [abs_eq_ofBits (hlap.power.lt_infinityWord hmagnitude)]
    exact residue_of_lt hlap.power hmagnitude
  have hkeeps : snapDistance ≤ range - phase.abs := by
    by_cases hsigned : phase = -0.0
    · subst hsigned
      exact hlap.start
    · rwa [(hlap.abs_eq_self_iff hzero hdistance).2 hsigned]
  show wrapPhase phase.abs range = phase.abs
  unfold wrapPhase
  rw [hresidue]
  exact if_neg (not_lt_of_le hkeeps)

/-- A phase in its lap is the one from which it starts, unless it is the zero with a sign. -/
theorem IsLap.startPhase_eq_self_iff {phase : Float} (h : InLap range phase) :
    startPhase phase range = phase ↔ phase ≠ -0.0 := by
  rcases h with hnan | ⟨hzero, hdistance⟩
  · rw [Float.isNaN_eq_decide_eq_nan, decide_eq_true_iff] at hnan
    subst hnan
    refine iff_of_true ?_ (by decide +kernel)
    exact hlap.wrapPhase_of_not_isFinite (by decide +kernel)
  · rw [hlap.startPhase_of_inLap hzero hdistance]
    exact hlap.abs_eq_self_iff hzero hdistance

end

end Modulation.Binary64

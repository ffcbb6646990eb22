import Mathlib
import Modulation.Proofs.Rational.Numbers
import Modulation.Signal.Kind

set_option autoImplicit false

/-! # Phases and levels in exact arithmetic

Over the rationals the remainder of a phase is the one in `[0, range)` (`rat_residue`), so that a
wrapped phase is in its lap and keeps the snap distance from the end of the lap
(`inLap_wrapPhase`). A waveform then stands between its bounds (`level_between`,
`lerp_between`). -/

namespace Modulation.Exact

variable {f : ExactFunctions}

@[simp] theorem rat_snapDistance : (snapDistance : Exact f).rat = 1 / 10 ^ 9 := by
  norm_num [snapDistance]

/-! ## Wrapping -/

theorem abs_sub_whole_lt (x : ℚ) : |x - whole x| < 1 := by
  rw [abs_lt, whole]
  split
  · have hlow := Int.floor_le x
    have hhigh := Int.lt_floor_add_one x
    constructor <;> linarith
  · have hlow := Int.ceil_lt_add_one x
    have hhigh := Int.le_ceil x
    constructor <;> linarith

/-- A remainder is shorter than the range, on either side of zero. -/
theorem abs_rat_mod_lt {range : Exact f} (hrange : 0 < range.rat) (x : Exact f) :
    |(x % range).rat| < range.rat := by
  have hscaled : (x % range).rat
      = range.rat * (x.rat / range.rat - whole (x.rat / range.rat)) := by
    rw [rat_mod]
    field_simp
  rw [hscaled, abs_mul, abs_of_pos hrange]
  exact mul_lt_of_lt_one_right hrange (abs_sub_whole_lt _)

/-- The remainder that is not negative is the one in `[0, range)`. -/
theorem rat_residue {range : Exact f} (hrange : 0 < range.rat) (x : Exact f) :
    (Numeric.residue x range).rat = toIcoMod hrange 0 x.rat := by
  obtain ⟨hlow, hhigh⟩ := abs_lt.1 (abs_rat_mod_lt hrange x)
  refine ((toIcoMod_eq_iff hrange).2 ?_).symm
  unfold Numeric.residue
  dsimp only
  by_cases hnegative : x % range < (0.0 : Exact f)
  · have hbelow : (x % range).rat < 0 := by rwa [lt_iff, rat_zero] at hnegative
    rw [if_pos hnegative, rat_add, rat_abs, abs_of_pos hrange]
    refine ⟨⟨by linarith, by linarith⟩, whole (x.rat / range.rat) - 1, ?_⟩
    rw [rat_mod, zsmul_eq_mul]
    push_cast
    ring
  · have habove : 0 ≤ (x % range).rat := by rwa [lt_iff, rat_zero, not_lt] at hnegative
    rw [if_neg hnegative]
    refine ⟨⟨habove, by linarith⟩, whole (x.rat / range.rat), ?_⟩
    rw [rat_mod, zsmul_eq_mul]
    ring

/-- A wrapped phase is the remainder, unless that comes too close to the end of the lap. -/
theorem rat_wrapPhase {range : Exact f} (hrange : 0 < range.rat) (x : Exact f) :
    (wrapPhase x range).rat
      = if range.rat - toIcoMod hrange 0 x.rat < 1 / 10 ^ 9 then 0
        else toIcoMod hrange 0 x.rat := by
  simp only [wrapPhase, lt_iff, rat_sub, rat_residue hrange, rat_snapDistance]
  split
  · norm_num
  · exact rat_residue hrange x

/-- A phase is in its lap, and not so close to the end as to be taken for the start of the next. -/
def InLap (range phase : Exact f) : Prop :=
  0 ≤ phase.rat ∧ phase.rat + 1 / 10 ^ 9 ≤ range.rat

theorem inLap_wrapPhase {range : Exact f} (hrange : 1 ≤ range.rat) (x : Exact f) :
    InLap range (wrapPhase x range) := by
  have hpos : 0 < range.rat := by linarith
  have hmem := toIcoMod_mem_Ico hpos 0 x.rat
  rw [InLap, rat_wrapPhase hpos]
  split
  · exact ⟨le_rfl, by norm_num; linarith⟩
  · exact ⟨hmem.1, by linarith⟩

/-- A provider starts in its lap. -/
theorem inLap_startPhase {range : Exact f} (hrange : 1 ≤ range.rat) (initial : Exact f) :
    InLap range (startPhase initial range) :=
  inLap_wrapPhase hrange _

/-- A tick leads to a phase in the lap, however long or short the lap is. -/
theorem inLap_nextPhase {range : Exact f} (hrange : 1 ≤ range.rat) (phase period : Exact f) :
    InLap range (nextPhase phase range period) :=
  inLap_wrapPhase hrange _

/-! ## Levels -/

theorem rat_range (form : Waveform) :
    (form.range : Exact f).rat = if form = .pingPong then 2 else 1 := by
  cases form with
  | pingPong => rw [if_pos rfl, Waveform.range, rat_two]
  | cycle => rw [if_neg nofun, Waveform.range, rat_one]
  | pulse => rw [if_neg nofun, Waveform.range, rat_one]

theorem one_le_range (form : Waveform) : 1 ≤ (form.range : Exact f).rat := by
  rw [rat_range]
  split <;> norm_num

/-- In its lap a waveform stands between its bounds. -/
theorem level_between {form : Waveform} {phase : Exact f} (h : InLap form.range phase) :
    0 ≤ (form.level phase).rat ∧ (form.level phase).rat ≤ 1 := by
  obtain ⟨hlow, hhigh⟩ := h
  rw [rat_range] at hhigh
  cases form with
  | cycle =>
    rw [if_neg nofun] at hhigh
    exact ⟨hlow, by rw [Waveform.level]; linarith⟩
  | pingPong =>
    rw [if_pos rfl] at hhigh
    by_cases hhalf : phase ≤ (1.0 : Exact f)
    · have hone : phase.rat ≤ 1 := by rwa [le_iff, rat_one] at hhalf
      rw [Waveform.level, if_pos hhalf]
      exact ⟨hlow, hone⟩
    · -- The way back.
      have hone : 1 < phase.rat := by rwa [le_iff, rat_one, not_le] at hhalf
      rw [Waveform.level, if_neg hhalf, rat_sub, rat_two]
      constructor <;> linarith
  | pulse =>
    obtain ⟨hbelow, habove⟩ := abs_le.1 (f.abs_sin_le (Numeric.tau * phase).rat)
    simp only [Waveform.level, rat_add, rat_div, rat_sin, rat_ofScientific]
    constructor <;> linarith

/-- A share of the way between two numbers in order lies between them. -/
theorem lerp_between {low high share : Exact f} (horder : ¬ low > high) (hlow : 0 ≤ share.rat)
    (hhigh : share.rat ≤ 1) :
    low ≤ Numeric.lerp low high share ∧ Numeric.lerp low high share ≤ high := by
  have hbounds : low.rat ≤ high.rat := not_lt.1 horder
  simp only [le_iff, Numeric.lerp, rat_add, rat_mul, rat_sub]
  constructor
  · nlinarith
  · nlinarith

end Modulation.Exact

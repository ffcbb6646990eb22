import Modulation.Proofs.Rational.Phase

set_option autoImplicit false

/-! # Laps of whole numbers of ticks

Where a lap takes a whole number of ticks, every phase is a number of steps and a rest that is
shorter than a step. A tick goes on by one step, around the lap, and keeps the rest
(`rat_residue_steps`); only the last phase of a lap can come within the snap distance of its end,
and it does just when the rest is within that distance of a step (`snaps_iff`). A phase that is
snapped there has no rest any more, so that no later phase is (`IsStep.phases_after`). After the
first lap the phases therefore repeat (`IsStep.laps_phases`). -/

namespace Modulation

/-- The phase after each number of ticks. -/
def phases {α : Type} [Numeric α] (range period start : α) (ticks : Nat) : α :=
  (fun phase => nextPhase phase range period)^[ticks] start

/-- What a run comes to after its first lap, it comes to again a lap later. -/
def Repeats {β : Type} (ticks : Nat) (run : Nat → β) : Prop :=
  ∀ n, ticks ≤ n → run (n + ticks) = run n

namespace Exact

variable {f : ExactFunctions}

/-- The next tick brings the phase so close to the end of its lap that it starts the next lap. -/
def Snaps (range period phase : Exact f) : Prop :=
  range - Numeric.residue (phase + range / period) range < snapDistance

theorem nextPhase_of_snaps {range period phase : Exact f} (h : Snaps range period phase) :
    nextPhase phase range period = 0.0 :=
  if_pos h

theorem nextPhase_of_not_snaps {range period phase : Exact f} (h : ¬ Snaps range period phase) :
    nextPhase phase range period = Numeric.residue (phase + range / period) range :=
  if_neg h

/-- What holds of the phases of a provider whose lap takes a whole number of ticks. The first lap
    leads back to the phase at which it started, or less than the snap distance beyond it, and every
    later lap leads back to where it started. A phase is snapped once at most, in the first lap. -/
structure Laps (range : Exact f) (ticks : Nat) (phase : Nat → Exact f) : Prop where
  start_le : phase 0 ≤ phase ticks
  lt_start : (phase ticks).rat < (phase 0).rat + 1 / 10 ^ 9
  snaps_once : ∀ m n, Snaps range (Numeric.ofInt ticks) (phase m) →
    Snaps range (Numeric.ofInt ticks) (phase n) → m = n
  snaps_early : ∀ n, Snaps range (Numeric.ofInt ticks) (phase n) → n < ticks
  repeats : Repeats ticks phase

/-- A provider has a phase after every number of ticks, and these phases are `Laps`. -/
def RunsInLaps (range : Exact f) (ticks : Nat) (phaseAt? : Nat → Option (Exact f)) : Prop :=
  ∃ phase : Nat → Exact f, (∀ n, phaseAt? n = some (phase n)) ∧ Laps range ticks phase

/-! ## Steps -/

/-- A lap of some ticks is as many steps, and a step is no shorter than the snap distance. -/
structure IsStep (range : Exact f) (ticks : Nat) (step : ℚ) : Prop where
  range_eq : range.rat = ticks * step
  ticks_pos : 0 < ticks
  snap_le : 1 / 10 ^ 9 ≤ step

namespace IsStep

variable {range phase : Exact f} {ticks k : Nat} {step rest : ℚ} (hstep : IsStep range ticks step)

include hstep

theorem step_pos : 0 < step :=
  lt_of_lt_of_le (by norm_num) hstep.snap_le

theorem range_pos : 0 < range.rat := by
  rw [hstep.range_eq]
  exact mul_pos (by exact_mod_cast hstep.ticks_pos) hstep.step_pos

/-- The length of a tick is a step. -/
theorem rat_tick : (range / Numeric.ofInt ticks : Exact f).rat = step := by
  have hticks : (ticks : ℚ) ≠ 0 := by exact_mod_cast hstep.ticks_pos.ne'
  rw [rat_div, rat_ofInt, hstep.range_eq]
  push_cast
  field_simp

/-- Around the lap, a number of steps and a rest leave the rest. -/
theorem rat_residue_steps (hrest : 0 ≤ rest) (hshort : rest < step)
    (hphase : phase.rat = k * step + rest) :
    (Numeric.residue phase range).rat = (k % ticks : Nat) * step + rest := by
  have hlast : (k % ticks : Nat) + 1 ≤ ticks := Nat.mod_lt k hstep.ticks_pos
  have hlast' : ((k % ticks : Nat) + 1 : ℚ) ≤ ticks := by exact_mod_cast hlast
  have hsteps : (k : ℚ) = ticks * (k / ticks : Nat) + (k % ticks : Nat) := by
    exact_mod_cast (Nat.div_add_mod k ticks).symm
  have hpos := hstep.step_pos
  rw [rat_residue hstep.range_pos, toIcoMod_eq_iff]
  refine ⟨⟨by positivity, ?_⟩, (k / ticks : Nat), ?_⟩
  · rw [zero_add, hstep.range_eq]
    nlinarith
  · rw [hphase, hstep.range_eq, zsmul_eq_mul, Int.cast_natCast]
    linear_combination step * hsteps

/-- A tick goes on by one step. -/
theorem rat_residue_tick (hrest : 0 ≤ rest) (hshort : rest < step)
    (hphase : phase.rat = k * step + rest) :
    (Numeric.residue (phase + range / Numeric.ofInt ticks) range).rat
      = ((k + 1) % ticks : Nat) * step + rest := by
  refine hstep.rat_residue_steps hrest hshort ?_
  rw [rat_add, hstep.rat_tick, hphase]
  push_cast
  ring

/-- The next phase is snapped just when it is the last of its lap and the rest comes within the snap
    distance of a step. -/
theorem snaps_iff (hrest : 0 ≤ rest) (hshort : rest < step)
    (hphase : phase.rat = k * step + rest) :
    Snaps range (Numeric.ofInt ticks) phase
      ↔ (k + 1) % ticks + 1 = ticks ∧ step < rest + 1 / 10 ^ 9 := by
  have hpos := hstep.step_pos
  have hsnap := hstep.snap_le
  rw [Snaps, lt_iff, rat_sub, rat_snapDistance, hstep.rat_residue_tick hrest hshort hphase,
    hstep.range_eq]
  generalize hindex : (k + 1) % ticks = j
  have hlast : j < ticks := hindex ▸ Nat.mod_lt _ hstep.ticks_pos
  constructor
  · intro h
    by_cases hend : j + 1 = ticks
    · refine ⟨hend, ?_⟩
      rw [← hend] at h
      push_cast at h
      linarith
    · -- More than a step is left of the lap.
      have hroom : (j : ℚ) + 2 ≤ ticks := by exact_mod_cast (by omega : j + 2 ≤ ticks)
      nlinarith
  · rintro ⟨hend, h⟩
    rw [← hend]
    push_cast
    linarith

/-- The next phase is one step further around the lap, with the same rest, if it is not snapped. -/
theorem rat_nextPhase (hrest : 0 ≤ rest) (hshort : rest < step)
    (hphase : phase.rat = k * step + rest) :
    (nextPhase phase range (Numeric.ofInt ticks)).rat
      = if (k + 1) % ticks + 1 = ticks ∧ step < rest + 1 / 10 ^ 9 then 0
        else ((k + 1) % ticks : Nat) * step + rest := by
  have hiff := hstep.snaps_iff hrest hshort hphase
  by_cases hsnaps : Snaps range (Numeric.ofInt ticks) phase
  · rw [if_pos (hiff.1 hsnaps), nextPhase_of_snaps hsnaps, rat_zero]
  · rw [if_neg fun h => hsnaps (hiff.2 h), nextPhase_of_not_snaps hsnaps,
      hstep.rat_residue_tick hrest hshort hphase]

/-- A phase is some steps and a rest. -/
theorem exists_steps (hphase : InLap range phase) :
    ∃ (k : Nat) (rest : ℚ), phase.rat = k * step + rest ∧ 0 ≤ rest ∧ rest < step ∧ k < ticks := by
  have hpos := hstep.step_pos
  obtain ⟨hlow, hhigh⟩ := hphase
  have hbelow : (⌊phase.rat / step⌋₊ : ℚ) * step ≤ phase.rat :=
    (le_div_iff₀ hpos).1 (Nat.floor_le (by positivity))
  have habove : phase.rat < (⌊phase.rat / step⌋₊ + 1) * step :=
    (div_lt_iff₀ hpos).1 (Nat.lt_floor_add_one _)
  refine ⟨⌊phase.rat / step⌋₊, phase.rat - ⌊phase.rat / step⌋₊ * step, by ring, by linarith,
    by linarith, ?_⟩
  have hlap : (⌊phase.rat / step⌋₊ : ℚ) * step < ticks * step := by
    rw [← hstep.range_eq]
    linarith
  exact_mod_cast lt_of_mul_lt_mul_right hlap hpos.le

end IsStep

/-! ## Runs -/

theorem phases_succ {α : Type} [Numeric α] (range period start : α) (n : Nat) :
    phases range period start (n + 1) = nextPhase (phases range period start n) range period :=
  Function.iterate_succ_apply' _ n start

theorem phases_add {α : Type} [Numeric α] (range period start : α) (m n : Nat) :
    phases range period start (m + n) = phases range period (phases range period start n) m :=
  Function.iterate_add_apply _ m n start

section Runs

variable {range start : Exact f} {ticks k : Nat} {step rest : ℚ} (hstep : IsStep range ticks step)
  (hrest : 0 ≤ rest) (hstart : start.rat = k * step + rest)

include hstep hrest hstart

/-- Where the rest keeps clear of a step, the phases go around the lap. -/
theorem IsStep.phases_clear (hclear : rest + 1 / 10 ^ 9 ≤ step) (hk : k < ticks) (n : Nat) :
    (phases range (Numeric.ofInt ticks) start n).rat = ((k + n) % ticks : Nat) * step + rest := by
  have hshort : rest < step := by linarith
  induction n with
  | zero =>
    rw [Nat.add_zero, Nat.mod_eq_of_lt hk, ← hstart]
    rfl
  | succ n ih =>
    rw [phases_succ, hstep.rat_nextPhase hrest hshort ih,
      if_neg fun h => absurd h.2 (not_lt.2 hclear), Nat.mod_add_mod, Nat.add_assoc]

/-- Where the rest keeps clear of a step, no phase is snapped and every phase is met again a lap
    later. -/
theorem IsStep.laps_clear (hclear : rest + 1 / 10 ^ 9 ≤ step) (hk : k < ticks) :
    Laps range ticks (phases range (Numeric.ofInt ticks) start) := by
  have hshort : rest < step := by linarith
  have hphases := hstep.phases_clear hrest hstart hclear hk
  have hreturns : ∀ n, phases range (Numeric.ofInt ticks) start (n + ticks)
      = phases range (Numeric.ofInt ticks) start n := by
    intro n
    ext
    rw [hphases, hphases, ← Nat.add_assoc, Nat.add_mod_right]
  have hnever : ∀ n, ¬ Snaps range (Numeric.ofInt ticks)
      (phases range (Numeric.ofInt ticks) start n) := by
    intro n hsnaps
    exact absurd ((hstep.snaps_iff hrest hshort (hphases n)).1 hsnaps).2 (not_lt.2 hclear)
  have hlap := hreturns 0
  rw [Nat.zero_add] at hlap
  refine ⟨?_, ?_, fun m _ hsnaps => absurd hsnaps (hnever m),
    fun n hsnaps => absurd hsnaps (hnever n), fun n _ => hreturns n⟩
  · rw [hlap, le_iff]
  · rw [hlap]
    norm_num

section Short

variable {m : Nat} (hshort : rest < step) (hclose : step < rest + 1 / 10 ^ 9)
  (hm : k + m + 1 = ticks)

include hshort hm

/-- Before the last phase of the first lap, no phase is snapped. -/
theorem IsStep.phases_before {n : Nat} (hn : n < m) :
    (phases range (Numeric.ofInt ticks) start n).rat = (k + n : Nat) * step + rest := by
  induction n with
  | zero => exact hstart
  | succ n ih =>
    have hindex : (k + n + 1) % ticks = k + n + 1 := Nat.mod_eq_of_lt (by omega)
    rw [phases_succ, hstep.rat_nextPhase hrest hshort (ih (by omega)), hindex,
      if_neg fun h => by omega, Nat.add_assoc]

include hclose

/-- The last phase of the first lap is snapped, and then no phase has a rest. -/
theorem IsStep.phases_after (hpos : 0 < m) (n : Nat) :
    (phases range (Numeric.ofInt ticks) start (n + m)).rat = (n % ticks : Nat) * step := by
  obtain ⟨last, rfl⟩ : ∃ last, m = last + 1 := ⟨m - 1, by omega⟩
  have hlast := hstep.phases_before hrest hstart hshort hm (Nat.lt_succ_self last)
  have hindex : (k + last + 1) % ticks = k + last + 1 := Nat.mod_eq_of_lt (by omega)
  have hsnapped : (phases range (Numeric.ofInt ticks) start (last + 1)).rat
      = (0 : Nat) * step + 0 := by
    rw [phases_succ, hstep.rat_nextPhase hrest hshort hlast, hindex, if_pos ⟨by omega, hclose⟩]
    simp
  have hclear : (0 : ℚ) + 1 / 10 ^ 9 ≤ step := by linarith [hstep.snap_le]
  rw [phases_add, hstep.phases_clear le_rfl hsnapped hclear (by omega), Nat.zero_add, add_zero]

/-- Only the last phase of the first lap is snapped. -/
theorem IsStep.snaps_short (hpos : 0 < m) {n : Nat}
    (hsnaps : Snaps range (Numeric.ofInt ticks) (phases range (Numeric.ofInt ticks) start n)) :
    n + 1 = m := by
  rcases Nat.lt_or_ge n m with hn | hn
  · have hphase := hstep.phases_before hrest hstart hshort hm hn
    have hend := ((hstep.snaps_iff hrest hshort hphase).1 hsnaps).1
    rw [Nat.mod_eq_of_lt (by omega)] at hend
    omega
  · obtain ⟨i, rfl⟩ := Nat.exists_eq_add_of_le' hn
    have hphase := hstep.phases_after hrest hstart hshort hclose hm hpos i
    rw [← add_zero ((i % ticks : Nat) * step)] at hphase
    have hclose := ((hstep.snaps_iff le_rfl hstep.step_pos hphase).1 hsnaps).2
    linarith [hstep.snap_le]

/-- Where the rest is close to a step, it is lost at the end of the first lap, and the phases are
    met again from then on. -/
theorem IsStep.laps_short (hpos : 0 < m) :
    Laps range ticks (phases range (Numeric.ofInt ticks) start) := by
  have hafter := hstep.phases_after hrest hstart hshort hclose hm hpos
  have hsnaps := fun n => hstep.snaps_short hrest hstart hshort hclose hm hpos (n := n)
  -- After the first lap the phase is the one step above the start that has no rest.
  have hlap : (phases range (Numeric.ofInt ticks) start ticks).rat = (k + 1 : Nat) * step := by
    have hticks : ticks = (k + 1) + m := by omega
    rw [← Nat.mod_eq_of_lt (by omega : k + 1 < ticks), ← hafter, ← hticks]
  have hzero : (phases range (Numeric.ofInt ticks) start 0).rat = k * step + rest := hstart
  push_cast at hlap
  refine ⟨?_, ?_, fun i j hi hj => ?_, fun n hn => ?_, fun n hn => ?_⟩
  · rw [le_iff, hlap, hzero]
    linarith
  · rw [hlap, hzero]
    linarith
  · have hi := hsnaps i hi
    have hj := hsnaps j hj
    omega
  · have hn := hsnaps n hn
    omega
  · obtain ⟨i, rfl⟩ := Nat.exists_eq_add_of_le' (by omega : m ≤ n)
    ext
    rw [Nat.add_right_comm, hafter, hafter, Nat.add_mod_right]

end Short

end Runs

/-- Where the steps are no shorter than the snap distance, phases that start in the lap keep to
    `Laps`. -/
theorem IsStep.laps_phases {range start : Exact f} {ticks : Nat} {step : ℚ}
    (hstep : IsStep range ticks step) (hstart : InLap range start) :
    Laps range ticks (phases range (Numeric.ofInt ticks) start) := by
  obtain ⟨k, rest, hsteps, hrest, hshort, hk⟩ := hstep.exists_steps hstart
  rcases le_or_gt (rest + 1 / 10 ^ 9) step with hclear | hclose
  · exact hstep.laps_clear hrest hsteps hclear hk
  · -- The start keeps the snap distance from the end of the lap, so that a whole step is left.
    have hroom : ((k + 1 : Nat) : ℚ) * step < ticks * step := by
      have hend := hstart.2
      rw [hsteps, hstep.range_eq] at hend
      push_cast
      linarith
    have hlast : k + 1 < ticks := by exact_mod_cast lt_of_mul_lt_mul_right hroom hstep.step_pos.le
    exact hstep.laps_short hrest hsteps hshort hclose
      (show k + (ticks - k - 1) + 1 = ticks by omega) (by omega)

/-- The ticks of a lap are no shorter than the snap distance if there are a thousand million of them
    at most. -/
theorem isStep {range : Exact f} {ticks : Nat} (hrange : 1 ≤ range.rat) (hpos : 1 ≤ ticks)
    (hmost : ticks ≤ 10 ^ 9) : IsStep range ticks (range.rat / ticks) := by
  have hticks : (0 : ℚ) < ticks := by exact_mod_cast hpos
  have hmost' : (ticks : ℚ) ≤ 10 ^ 9 := by exact_mod_cast hmost
  refine ⟨by field_simp, hpos, ?_⟩
  calc (1 : ℚ) / 10 ^ 9 ≤ 1 / ticks := one_div_le_one_div_of_le hticks hmost'
    _ ≤ range.rat / ticks := by gcongr

/-- A provider that starts at any initial progress keeps to `Laps`. -/
theorem laps_startPhase {range : Exact f} {ticks : Nat} (hrange : 1 ≤ range.rat)
    (hpos : 1 ≤ ticks) (hmost : ticks ≤ 10 ^ 9) (initial : Exact f) :
    Laps range ticks (phases range (Numeric.ofInt ticks) (startPhase initial range)) :=
  (isStep hrange hpos hmost).laps_phases (inLap_startPhase hrange initial)

end Exact

end Modulation

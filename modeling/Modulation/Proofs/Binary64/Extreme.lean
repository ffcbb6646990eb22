import Mathlib.Data.Prod.Lex
import Modulation.Proofs.Binary64.Order

set_option autoImplicit false

/-! # The least and the greatest of doubles

Away from what is no number, doubles compare by their rank: by the sign, then by the exponent, then
by the mantissa (`compare_eq_lt_iff`). Of two doubles that are apart, at least one is apart from any
number as well (`lt_or_lt_of_lt`), so that picking the smaller of two doubles over and over keeps
what is smallest, and so does picking the larger with what is largest. `Selects` has what the two
have in common, and `Selects.extreme_foldl` says what a fold of either of them gives. -/

namespace Modulation.Binary64

open Float.Model (UnpackedFloat)
open Float.Model.UnpackedFloat

/-! ## Rank -/

/-- Where an unpacked number stands among the others. -/
def rank : UnpackedFloat → ℤ ×ₗ ℤ ×ₗ ℤ
  | .infinity .negative => toLex (-2, toLex (0, 0))
  | .finite .negative mantissa exponent _ => toLex (-1, toLex (-exponent, -mantissa))
  | .finite .positive mantissa exponent _ => toLex (1, toLex (exponent, mantissa))
  | .infinity .positive => toLex (2, toLex (0, 0))
  | .zero _ | .notANumber => toLex (0, toLex (0, 0))

theorem compare_eq_lt_iff {a b : UnpackedFloat} (ha : a ≠ .notANumber) (hb : b ≠ .notANumber) :
    UnpackedFloat.compare a b = some .lt ↔ rank a < rank b := by
  have hsign : compare Sign.negative Sign.positive = .lt := rfl
  rcases a with (_ | _) | _ | _ | ⟨_ | _, m, e, _⟩ <;>
    rcases b with (_ | _) | _ | _ | ⟨_ | _, m', e', _⟩ <;>
    simp [UnpackedFloat.compare, rank, Prod.Lex.toLex_lt_toLex, Ordering.then_eq_lt,
      Ordering.then_eq_gt, compare_lt_iff_lt, compare_gt_iff_gt, hsign] at ha hb ⊢

theorem isNaN_eq_false_of_lt {x y : Float} (h : x < y) : x.isNaN = false ∧ y.isNaN = false :=
  isNaN_eq_false_of_le (float_le_of_lt h)

theorem unpack_ne_of_isNaN {x : Float} (h : x.isNaN = false) : x.toModel.unpack ≠ .notANumber := by
  rw [Ne, ← isNaN_iff_unpack, h]
  exact Bool.false_ne_true

/-- A number lies apart from one of two doubles that lie apart from each other. -/
theorem lt_or_lt_of_lt {x y z : Float} (hy : y.isNaN = false) (h : x < z) : x < y ∨ y < z := by
  obtain ⟨hx, hz⟩ := isNaN_eq_false_of_lt h
  rw [lt_iff, compare_eq_lt_iff (unpack_ne_of_isNaN hx) (unpack_ne_of_isNaN hz)] at h
  rw [lt_iff, compare_eq_lt_iff (unpack_ne_of_isNaN hx) (unpack_ne_of_isNaN hy), lt_iff,
    compare_eq_lt_iff (unpack_ne_of_isNaN hy) (unpack_ne_of_isNaN hz)]
  exact (h.lt_or_gt _).symm

/-! ## Picking one of two doubles -/

/-- `pick` keeps the first of two doubles, unless it is no number or the second lies beyond it; and
    nothing lies farther beyond than `seed`, from which picking starts. -/
structure Selects (beyond : Float → Float → Prop) (pick : Float → Float → Float)
    (seed : Float) : Prop where
  isNumber : ∀ {x y}, beyond x y → x.isNaN = false
  asymm : ∀ {x y}, beyond x y → ¬ beyond y x
  split : ∀ {x y z}, y.isNaN = false → beyond x z → beyond x y ∨ beyond y z
  equal : ∀ {x y}, x.isNaN = false → y.isNaN = false → ¬ beyond x y → ¬ beyond y x →
    (x == y) = true
  pick : ∀ {x}, x.isNaN = false → ∀ y, beyond y x ∧ pick x y = y ∨ ¬ beyond y x ∧ pick x y = x
  seed_isNumber : seed.isNaN = false
  seed_last : ∀ x, ¬ beyond seed x

theorem not_infinity_lt (x : Float) : ¬ Numeric.infinity < x := by
  have hinfinity : (Numeric.infinity : Float).toModel.unpack = .infinity .positive := rfl
  rw [lt_iff, hinfinity]
  generalize x.toModel.unpack = u
  rcases u with (_ | _) | _ | _ | _ <;> nofun

theorem not_lt_neg_infinity (x : Float) : ¬ x < -Numeric.infinity := by
  have hinfinity : (-Numeric.infinity : Float).toModel.unpack = .infinity .negative := rfl
  rw [lt_iff, hinfinity]
  generalize x.toModel.unpack = u
  rcases u with (_ | _) | _ | _ | ⟨_ | _, _, _, _⟩ <;> nofun

theorem selects_smaller : Selects (· < ·) Numeric.smaller Numeric.infinity where
  isNumber h := (isNaN_eq_false_of_lt h).1
  asymm := float_lt_asymm
  split := lt_or_lt_of_lt
  equal := beq_of_not_lt
  pick {x} hx y := by
    rw [smaller_eq hx]
    by_cases h : y < x
    · exact Or.inl ⟨h, if_pos h⟩
    · exact Or.inr ⟨h, if_neg h⟩
  seed_isNumber := by decide +kernel
  seed_last := not_infinity_lt

theorem selects_larger : Selects (· > ·) Numeric.larger (-Numeric.infinity) where
  isNumber h := (isNaN_eq_false_of_lt h).2
  asymm := float_lt_asymm
  split hy h := (lt_or_lt_of_lt hy h).symm
  equal hx hy h h' := beq_of_not_lt hx hy h' h
  pick {x} hx y := by
    rw [larger_eq hx]
    by_cases h : x < y
    · exact Or.inl ⟨h, if_pos h⟩
    · exact Or.inr ⟨h, if_neg h⟩
  seed_isNumber := by decide +kernel
  seed_last := not_lt_neg_infinity

/-! ## Picking one of many -/

/-- A double is a number among others, and none of them lies beyond it. -/
structure IsExtreme (beyond : Float → Float → Prop) (candidates : List Float) (x : Float) :
    Prop where
  mem : x ∈ candidates
  isNumber : x.isNaN = false
  last : ∀ y ∈ candidates, ¬ beyond y x

namespace Selects

variable {beyond : Float → Float → Prop} {pick : Float → Float → Float} {seed : Float}

theorem irrefl (h : Selects beyond pick seed) (x : Float) : ¬ beyond x x :=
  fun hx => h.asymm hx hx

/-- One of two doubles is picked of which the first is a number. -/
theorem isExtreme_pick (h : Selects beyond pick seed) {x : Float} (hx : x.isNaN = false)
    (y : Float) : IsExtreme beyond [x, y] (pick x y) := by
  rcases h.pick hx y with ⟨hbeyond, hpick⟩ | ⟨hbeyond, hpick⟩
  · rw [hpick]
    refine ⟨by simp, h.isNumber hbeyond, ?_⟩
    simp [h.irrefl, h.asymm hbeyond]
  · rw [hpick]
    exact ⟨by simp, hx, by simp [h.irrefl, hbeyond]⟩

/-- What does not lie beyond a number does not lie beyond what the number does not lie beyond. -/
theorem not_beyond_trans (h : Selects beyond pick seed) {x y z : Float} (hy : y.isNaN = false)
    (hxy : ¬ beyond x y) (hyz : ¬ beyond y z) : ¬ beyond x z := by
  intro hxz
  rcases h.split hy hxz with hbeyond | hbeyond
  · exact hxy hbeyond
  · exact hyz hbeyond

/-- Picking from a number on, through a list, gives an extreme of the number and the list. -/
theorem isExtreme_foldl (h : Selects beyond pick seed) (values : List Float) {start : Float}
    (hstart : start.isNaN = false) :
    IsExtreme beyond (start :: values) (values.foldl pick start) := by
  induction values generalizing start with
  | nil => exact ⟨by simp, hstart, by simp [h.irrefl]⟩
  | cons x rest ih =>
    have hpick := h.isExtreme_pick hstart x
    have hrest := ih hpick.isNumber
    rw [List.foldl_cons]
    refine ⟨?_, hrest.isNumber, fun y hy => ?_⟩
    · rcases List.mem_cons.1 hrest.mem with hlast | hlast
      · -- What was picked of the first two is picked in the end.
        have hmem := hpick.mem
        rw [← hlast] at hmem
        exact List.mem_append_left rest hmem
      · simp [hlast]
    · have hlast := hrest.last _ List.mem_cons_self
      rw [List.mem_cons, List.mem_cons] at hy
      rcases hy with rfl | rfl | hy
      · exact h.not_beyond_trans hpick.isNumber (hpick.last _ (by simp)) hlast
      · exact h.not_beyond_trans hpick.isNumber (hpick.last _ (by simp)) hlast
      · exact hrest.last _ (List.mem_cons_of_mem _ hy)

end Selects

end Modulation.Binary64

import Modulation.Random.Source

set_option autoImplicit false

/-! # How many numbers are drawn

The numbers that a source gives, one after the other, are its `stream`. `Takes n action` says that
an action that may draw from any source draws exactly the next `n` numbers: it leaves the source
that comes after them, and what it gives is settled by these numbers alone, whatever source they
come from. Actions that are carried out in turn take their numbers in turn (`Takes.bind`). -/

namespace Modulation

variable {α β γ σ τ : Type}

/-! ## Streams -/

section Stream

variable [RandomSource σ α]

/-- The numbers that a source gives, in the order in which they are drawn. -/
def stream (source : σ) : Draws α :=
  fun n => (RandomSource.next (sourceAfter n source)).1

theorem sourceAfter_add (m n : Nat) (source : σ) :
    sourceAfter (m + n) source = sourceAfter n (sourceAfter m source) := by
  induction m generalizing source with
  | zero => rw [Nat.zero_add, sourceAfter]
  | succ m ih => rw [Nat.succ_add, sourceAfter, ih, sourceAfter]

theorem stream_sourceAfter (m n : Nat) (source : σ) :
    stream (sourceAfter m source) n = stream source (m + n) := by
  rw [stream, stream, sourceAfter_add]

/-- A list of draws is its own stream. -/
theorem stream_draws (draws : Draws α) : stream draws = draws := by
  have hafter : ∀ n, sourceAfter n draws = fun k => draws (n + k) := by
    intro n
    induction n generalizing draws with
    | zero => simp [sourceAfter]
    | succ n ih =>
      rw [sourceAfter, ih]
      funext k
      show draws (n + k + 1) = draws (n + 1 + k)
      rw [Nat.add_right_comm]
  funext n
  rw [stream, hafter]
  rfl

end Stream

/-! ## Actions that draw -/

/-- An action draws the next `count` numbers of whatever source it is given, and what it gives is
    settled by them. -/
structure Takes (count : Nat) (action : (σ : Type) → [RandomSource σ α] → StateM σ β) : Prop where
  source : ∀ {σ : Type} [RandomSource σ α] (source : σ),
    (action σ source).2 = sourceAfter count source
  value : ∀ {σ τ : Type} [RandomSource σ α] [RandomSource τ α] {source : σ} {other : τ},
    (∀ n < count, stream source n = stream other n) → (action σ source).1 = (action τ other).1

theorem takes_pure (x : β) : Takes (α := α) 0 fun _ _ => pure x where
  source _ := rfl
  value _ := rfl

theorem takes_draw : Takes (α := α) 1 fun _ _ => draw where
  source _ := rfl
  value h := h 0 Nat.one_pos

theorem Takes.bind {m n : Nat} {first : (σ : Type) → [RandomSource σ α] → StateM σ β}
    {next : β → (σ : Type) → [RandomSource σ α] → StateM σ γ} (hfirst : Takes m first)
    (hnext : ∀ x, Takes n (next x)) : Takes (m + n) fun σ _ => first σ >>= fun x => next x σ where
  source source := by
    show (next _ _ (first _ source).2).2 = _
    rw [(hnext _).source, hfirst.source, sourceAfter_add]
  value {σ τ _ _ source other} h := by
    show (next _ _ (first _ source).2).1 = (next _ _ (first _ other).2).1
    -- The first action takes the first numbers, and the second one those that stand after them.
    rw [hfirst.source, hfirst.source, hfirst.value fun k hk => h k (Nat.lt_add_right n hk)]
    refine (hnext _).value fun k hk => ?_
    rw [stream_sourceAfter, stream_sourceAfter]
    exact h (m + k) (Nat.add_lt_add_left hk m)

/-- How many numbers a step draws is said by `count` of what it is applied to, and is the same
    after the step. -/
structure Steady (count : β → Nat) (step : (σ : Type) → [RandomSource σ α] → β → StateM σ β) :
    Prop where
  takes : ∀ x, Takes (count x) fun σ _ => step σ x
  keeps : ∀ {σ : Type} [RandomSource σ α] (x : β) (source : σ), count (step σ x source).1 = count x

end Modulation

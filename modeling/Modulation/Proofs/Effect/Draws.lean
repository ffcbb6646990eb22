import Modulation.Effect.Basic
import Modulation.Proofs.Signal.Reachable
import Modulation.Proofs.VectorSignal.Draws

set_option autoImplicit false

/-! # What an effect draws

The fields of an effect draw from one source, in the order in which they are refreshed. Each draws
as many numbers in every tick as it has random signals, so that the numbers of a run are laid out in
laps of equal length, and every field has a place of its own in each lap. What becomes of a field is
therefore what would become of it by itself, if it were given the numbers at its places
(`field_refreshTimes`).

`draws_by_structure` says so for the signals and the vector signals of an effect. A field without a
random signal is given no numbers, and neither the source nor the other fields are seen in it. -/

namespace Modulation.Effect

variable {α β σ : Type}

/-! ## The fields of one table -/

/-- How many numbers named items draw together. -/
def fieldsCount (count : β → Nat) : Entries β → Nat
  | [] => 0
  | field :: rest => count field.2 + fieldsCount count rest

section Table

variable {count : β → Nat} {step : (σ : Type) → [RandomSource σ α] → β → StateM σ β}

theorem steady_refreshEach (h : Steady count step) :
    Steady (fieldsCount count) fun σ _ => refreshEach (step σ) where
  takes fields := by
    induction fields with
    | nil => exact takes_pure []
    | cons field rest ih =>
      exact (h.takes field.2).bind fun _ => ih.bind fun _ => takes_pure _
  keeps fields source := by
    induction fields generalizing source with
    | nil => rfl
    | cons field rest ih =>
      show count (step _ field.2 source).1 + fieldsCount count (refreshEach _ rest _).1 = _
      rw [h.keeps, ih]
      rfl

variable [RandomSource σ α]

theorem take_refreshEach (i : Nat) (fields : Entries β) (source : σ) :
    (refreshEach (step σ) fields source).1.take i
      = (refreshEach (step σ) (fields.take i) source).1 := by
  induction fields generalizing i source with
  | nil => cases i <;> rfl
  | cons field rest ih =>
    cases i with
    | zero => rfl
    | succ i => exact congrArg (_ :: ·) (ih i _)

/-- An item draws from the source that the items before it leave. -/
theorem getElem?_refreshEach (h : Steady count step) {fields : Entries β} {i : Nat} {name : String}
    {item : β} (hfield : fields[i]? = some (name, item)) (source : σ) :
    (refreshEach (step σ) fields source).1[i]?
      = some (name, (step σ item (sourceAfter (fieldsCount count (fields.take i)) source)).1) := by
  induction fields generalizing i source with
  | nil => cases hfield
  | cons field rest ih =>
    cases i with
    | zero =>
      cases hfield
      rfl
    | succ i =>
      have hsource : sourceAfter (fieldsCount count (rest.take i)) (step σ field.2 source).2
          = sourceAfter (fieldsCount count ((field :: rest).take (i + 1))) source := by
        rw [(h.takes field.2).source, ← sourceAfter_add]
        rfl
      rw [← hsource]
      exact ih hfield _

end Table

/-! ## The effect as a whole -/

section Effect

variable [Numeric α]

/-- The number of random signals in an effect. -/
def randomCount (effect : Effect α) : Nat :=
  fieldsCount Signal.randomCount effect.scalars
    + fieldsCount VectorSignal.randomCount effect.vectors

/-- How many numbers are drawn in a tick before the signal at an index draws. -/
def scalarOffset (effect : Effect α) (i : Nat) : Nat :=
  fieldsCount Signal.randomCount (effect.scalars.take i)

/-- How many numbers are drawn in a tick before the vector signal at an index draws. -/
def vectorOffset (effect : Effect α) (i : Nat) : Nat :=
  fieldsCount Signal.randomCount effect.scalars
    + fieldsCount VectorSignal.randomCount (effect.vectors.take i)

theorem steady_refresh : Steady (α := α) randomCount fun _ _ => refresh where
  takes effect :=
    ((steady_refreshEach Signal.steady_refresh).takes effect.scalars).bind fun _ =>
      ((steady_refreshEach VectorSignal.steady_refresh).takes effect.vectors).bind fun _ =>
        takes_pure _
  keeps effect source := by
    show fieldsCount _ (refreshEach Signal.refresh _ source).1
      + fieldsCount _ (refreshEach VectorSignal.refresh _ _).1 = _
    rw [(steady_refreshEach Signal.steady_refresh).keeps,
      (steady_refreshEach VectorSignal.steady_refresh).keeps, randomCount]

variable [RandomSource σ α]

theorem scalars_refresh (effect : Effect α) (source : σ) :
    (effect.refresh source).1.scalars = (refreshEach Signal.refresh effect.scalars source).1 := rfl

/-- The vector signals are refreshed from the source that the signals leave. -/
theorem vectors_refresh (effect : Effect α) (source : σ) :
    (effect.refresh source).1.vectors
      = (refreshEach VectorSignal.refresh effect.vectors
          (sourceAfter (fieldsCount Signal.randomCount effect.scalars) source)).1 := by
  rw [← ((steady_refreshEach Signal.steady_refresh).takes effect.scalars).source]
  rfl

theorem source_refreshTimes (ticks : Nat) (effect : Effect α) (source : σ) :
    (effect.refreshTimes ticks source).2 = sourceAfter (ticks * effect.randomCount) source := by
  induction ticks generalizing effect source with
  | zero => rw [Nat.zero_mul]; rfl
  | succ ticks ih =>
    show (refreshTimes ticks (effect.refresh source).1 (effect.refresh source).2).2 = _
    rw [ih, steady_refresh.keeps, (steady_refresh.takes effect).source, ← sourceAfter_add,
      Nat.succ_mul, Nat.add_comm]

/-! ## A field by itself -/

/-- An item after a number of steps, where each step draws from numbers of its own. -/
def alone (step : β → StateM (Draws α) β) : (ticks : Nat) → (own : Nat → Draws α) → β → β
  | 0, _, item => item
  | ticks + 1, own, item => alone step ticks (fun tick => own (tick + 1)) (step item (own 0)).1

/-- In each tick a field is given the numbers at its places: `count` numbers from `offset` on, in
    laps of length `lap`. What is given after them does not matter. -/
def Given (numbers : Draws α) (lap offset count ticks : Nat) (own : Nat → Draws α) : Prop :=
  ∀ tick < ticks, ∀ k < count, own tick k = numbers (tick * lap + offset + k)

omit [Numeric α] in
theorem Given.later {source : σ} {lap offset count ticks : Nat} {own : Nat → Draws α}
    (h : Given (stream source) lap offset count (ticks + 1) own) :
    Given (stream (sourceAfter lap source)) lap offset count ticks fun tick => own (tick + 1) := by
  intro tick htick k hk
  have hplace : (tick + 1) * lap + offset + k = lap + (tick * lap + offset + k) := by
    rw [Nat.succ_mul]
    omega
  rw [stream_sourceAfter, ← hplace]
  exact h (tick + 1) (Nat.succ_lt_succ htick) k hk

omit [Numeric α] in
theorem given_of_eq_zero {count : Nat} {own : Nat → Draws α} (h : count = 0) (numbers : Draws α)
    (lap offset ticks : Nat) : Given numbers lap offset count ticks own := by
  subst h
  exact fun _ _ _ hk => absurd hk (Nat.not_lt_zero _)

/-- A field of a table is after a number of ticks what it is by itself, if it is given the numbers
    at its places. In every tick the table is refreshed from the source that `before` many draws
    leave. -/
theorem field_refreshTimes {count : β → Nat}
    {step : (σ : Type) → [RandomSource σ α] → β → StateM σ β} (h : Steady count step)
    (table : Effect α → Entries β) (before : Effect α → Nat)
    (htable : ∀ (effect : Effect α) (source : σ), table (effect.refresh source).1
      = (refreshEach (step σ) (table effect) (sourceAfter (before effect) source)).1)
    (hbefore : ∀ (effect : Effect α) (source : σ),
      before (effect.refresh source).1 = before effect)
    (ticks : Nat) {effect : Effect α} {source : σ} {i : Nat} {name : String} {item : β}
    (hfield : (table effect)[i]? = some (name, item)) {own : Nat → Draws α}
    (hown : Given (stream source) effect.randomCount
      (before effect + fieldsCount count ((table effect).take i)) (count item) ticks own) :
    (table (effect.refreshTimes ticks source).1)[i]?
      = some (name, alone (step (Draws α)) ticks own item) := by
  induction ticks generalizing effect source item own with
  | zero => exact hfield
  | succ ticks ih =>
    -- What a refresh gives is settled by the numbers that it draws, and these are the field's own.
    have hvalue : (step σ item (sourceAfter (fieldsCount count ((table effect).take i))
        (sourceAfter (before effect) source))).1 = (step (Draws α) item (own 0)).1 := by
      refine (h.takes item).value fun k hk => ?_
      rw [← sourceAfter_add, stream_sourceAfter, stream_draws, hown 0 (Nat.succ_pos ticks) k hk,
        Nat.zero_mul, Nat.zero_add]
    have hnext : (table (effect.refresh source).1)[i]?
        = some (name, (step (Draws α) item (own 0)).1) := by
      rw [htable, getElem?_refreshEach h hfield, hvalue]
    have hoffset : fieldsCount count ((table (effect.refresh source).1).take i)
        = fieldsCount count ((table effect).take i) := by
      rw [htable, take_refreshEach, (steady_refreshEach h).keeps]
    refine @ih (effect.refresh source).1 (effect.refresh source).2 _ hnext _ ?_
    rw [steady_refresh.keeps, (steady_refresh.takes effect).source, hbefore, hoffset, h.keeps]
    exact hown.later

theorem scalar_refreshTimes (ticks : Nat) {effect : Effect α} {source : σ} {i : Nat}
    {name : String} {signal : Signal α} (hfield : effect.scalars[i]? = some (name, signal))
    {own : Nat → Draws α}
    (hown : Given (stream source) effect.randomCount (effect.scalarOffset i) signal.randomCount
      ticks own) :
    (effect.refreshTimes ticks source).1.scalars[i]?
      = some (name, alone Signal.refresh ticks own signal) := by
  refine field_refreshTimes Signal.steady_refresh scalars (fun _ => 0) scalars_refresh
    (fun _ _ => rfl) ticks hfield ?_
  rw [Nat.zero_add]
  exact hown

theorem vector_refreshTimes (ticks : Nat) {effect : Effect α} {source : σ} {i : Nat}
    {name : String} {signal : VectorSignal α}
    (hfield : effect.vectors[i]? = some (name, signal)) {own : Nat → Draws α}
    (hown : Given (stream source) effect.randomCount (effect.vectorOffset i) signal.randomCount
      ticks own) :
    (effect.refreshTimes ticks source).1.vectors[i]?
      = some (name, alone VectorSignal.refresh ticks own signal) := by
  refine field_refreshTimes VectorSignal.steady_refresh vectors
    (fun effect => fieldsCount Signal.randomCount effect.scalars) vectors_refresh
    (fun effect source => ?_) ticks hfield hown
  exact (steady_refreshEach Signal.steady_refresh).keeps effect.scalars source

/-! ## Draws are laid out by structure -/

/-- A refresh of a signal or of a vector signal draws a number for each random signal in it, whatever
    the values are, and keeps the number of random signals. A run of an effect draws as many numbers
    in every tick as there are random signals in it, and each field is after the run what it is by
    itself, if it is given the numbers at its places. A field without a random signal is the same
    after a run with any source and beside any other fields. -/
theorem draws_by_structure :
    Steady (α := α) Signal.randomCount (fun _ _ => Signal.refresh)
      ∧ Steady (α := α) VectorSignal.randomCount (fun _ _ => VectorSignal.refresh)
      ∧ ∀ {σ : Type} [RandomSource σ α] (source : σ) (effect : Effect α) (ticks : Nat),
        (effect.refreshTimes ticks source).2 = sourceAfter (ticks * effect.randomCount) source
          ∧ (∀ i name signal own, effect.scalars[i]? = some (name, signal) →
              Given (stream source) effect.randomCount (effect.scalarOffset i) signal.randomCount
                ticks own →
              (effect.refreshTimes ticks source).1.scalars[i]?
                = some (name, alone Signal.refresh ticks own signal))
          ∧ (∀ i name signal own, effect.vectors[i]? = some (name, signal) →
              Given (stream source) effect.randomCount (effect.vectorOffset i) signal.randomCount
                ticks own →
              (effect.refreshTimes ticks source).1.vectors[i]?
                = some (name, alone VectorSignal.refresh ticks own signal))
          ∧ ∀ {τ : Type} [RandomSource τ α] (otherSource : τ) (other : Effect α) (i j : Nat)
              (name : String),
            (∀ signal, effect.scalars[i]? = some (name, signal) →
                other.scalars[j]? = some (name, signal) → signal.randomCount = 0 →
                (effect.refreshTimes ticks source).1.scalars[i]?
                  = (other.refreshTimes ticks otherSource).1.scalars[j]?)
              ∧ ∀ signal, effect.vectors[i]? = some (name, signal) →
                other.vectors[j]? = some (name, signal) → signal.randomCount = 0 →
                (effect.refreshTimes ticks source).1.vectors[i]?
                  = (other.refreshTimes ticks otherSource).1.vectors[j]? := by
  refine ⟨Signal.steady_refresh, VectorSignal.steady_refresh, fun source effect ticks => ?_⟩
  refine ⟨source_refreshTimes ticks effect source,
    fun i name signal own hfield hown => scalar_refreshTimes ticks hfield hown,
    fun i name signal own hfield hown => vector_refreshTimes ticks hfield hown,
    fun otherSource other i j name => ⟨fun signal hfield hother hnone => ?_,
      fun signal hfield hother hnone => ?_⟩⟩
  -- Where no number is drawn, whatever is given is what stands at the places of the field.
  · have hown := @given_of_eq_zero _ _ (fun _ => stream source) hnone
    rw [scalar_refreshTimes ticks hfield (hown _ _ _ _),
      scalar_refreshTimes ticks hother (hown _ _ _ _)]
  · have hown := @given_of_eq_zero _ _ (fun _ => stream source) hnone
    rw [vector_refreshTimes ticks hfield (hown _ _ _ _),
      vector_refreshTimes ticks hother (hown _ _ _ _)]

end Effect

/-- A direction with a random part. -/
def jitter : VectorSignal Float :=
  .components (Signal.random (.constant 0.0) (.constant 2.0)) (.constant 0.0) (.constant 1.0)

/-- A ramp between two fields that draw. -/
def flicker : Effect Float :=
  ⟨[("noise", Signal.random (.constant 0.0) (.constant 1.0)), ("size", Signal.ramp)],
    [("offset", jitter)], 0⟩

/-- A ramp without other fields. -/
def growing : Effect Float :=
  ⟨[("size", Signal.ramp)], [], 0⟩

/-- Draws that rise by an eighth. -/
def eighths : Draws Float :=
  fun n => Float.ofNat n / 8.0

theorem flicker_draws :
    (flicker.scalars[1]? = some ("size", Signal.ramp)
        ∧ flicker.vectors[0]? = some ("offset", jitter)
        ∧ Given (stream eighths) flicker.randomCount (flicker.vectorOffset 0) jitter.randomCount 2
          (fun tick k => eighths (tick * 2 + 1 + k))
        ∧ growing.scalars[0]? = some ("size", Signal.ramp) ∧ Signal.ramp.randomCount = 0)
      ∧ (flicker.refreshTimes 2 eighths).2 = sourceAfter 4 eighths
      ∧ (flicker.refreshTimes 2 eighths).1.vectors[0]?
          = some ("offset", alone VectorSignal.refresh 2
              (fun tick k => eighths (tick * 2 + 1 + k)) jitter)
      ∧ (flicker.refreshTimes 2 eighths).1.scalars[1]?
          = (growing.refreshTimes 2 (fun _ => 0.5 : Draws Float)).1.scalars[0]? := by
  have hgiven : Given (stream eighths) flicker.randomCount (flicker.vectorOffset 0)
      jitter.randomCount 2 (fun tick k => eighths (tick * 2 + 1 + k)) := by
    rw [stream_draws]
    exact fun _ _ _ _ => rfl
  obtain ⟨-, -, hruns⟩ := draws_by_structure (α := Float)
  obtain ⟨hsource, -, hvectors, hother⟩ := hruns eighths flicker 2
  obtain ⟨hscalars, -⟩ := hother (fun _ => 0.5 : Draws Float) growing 1 0 "size"
  exact ⟨⟨rfl, rfl, hgiven, rfl, rfl⟩, hsource, hvectors 0 _ _ _ rfl hgiven,
    hscalars _ rfl rfl rfl⟩

end Modulation.Effect

import Modulation.Proofs.Signal.Rebuilding
import Modulation.Proofs.VectorSignal.Coherence

set_option autoImplicit false

/-! # Rebuilding a vector signal

Reading a written vector signal builds it anew, as for signals. What differs is a vector that is put
together from three constants: it is written like a constant, and so it is read as one. `collapsed`
makes this one change. It is a change of the parts alone: a collapsed vector signal has the values
of the original now and after every tick, and draws the same numbers (`refresh_collapsed`,
`samples_collapsed`). -/

namespace Modulation.VectorSignal

variable {α : Type}

mutual

/-- The vector signal in which a vector of three constants is a constant. -/
def collapsed : VectorSignal α → VectorSignal α
  | constant value => constant value
  | combined op arguments value => combined op (collapsedAll arguments) value
  | normalized inner value => normalized (collapsed inner) value
  | scaled vector factor value => scaled (collapsed vector) factor value
  | rotated about period radius phase value => rotated (collapsed about) period radius phase value
  | assembled x y z value =>
    if x.isConstant && y.isConstant && z.isConstant then constant value else assembled x y z value

/-- Vector signals collapsed one by one. -/
def collapsedAll : List (VectorSignal α) → List (VectorSignal α)
  | [] => []
  | signal :: rest => collapsed signal :: collapsedAll rest

end

theorem collapsedAll_eq_map (arguments : List (VectorSignal α)) :
    collapsedAll arguments = arguments.map collapsed := by
  induction arguments with
  | nil => rfl
  | cons first rest ih => rw [collapsedAll, ih, List.map_cons]

theorem collapsed_value (signal : VectorSignal α) : signal.collapsed.value = signal.value := by
  cases signal with
  | assembled x y z value =>
    rw [collapsed]
    split <;> rfl
  | _ => rfl

theorem map_value_collapsedAll (arguments : List (VectorSignal α)) :
    (collapsedAll arguments).map VectorSignal.value = arguments.map VectorSignal.value := by
  rw [collapsedAll_eq_map, List.map_map]
  exact List.map_congr_left fun argument _ => collapsed_value argument

variable [Numeric α]

/-! ## Building from collapsed parts -/

theorem combine_collapsedAll (op : VectorOperator) (arguments : List (VectorSignal α)) :
    combine op (collapsedAll arguments) = (combine op arguments).collapsed := by
  rw [combine, map_value_collapsedAll]
  rfl

theorem normalize_collapsed (inner : VectorSignal α) :
    normalize inner.collapsed = (normalize inner).collapsed := by
  rw [normalize, collapsed_value]
  rfl

theorem scale_collapsed (vector : VectorSignal α) (factor : Signal α) :
    scale vector.collapsed factor = (scale vector factor).collapsed := by
  rw [scale, collapsed_value]
  rfl

theorem atPhase_collapsed (about : VectorSignal α) (period radius : Signal α) (phase : α) :
    atPhase about.collapsed period radius phase = (atPhase about period radius phase).collapsed := by
  rw [atPhase, collapsed_value]
  rfl

omit [Numeric α] in
theorem ofComponents_eq_collapsed (x y z : Signal α) :
    ofComponents x y z = (components x y z).collapsed := by
  rw [ofComponents_eq]
  rfl

/-! ## Building anew -/

mutual

/-- The vector signal built anew from the parts of a vector signal, with the arguments of its
    signals arranged. -/
def rebuilt (arrange : List (Signal α) → List (Signal α)) : VectorSignal α → VectorSignal α
  | constant value => constant value
  | combined op arguments _ => combine op (rebuiltAll arrange arguments)
  | normalized inner _ => normalize (rebuilt arrange inner)
  | scaled vector factor _ => scale (rebuilt arrange vector) (factor.rebuilt arrange)
  | rotated about period radius phase _ =>
    rotate (rebuilt arrange about) (period.rebuilt arrange) (radius.rebuilt arrange) phase
  | assembled x y z _ => ofComponents (x.rebuilt arrange) (y.rebuilt arrange) (z.rebuilt arrange)

/-- Vector signals built anew, one by one. -/
def rebuiltAll (arrange : List (Signal α) → List (Signal α)) :
    List (VectorSignal α) → List (VectorSignal α)
  | [] => []
  | signal :: rest => rebuilt arrange signal :: rebuiltAll arrange rest

end

theorem rebuiltAll_eq_map (arrange : List (Signal α) → List (Signal α))
    (arguments : List (VectorSignal α)) :
    rebuiltAll arrange arguments = arguments.map (rebuilt arrange) := by
  induction arguments with
  | nil => rfl
  | cons first rest ih => rw [rebuiltAll, ih, List.map_cons]

/-- What the functions that build vector signals keep holds of every vector signal built anew. -/
theorem closed_rebuilt {P : VectorSignal α → Prop} {Q : Signal α → Prop} (hP : Closed P Q)
    {arrange : List (Signal α) → List (Signal α)}
    (hsignals : ∀ {signal : Signal α}, signal.Coherent → Q (signal.rebuilt arrange))
    {signal : VectorSignal α} (h : signal.Coherent) : P (rebuilt arrange signal) := by
  induction h with
  | constant _ => exact hP.constant _
  | @combined op arguments _ hmade _ ih =>
    rw [rebuilt, rebuiltAll_eq_map]
    refine hP.combine ?_ fun argument hmem => ?_
    · rw [List.length_map]
      exact hmade.1
    · obtain ⟨written, hwritten, rfl⟩ := List.mem_map.1 hmem
      exact ih written hwritten
  | normalized _ _ ih => exact hP.normalize ih
  | scaled _ _ hfactor ih => exact hP.scale ih (hsignals hfactor)
  | rotated _ _ hperiod hradius ih => exact hP.rotate _ ih (hsignals hperiod) (hsignals hradius)
  | assembled _ hx hy hz => exact hP.ofComponents (hsignals hx) (hsignals hy) (hsignals hz)

/-- A vector signal that is built anew has no vectors of three constants in it. -/
theorem collapsed_rebuilt (arrange : List (Signal α) → List (Signal α)) {signal : VectorSignal α}
    (h : signal.Coherent) : (rebuilt arrange signal).collapsed = rebuilt arrange signal := by
  induction h with
  | constant _ => rfl
  | @combined op arguments _ _ _ ih =>
    have hparts : collapsedAll (arguments.map (rebuilt arrange))
        = arguments.map (rebuilt arrange) := by
      rw [collapsedAll_eq_map, List.map_map]
      exact List.map_congr_left ih
    rw [rebuilt, rebuiltAll_eq_map, ← combine_collapsedAll, hparts]
  | normalized _ _ ih => rw [rebuilt, ← normalize_collapsed, ih]
  | scaled _ _ _ ih => rw [rebuilt, ← scale_collapsed, ih]
  | rotated _ _ _ _ ih => rw [rebuilt, rotate, ← atPhase_collapsed, ih]
  | assembled _ _ _ _ =>
    rw [rebuilt, ofComponents_eq]
    split
    · rfl
    · next hgenerated => rw [components, collapsed, if_neg hgenerated]

/-- The phase of a rotation is the one at which it starts with that initial progress. -/
def KeepsPhase : VectorSignal α → Prop
  | rotated _ _ _ phase _ => startPhase phase rotationRange = phase
  | _ => True

/-- The phases of a vector signal and of the signals in it are those at which they start with that
    initial progress. -/
def KeepsPhases (signal : VectorSignal α) : Prop :=
  signal.Everywhere KeepsPhase Signal.KeepsPhase

theorem rebuilt_eq_collapsed {arrange : List (Signal α) → List (Signal α)}
    {signal : VectorSignal α} (hcoherent : signal.Coherent) (hphases : signal.KeepsPhases)
    (harranged : signal.Everywhere (fun _ => True) (Signal.IsArranged arrange)) :
    rebuilt arrange signal = signal.collapsed := by
  induction hcoherent with
  | constant _ => rfl
  | @combined op arguments value hmade _ ih =>
    cases hphases with
    | combined _ hphases =>
      cases harranged with
      | combined _ harranged =>
        have hparts : rebuiltAll arrange arguments = collapsedAll arguments := by
          rw [rebuiltAll_eq_map, collapsedAll_eq_map]
          exact List.map_congr_left fun argument hmem =>
            ih argument hmem (hphases argument hmem) (harranged argument hmem)
        rw [rebuilt, hparts, combine_collapsedAll, combine, ← hmade.2]
  | normalized hmade _ ih =>
    cases hphases with
    | normalized _ hphases =>
      cases harranged with
      | normalized _ harranged =>
        rw [rebuilt, ih hphases harranged, normalize_collapsed, normalize, ← hmade]
  | scaled hmade _ hfactor ih =>
    cases hphases with
    | scaled _ hphases hphasesFactor =>
      cases harranged with
      | scaled _ harranged harrangedFactor =>
        rw [rebuilt, ih hphases harranged,
          Signal.rebuilt_eq_self hfactor hphasesFactor harrangedFactor, scale_collapsed, scale,
          ← hmade]
  | rotated hmade _ hperiod hradius ih =>
    cases hphases with
    | rotated hphase hphases hphasesPeriod hphasesRadius =>
      cases harranged with
      | rotated _ harranged harrangedPeriod harrangedRadius =>
        rw [rebuilt, ih hphases harranged,
          Signal.rebuilt_eq_self hperiod hphasesPeriod harrangedPeriod,
          Signal.rebuilt_eq_self hradius hphasesRadius harrangedRadius, rotate,
          show startPhase _ _ = _ from hphase, atPhase_collapsed, atPhase, ← hmade]
  | assembled hmade hx hy hz =>
    cases hphases with
    | assembled _ hphasesX hphasesY hphasesZ =>
      cases harranged with
      | assembled _ harrangedX harrangedY harrangedZ =>
        rw [rebuilt, Signal.rebuilt_eq_self hx hphasesX harrangedX,
          Signal.rebuilt_eq_self hy hphasesY harrangedY,
          Signal.rebuilt_eq_self hz hphasesZ harrangedZ, ofComponents_eq_collapsed, components,
          ← hmade]

/-! ## Refreshing a collapsed vector signal -/

section Refresh

variable {σ : Type} [RandomSource σ α]

/-- Refreshing and collapsing a vector signal can change places, and the numbers drawn are the
    same. -/
def RefreshesCollapsed (σ : Type) [RandomSource σ α] (signal : VectorSignal α) : Prop :=
  ∀ source : σ,
    refresh signal.collapsed source
      = ((refresh signal source).1.collapsed, (refresh signal source).2)

theorem refreshAll_collapsedAll {arguments : List (VectorSignal α)}
    (h : ∀ argument ∈ arguments, argument.RefreshesCollapsed σ) (source : σ) :
    refreshAll (collapsedAll arguments) source
      = (collapsedAll (refreshAll arguments source).1, (refreshAll arguments source).2) := by
  induction arguments generalizing source with
  | nil => rfl
  | cons first rest ih =>
    have hfirst := h first List.mem_cons_self source
    have hrest := ih (fun argument hmem => h argument (List.mem_cons_of_mem _ hmem))
      (refresh first source).2
    show ((refresh first.collapsed source).1
          :: (refreshAll (collapsedAll rest) (refresh first.collapsed source).2).1,
        (refreshAll (collapsedAll rest) (refresh first.collapsed source).2).2) = _
    rw [hfirst, hrest]
    rfl

theorem refresh_collapsed {signal : VectorSignal α} (h : signal.Coherent) :
    signal.RefreshesCollapsed σ := by
  induction h with
  | constant _ => exact fun _ => rfl
  | @combined op arguments _ _ _ ih =>
    intro source
    show (combine op (refreshAll (collapsedAll arguments) source).1,
      (refreshAll (collapsedAll arguments) source).2) = _
    rw [refreshAll_collapsedAll ih, combine_collapsedAll]
    rfl
  | @normalized inner _ _ _ ih =>
    intro source
    show (normalize (refresh inner.collapsed source).1, (refresh inner.collapsed source).2) = _
    rw [ih, normalize_collapsed]
    rfl
  | @scaled vector factor _ _ _ _ ih =>
    intro source
    show (scale (refresh vector.collapsed source).1
        (factor.refresh (refresh vector.collapsed source).2).1,
      (factor.refresh (refresh vector.collapsed source).2).2) = _
    rw [ih, scale_collapsed]
    rfl
  | @rotated about period radius phase _ _ _ _ _ ih =>
    intro source
    show (atPhase (refresh about.collapsed source).1
        (period.refresh (refresh about.collapsed source).2).1
        (radius.refresh (period.refresh (refresh about.collapsed source).2).2).1
        (nextPhase phase rotationRange (period.refresh (refresh about.collapsed source).2).1.value),
      (radius.refresh (period.refresh (refresh about.collapsed source).2).2).2) = _
    rw [ih, atPhase_collapsed]
    rfl
  | @assembled x y z value hmade _ _ _ =>
    intro source
    rw [collapsed]
    split
    -- Three constants do not change and draw nothing, and neither does one.
    · next hconstant =>
      obtain ⟨⟨hx, hy⟩, hz⟩ : (x.isConstant = true ∧ y.isConstant = true) ∧ z.isConstant = true := by
        simpa using hconstant
      show (constant value, source)
        = ((components (x.refresh source).1 (y.refresh (x.refresh source).2).1
            (z.refresh (y.refresh (x.refresh source).2).2).1).collapsed,
          (z.refresh (y.refresh (x.refresh source).2).2).2)
      rw [Signal.refresh_of_isConstant hx, Signal.refresh_of_isConstant hy,
        Signal.refresh_of_isConstant hz, components, ← hmade, collapsed, if_pos hconstant]
    -- A signal that is no constant is none a tick later, so the vector stays as it is made.
    · next hgenerated =>
      show (components _ _ _, _) = ((components _ _ _).collapsed, _)
      rw [components, collapsed, Signal.isConstant_refresh, Signal.isConstant_refresh,
        Signal.isConstant_refresh, if_neg hgenerated]
      rfl

/-- A collapsed vector signal has the values of the original after every tick, and the numbers drawn
    are the same. -/
theorem samples_collapsed [Numeric.Lawful α] {signal : VectorSignal α} (h : signal.Coherent)
    (ticks : Nat) (source : σ) :
    samples ticks signal.collapsed source
      = ((samples ticks signal source).1.map collapsed, (samples ticks signal source).2) := by
  induction ticks generalizing signal source with
  | zero => rfl
  | succ ticks ih =>
    show ((refresh signal.collapsed source).1
        :: (samples ticks (refresh signal.collapsed source).1
          (refresh signal.collapsed source).2).1,
      (samples ticks (refresh signal.collapsed source).1
        (refresh signal.collapsed source).2).2) = _
    rw [refresh_collapsed h, ih (coherent_refresh h source)]
    rfl

end Refresh

end Modulation.VectorSignal

import Modulation.Proofs.Signal.Coherence

set_option autoImplicit false

/-! # Rebuilding a signal

Reading a written signal builds every part of it anew, by the functions that build signals.
`rebuilt` is what comes of this. It puts the arguments of every operator in the order that `arrange`
gives them, because what stands between writing and reading may change that order.

What the building functions keep holds of a rebuilt signal (`closed_rebuilt`). A coherent signal is
rebuilt as it was if its phases are those at which a signal with that initial progress starts, and
`arrange` changes no list of arguments in it (`rebuilt_eq_self`). -/

namespace Modulation.Signal

variable {α : Type} [Numeric α]

mutual

/-- The signal built anew from the parts of a signal, with its arguments arranged. -/
def rebuilt (arrange : List (Signal α) → List (Signal α)) : Signal α → Signal α
  | constant value => constant value
  | combined op arguments _ => combine op (arrange (rebuiltAll arrange arguments))
  | absolute inner _ => abs (rebuilt arrange inner)
  | clamped low high inner _ =>
    clamp (rebuilt arrange low) (rebuilt arrange high) (rebuilt arrange inner)
  | periodic form low high period phase _ =>
    wave form (rebuilt arrange low) (rebuilt arrange high) (rebuilt arrange period) phase
  | drawn low high last _ => withLast (rebuilt arrange low) (rebuilt arrange high) last

/-- Signals built anew, one by one. -/
def rebuiltAll (arrange : List (Signal α) → List (Signal α)) : List (Signal α) → List (Signal α)
  | [] => []
  | signal :: rest => rebuilt arrange signal :: rebuiltAll arrange rest

end

theorem rebuiltAll_eq_map (arrange : List (Signal α) → List (Signal α))
    (arguments : List (Signal α)) : rebuiltAll arrange arguments = arguments.map (rebuilt arrange) := by
  induction arguments with
  | nil => rfl
  | cons first rest ih => rw [rebuiltAll, ih, List.map_cons]

theorem isConstant_rebuilt (arrange : List (Signal α) → List (Signal α)) (signal : Signal α) :
    (rebuilt arrange signal).isConstant = signal.isConstant := by
  cases signal <;> rfl

/-- What the functions that build signals keep holds of every signal built anew. -/
theorem closed_rebuilt {P : Signal α → Prop} (hP : Closed P)
    {arrange : List (Signal α) → List (Signal α)}
    (hperm : ∀ arguments, (arrange arguments).Perm arguments) {signal : Signal α}
    (h : signal.Coherent) : P (rebuilt arrange signal) := by
  induction h with
  | constant _ => exact hP.constant _
  | @combined op arguments _ hmade _ ih =>
    have hparts : (arrange (arguments.map (rebuilt arrange))).Perm
        (arguments.map (rebuilt arrange)) := hperm _
    rw [rebuilt, rebuiltAll_eq_map]
    refine hP.combine ?_ fun argument hmem => ?_
    · rw [hparts.length_eq, List.length_map]
      exact hmade.1
    · obtain ⟨written, hwritten, rfl⟩ := List.mem_map.1 (hparts.mem_iff.1 hmem)
      exact ih written hwritten
  | absolute _ _ ih => exact hP.abs ih
  | clamped _ _ _ _ ihLow ihHigh ihInner => exact hP.clamp ihLow ihHigh ihInner
  | periodic _ _ _ _ ihLow ihHigh ihPeriod => exact hP.wave _ ihLow ihHigh ihPeriod
  | drawn _ _ _ ihLow ihHigh => exact hP.withLast _ ihLow ihHigh

/-- The phase of a periodic signal is the one at which it starts with that initial progress. -/
def KeepsPhase : Signal α → Prop
  | periodic form _ _ _ phase _ => startPhase phase form.range = phase
  | _ => True

/-- The arguments of an operator are arranged already. -/
def IsArranged (arrange : List (Signal α) → List (Signal α)) : Signal α → Prop
  | combined _ arguments _ => arrange arguments = arguments
  | _ => True

theorem rebuilt_eq_self {arrange : List (Signal α) → List (Signal α)} {signal : Signal α}
    (hcoherent : signal.Coherent) (hphases : signal.Everywhere KeepsPhase)
    (harranged : signal.Everywhere (IsArranged arrange)) : rebuilt arrange signal = signal := by
  induction hcoherent with
  | constant _ => rfl
  | @combined op arguments value hmade _ ih =>
    cases hphases with
    | combined _ hphases =>
      cases harranged with
      | combined hself harranged =>
        have hparts : arguments.map (rebuilt arrange) = arguments := by
          rw [List.map_congr_left fun argument hmem =>
            ih argument hmem (hphases argument hmem) (harranged argument hmem), List.map_id']
        rw [rebuilt, rebuiltAll_eq_map, hparts, hself, combine, ← hmade.2]
  | absolute hmade _ ih =>
    cases hphases with
    | absolute _ hphases =>
      cases harranged with
      | absolute _ harranged => rw [rebuilt, ih hphases harranged, abs, ← hmade]
  | clamped hmade _ _ _ ihLow ihHigh ihInner =>
    cases hphases with
    | clamped _ hlow hhigh hinner =>
      cases harranged with
      | clamped _ hlow' hhigh' hinner' =>
        -- Bounds that are in order do not change places when they are given again.
        rw [rebuilt, ihLow hlow hlow', ihHigh hhigh hhigh', ihInner hinner hinner', clamp,
          ordered_eq_self hmade.1, hmade.2]
  | periodic hmade _ _ _ ihLow ihHigh ihPeriod =>
    cases hphases with
    | periodic hphase hlow hhigh hperiod =>
      cases harranged with
      | periodic _ hlow' hhigh' hperiod' =>
        rw [rebuilt, ihLow hlow hlow', ihHigh hhigh hhigh', ihPeriod hperiod hperiod', wave,
          show startPhase _ _ = _ from hphase, atPhase, ordered_eq_self hmade.1, hmade.2]
  | drawn hmade _ _ ihLow ihHigh =>
    cases hphases with
    | drawn _ hlow hhigh =>
      cases harranged with
      | drawn _ hlow' hhigh' =>
        rw [rebuilt, ihLow hlow hlow', ihHigh hhigh hhigh', withLast, ordered_eq_self hmade.1,
          hmade.2]

end Modulation.Signal

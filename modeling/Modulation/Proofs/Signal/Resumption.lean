import Modulation.Proofs.Binary64.Word
import Modulation.Proofs.Provider.Arguments
import Modulation.Proofs.Provider.Page
import Modulation.Proofs.Signal.Reachable
import Modulation.Proofs.Signal.Rebuilding
import Modulation.Signal.Writer

set_option autoImplicit false

/-! # Reading a written signal

What is written of a signal is read as the signal built anew from its parts, on a page or off it
(`reads_page`). A page may bring the arguments of an operator into another order; `Arranges` says
into which.

Without a page a reachable signal is built anew as it was (`read_write`): it keeps its kinds, its
arguments in their order, its bounds in theirs, its phases, the numbers drawn last and every
value. -/

namespace Modulation.Signal

open Modulation.Config

variable {α : Type}

theorem toValues_eq_map (arguments : List (Signal α)) :
    toValues arguments = arguments.map toValue := by
  induction arguments with
  | nil => rfl
  | cons first rest ih => rw [toValues, ih, List.map_cons]

/-- A constant stands on a line, and every other signal has blocks of its own. -/
theorem isBranch_toValue (signal : Signal α) : signal.toValue.isBranch = !signal.isConstant := by
  cases signal <;> rfl

variable [Numeric α]

/-! ## The written signal as a whole -/

section Page

variable {page : Value α → Value α} {rows : Section α → Section α}
  {arrange : List (Signal α) → List (Signal α)}

/-- A value on a page is read as a signal, and it has blocks of its own unless the signal is a
    constant. -/
def ReadsOn (page : Value α → Value α) (value : Value α) (signal : Signal α) : Prop :=
  Reads ofValue (page value) signal ∧ value.isBranch = !signal.isConstant

/-- The arguments of an operator are read from a page in the order that `arrange` gives them. -/
structure Arranges (page : Value α → Value α) (rows : Section α → Section α)
    (arrange : List (Signal α) → List (Signal α)) : Prop where
  perm : ∀ arguments, (arrange arguments).Perm arguments
  reads : ∀ {values : List (Value α)} {arguments : List (Signal α)},
    List.Forall₂ (ReadsOn page) values arguments →
      List.Forall₂ (Reads ofValue) ((rows (keyedArguments values)).map Prod.snd) (arrange arguments)

theorem arranges_id : Arranges (α := α) id id id where
  perm _ := .refl _
  reads h := by
    rw [id, keyedArguments_values]
    exact h.imp fun _ _ hreads => hreads.1

/-- What is written of a signal is read as the signal built anew from its parts. -/
theorem reads_page [Numeric.Lawful α] (hpage : Keeps page rows)
    (harrange : Arranges page rows arrange) {signal : Signal α} (h : signal.Coherent) :
    Reads ofValue (page signal.toValue) (rebuilt arrange signal) := by
  induction h with
  | @constant value _ =>
    intro path
    rw [toValue, hpage.float, ofValue, rebuilt]
  | @combined op arguments value hmade _ ih =>
    have hreads : List.Forall₂ (ReadsOn page) (toValues arguments)
        (arguments.map (rebuilt arrange)) := by
      rw [toValues_eq_map, List.forall₂_map_left_iff, List.forall₂_map_right_iff,
        List.forall₂_same]
      refine fun argument hmem => ⟨ih argument hmem, ?_⟩
      rw [isBranch_toValue, isConstant_rebuilt]
    -- In whatever order the arguments come back, they are as many as before.
    have hadmits : op.arity.Admits (arrange (arguments.map (rebuilt arrange))).length := by
      rw [(harrange.perm _).length_eq, List.length_map]
      exact hmade.1
    rw [toValue, hpage.table, rebuilt, rebuiltAll_eq_map, argumentSection_eq]
    exact reads_combined (chooseTag_page_table hpage (ofTag?_tag (.combine op)) _)
      (harrange.reads hreads) hadmits
  | absolute _ _ ih =>
    rw [toValue, hpage.table, rebuilt]
    exact reads_absolute (chooseTag_page hpage (ofTag?_tag .abs) _) ih
  | clamped _ _ _ _ ihLow ihHigh ihInner =>
    have hdistinct : List.Nodup ["min", "max", "value"] := by decide
    rw [toValue, hpage.table, rebuilt]
    refine reads_clamped (chooseTag_page_table hpage (ofTag?_tag .clamp) _)
      (holdsAt_page hpage ?_ rfl ihLow) (holdsAt_page hpage ?_ rfl ihHigh)
      (holdsAt_page hpage ?_ rfl ihInner)
    all_goals exact hdistinct
  | @periodic form _ _ _ _ _ _ _ _ _ ihLow ihHigh ihPeriod =>
    have hdistinct : List.Nodup [form.lowKey, form.highKey, "period", "initialProgress"] := by
      cases form <;> decide
    -- The phase is written as an initial progress, of which the absolute value is read.
    rw [toValue, hpage.table, rebuilt, ← wave_abs]
    refine reads_periodic (chooseTag_page_table hpage (ofTag?_tag (.wave form)) _)
      (holdsAt_page hpage ?_ (by cases form <;> rfl) ihLow)
      (holdsAt_page hpage ?_ (by cases form <;> rfl) ihHigh)
      (holdsAt_page hpage ?_ (by cases form <;> rfl) ihPeriod)
      (readInitialProgress_page hpage ?_ (by cases form <;> rfl))
    all_goals exact hdistinct
  | drawn _ _ _ ihLow ihHigh =>
    have hdistinct : List.Nodup ["min", "max", "lastValue"] := by decide
    rw [toValue, hpage.table, rebuilt]
    refine reads_drawn (chooseTag_page_table hpage (ofTag?_tag .random) _)
      (holdsAt_page hpage ?_ rfl ihLow) (holdsAt_page hpage ?_ rfl ihHigh)
      (readNumber?_page hpage ?_ rfl)
    all_goals exact hdistinct

end Page

/-! ## Reading back what was written -/

omit [Numeric α] in
theorem isArranged_id (signal : Signal α) : IsArranged id signal := by
  cases signal <;> trivial

/-- A coherent signal whose phases are those at which it would start is read as it was written. -/
theorem reads_toValue [Numeric.Lawful α] {signal : Signal α} (h : signal.Coherent)
    (hphases : signal.Everywhere KeepsPhase) : Reads ofValue signal.toValue signal := by
  have harranged : signal.Everywhere (IsArranged id) := h.mono fun part _ => isArranged_id part
  have hreads := reads_page keeps_id arranges_id h
  rwa [rebuilt_eq_self h hphases harranged] at hreads

/-- A reachable signal that is written under a key is read back under that key, without an issue, as
    the signal it is in every part. -/
theorem read_write {signal : Signal Float} (h : signal.Reachable)
    (hphases : signal.Everywhere KeepsPhase) (key path : String) :
    read (signal.write [] key) key path none = .ok signal := by
  have hvalue : (signal.write [] key).get? key = some signal.toValue := if_pos rfl
  exact read_of_holdsAt ⟨_, hvalue, reads_toValue h.coherent hphases⟩ path none

/-- A swing between two bounds that are given the other way round, less a random number. -/
def swing : Signal Float :=
  combine .sub
    [wave .pingPong (constant 10.0) (constant 0.0) (constant 4.0) 0.5,
      random (constant 0.0) (constant 2.0)]

/-- The swing one tick later. -/
def swingLater : Signal Float :=
  combined .sub
    [periodic .pingPong (constant 0.0) (constant 10.0) (constant 4.0) 1.0 10.0,
      drawn (constant 0.0) (constant 2.0) 0.5 0.5] 9.5

theorem swing_reachable : swing.Reachable :=
  .sub (.wave _ (.constant _) (.constant _) (.constant _)) (.random (.constant _) (.constant _))

set_option maxRecDepth 1000 in
theorem swingLater_reachable : swingLater.Reachable := by
  have hlater : (refresh swing (fun _ => 0.25 : Draws Float)).1 = swingLater := rfl
  rw [← hlater]
  exact swing_reachable.refreshed _

theorem swingLater_keepsPhase : swingLater.Everywhere KeepsPhase := by
  have hphase : startPhase (1.0 : Float) 2.0 = 1.0 := by decide +kernel
  refine .combined trivial (List.forall_mem_cons.2 ⟨?_, List.forall_mem_singleton.2 ?_⟩)
  · exact .periodic hphase (.constant trivial) (.constant trivial) (.constant trivial)
  · exact .drawn trivial (.constant trivial) (.constant trivial)

theorem read_write_swingLater :
    (swingLater.Reachable ∧ swingLater.Everywhere KeepsPhase)
      ∧ read (swingLater.write [] "size") "size" "" none = .ok swingLater :=
  ⟨⟨swingLater_reachable, swingLater_keepsPhase⟩,
    read_write swingLater_reachable swingLater_keepsPhase "size" ""⟩

end Modulation.Signal

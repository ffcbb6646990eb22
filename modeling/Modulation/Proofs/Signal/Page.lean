import Modulation.Proofs.Binary64.Phase
import Modulation.Proofs.Signal.Resumption
import Modulation.Toml.Reader
import Modulation.Toml.Writer

set_option autoImplicit false

/-! # Signals on a page

A page has the numbers of a table before its subtables, and the arguments of an operator are read in
the order of the page. Constants are written as numbers and all other signals as tables, so a signal
comes back from a page with the constants in front of the other arguments, at every depth
(`numbersFirst`). Nothing else changes.

`read_from_page` says what is read from a page and that it is the signal that was written just when
no constant stood behind another argument and every phase is one at which a signal starts. A
difference is read the other way round when its second argument alone is a constant
(`overrun_read_from_page`). -/

namespace Modulation.Signal

open Modulation.Config

/-! ## Constants in front -/

section Order

variable {α : Type}

/-- The arguments with the constants in front, and each of the two groups in its order. -/
def numbersFirst (arguments : List (Signal α)) : List (Signal α) :=
  arguments.filter isConstant ++ arguments.filter fun argument => !argument.isConstant

/-- No argument of an operator that is a constant stands behind one that is not. -/
def NumbersFirst : Signal α → Prop
  | combined _ arguments _ =>
    arguments.Pairwise fun earlier later => later.isConstant = true → earlier.isConstant = true
  | _ => True

theorem numbersFirst_perm (arguments : List (Signal α)) :
    (numbersFirst arguments).Perm arguments :=
  front_perm isConstant arguments

/-- Arguments are arranged with their constants in front just when none stands behind another. -/
theorem isArranged_numbersFirst_iff (signal : Signal α) :
    IsArranged numbersFirst signal ↔ NumbersFirst signal := by
  cases signal with
  | combined op arguments value => exact front_eq_self_iff
  | _ => exact Iff.rfl

end Order

/-! ## The arguments of an operator on a page -/

section Page

variable {α : Type} [Numeric α]

/-- Arguments are read from a page with the constants in front. -/
theorem arranges_numbersFirst :
    Arranges (α := α) Value.arranged Section.arranged numbersFirst where
  perm := numbersFirst_perm
  reads {values arguments} h := by
    have hpage : List.Forall₂
        (fun value argument => Reads ofValue value argument ∧ value.isBranch = !argument.isConstant)
        (values.map Value.arranged) arguments := by
      refine List.forall₂_map_left_iff.2 (h.imp fun value argument hreads => ⟨hreads.1, ?_⟩)
      rw [isBranch_arranged, hreads.2]
    -- The values on lines come before the tables, and the constants are the values on lines.
    rw [arranged_values, keyedArguments_values]
    refine (forall₂_front hpage fun value argument hreads => ?_).imp fun _ _ hreads => hreads.1
    rw [hreads.2, Bool.not_not]

/-- Constants are in front at every depth of a signal that is built anew as from a page. -/
theorem numbersFirst_rebuilt {signal : Signal α} (h : signal.Coherent) :
    (rebuilt numbersFirst signal).Everywhere NumbersFirst := by
  induction h with
  | constant _ => exact .constant trivial
  | @combined op arguments _ _ _ ih =>
    rw [rebuilt, rebuiltAll_eq_map]
    refine .combined (inFront_front isConstant _) fun argument hmem => ?_
    obtain ⟨written, hwritten, rfl⟩ := List.mem_map.1 ((numbersFirst_perm _).mem_iff.1 hmem)
    exact ih written hwritten
  | absolute _ _ ih => exact .absolute trivial ih
  | clamped _ _ _ _ ihLow ihHigh ihInner =>
    obtain ⟨hfirst, hsecond⟩ := ordered_of_both ihLow ihHigh
    exact .clamped trivial hfirst hsecond ihInner
  | periodic _ _ _ _ ihLow ihHigh ihPeriod =>
    obtain ⟨hfirst, hsecond⟩ := ordered_of_both ihLow ihHigh
    exact .periodic trivial hfirst hsecond ihPeriod
  | drawn _ _ _ ihLow ihHigh =>
    obtain ⟨hfirst, hsecond⟩ := ordered_of_both ihLow ihHigh
    exact .drawn trivial hfirst hsecond

theorem coherent_rebuilt [Numeric.Lawful α] {signal : Signal α} (h : signal.Coherent) :
    (rebuilt numbersFirst signal).Coherent :=
  closed_rebuilt coherent_closed numbersFirst_perm h

/-- An operator of a signal and a constant comes from a page with the constant as its first
    argument. -/
theorem rebuilt_constant_last {signal : Signal α} (h : signal.isConstant = false) (op : Operator)
    (x value : α) :
    rebuilt numbersFirst (combined op [signal, constant x] value)
      = combine op [constant x, rebuilt numbersFirst signal] := by
  have hgenerated : (rebuilt numbersFirst signal).isConstant = false := by
    rw [isConstant_rebuilt, h]
  have hconstant : (constant x).isConstant = true := rfl
  rw [rebuilt, rebuiltAll_eq_map, List.map_cons, List.map_singleton, rebuilt]
  simp [numbersFirst, hgenerated, hconstant]

end Page

/-! ## What is read from a page -/

/-- A signal is built with the phases at which it starts. -/
theorem keepsPhase_closed : Closed (α := Float) (Everywhere KeepsPhase) := by
  refine everywhere_closed (fun form _ _ _ initial => ?_) fun signal hphase => ?_
  · exact Binary64.startPhase_startPhase form initial
  · cases signal with
    | periodic _ _ _ _ phase _ => cases hphase
    | _ => trivial

theorem keepsPhase_rebuilt {signal : Signal Float} (h : signal.Coherent) :
    (rebuilt numbersFirst signal).Everywhere KeepsPhase :=
  closed_rebuilt keepsPhase_closed numbersFirst_perm h

theorem rebuilt_numbersFirst_eq_self {signal : Signal Float} (h : signal.Coherent)
    (hfirst : signal.Everywhere NumbersFirst) (hphases : signal.Everywhere KeepsPhase) :
    rebuilt numbersFirst signal = signal :=
  rebuilt_eq_self h hphases (hfirst.mono fun part => (isArranged_numbersFirst_iff part).2)

/-- A signal is built anew from a page as it was just when no constant stood behind another argument
    and every phase is one at which a signal starts. -/
theorem rebuilt_numbersFirst_eq_self_iff {signal : Signal Float} (h : signal.Coherent) :
    rebuilt numbersFirst signal = signal
      ↔ signal.Everywhere NumbersFirst ∧ signal.Everywhere KeepsPhase := by
  refine ⟨fun hself => ?_, fun hkept => rebuilt_numbersFirst_eq_self h hkept.1 hkept.2⟩
  -- Both conditions hold of whatever is built anew, and here that is the signal itself.
  have hfirst := numbersFirst_rebuilt h
  have hphases := keepsPhase_rebuilt h
  rw [hself] at hfirst hphases
  exact ⟨hfirst, hphases⟩

/-- What came from a page once comes from every further page as it is. -/
theorem rebuilt_rebuilt {signal : Signal Float} (h : signal.Coherent) :
    rebuilt numbersFirst (rebuilt numbersFirst signal) = rebuilt numbersFirst signal :=
  rebuilt_numbersFirst_eq_self (coherent_rebuilt h) (numbersFirst_rebuilt h) (keepsPhase_rebuilt h)

/-- A reachable signal that is printed under a key and parsed is read as the signal built anew with
    the constants of every operator in front. -/
theorem read_arranged {signal : Signal Float} (h : signal.Reachable) (key path : String) :
    read (Section.arranged (signal.write [] key)) key path none
      = .ok (rebuilt numbersFirst signal) := by
  have hvalue : (Section.arranged (signal.write [] key)).get? key = some signal.toValue.arranged := by
    show Entries.get? (Section.arranged [(key, signal.toValue)]) key = _
    rw [keeps_arranged.single]
    exact if_pos rfl
  have hreads := reads_page keeps_arranged arranges_numbersFirst h.coherent
  exact read_of_holdsAt ⟨_, hvalue, hreads⟩ path none

/-- A reachable signal that is printed under a key is read from the page without an issue, as the
    signal built anew with the constants of every operator in front. This is the signal that was
    written, with the same values now and after every tick, just when no constant stood behind
    another argument and every phase is one at which a signal starts. -/
theorem read_from_page {signal : Signal Float} (h : signal.Reachable)
    (print : Section Float → String) (parse : String → Option (Section Float)) (key path : String)
    (hpage : parse (print (signal.write [] key)) = some (Section.arranged (signal.write [] key))) :
    ∃ page, parse (print (signal.write [] key)) = some page
      ∧ read page key path none = .ok (rebuilt numbersFirst signal)
      ∧ (rebuilt numbersFirst signal = signal
          ↔ signal.Everywhere NumbersFirst ∧ signal.Everywhere KeepsPhase)
      ∧ (signal.Everywhere NumbersFirst → signal.Everywhere KeepsPhase →
          (rebuilt numbersFirst signal).value = signal.value
            ∧ ∀ {σ : Type} [RandomSource σ Float] (ticks : Nat) (source : σ),
              (samples ticks (rebuilt numbersFirst signal) source).1.map value
                = (samples ticks signal source).1.map value) := by
  refine ⟨_, hpage, read_arranged h key path, rebuilt_numbersFirst_eq_self_iff h.coherent, ?_⟩
  intro hfirst hphases
  rw [rebuilt_numbersFirst_eq_self h.coherent hfirst hphases]
  exact ⟨rfl, fun _ _ => rfl⟩

/-- What a ramp leaves of a limit, one tick after the start. -/
def remains : Signal Float :=
  combined .sub [constant 10.0, rampLater] 9.75

theorem remains_reachable : remains.Reachable := by
  have hstart : (combine .sub [constant 10.0, ramp]).Reachable := .sub (.constant _) ramp_reachable
  have hvalue : (10.0 : Float) - 0.25 = 9.75 := by decide +kernel
  have hlater : (refresh (combine .sub [constant 10.0, ramp]) (fun _ => 0.5 : Draws Float)).1
      = remains := by
    show combine .sub [constant 10.0, (refresh ramp (fun _ => 0.5 : Draws Float)).1] = _
    rw [refresh_ramp]
    show combined .sub [constant 10.0, rampLater] (10.0 - 0.25) = _
    rw [hvalue, remains]
  rw [← hlater]
  exact hstart.refreshed _

theorem remains_numbersFirst : remains.Everywhere NumbersFirst := by
  have hpair : NumbersFirst remains := List.pairwise_pair.2 fun _ => rfl
  refine .combined hpair
    (List.forall_mem_cons.2 ⟨.constant trivial, List.forall_mem_singleton.2 ?_⟩)
  exact .periodic trivial (.constant trivial) (.constant trivial) (.constant trivial)

theorem remains_keepsPhase : remains.Everywhere KeepsPhase := by
  have hphase : startPhase (0.25 : Float) 1.0 = 0.25 := by decide +kernel
  refine .combined trivial
    (List.forall_mem_cons.2 ⟨.constant trivial, List.forall_mem_singleton.2 ?_⟩)
  exact .periodic hphase (.constant trivial) (.constant trivial) (.constant trivial)

theorem remains_read_from_page :
    (remains.Reachable
        ∧ Toml.parse (Toml.render (remains.write [] "size"))
          = some (Section.arranged (remains.write [] "size"))
        ∧ remains.Everywhere NumbersFirst ∧ remains.Everywhere KeepsPhase)
      ∧ rebuilt numbersFirst remains = remains := by
  have hpage : Toml.parse (Toml.render (remains.write [] "size"))
      = some (Section.arranged (remains.write [] "size")) := by decide +kernel
  obtain ⟨_, _, _, hself, _⟩ :=
    read_from_page remains_reachable Toml.render Toml.parse "size" "" hpage
  exact ⟨⟨remains_reachable, hpage, remains_numbersFirst, remains_keepsPhase⟩,
    hself.2 ⟨remains_numbersFirst, remains_keepsPhase⟩⟩

/-- By how much a ramp exceeds a limit. -/
def overrun : Signal Float :=
  combine .sub [ramp, constant 10.0]

/-- On a page the limit stands first, and the ramp is taken from it. -/
theorem overrun_read_from_page :
    overrun.Reachable
      ∧ ∃ page later, Toml.parse (Toml.render (overrun.write [] "size")) = some page
        ∧ page = Section.arranged (overrun.write [] "size")
        ∧ read page "size" "" none = .ok later
        ∧ overrun.value = -10.0 ∧ later.value = 10.0 ∧ later.value ≠ overrun.value := by
  have hreachable : overrun.Reachable := .sub ramp_reachable (.constant _)
  have hpage : Toml.parse (Toml.render (overrun.write [] "size"))
      = some (Section.arranged (overrun.write [] "size")) := by decide +kernel
  have hread : read (Section.arranged (overrun.write [] "size")) "size" "" none
      = .ok (combine .sub [constant 10.0, rebuilt numbersFirst ramp]) := by
    rw [read_arranged hreachable, overrun, combine, rebuilt_constant_last rfl]
  refine ⟨hreachable, _, _, hpage, rfl, hread, ?_, ?_, ?_⟩
  all_goals decide +kernel

end Modulation.Signal

import Modulation.Proofs.Faults.Part
import Modulation.Proofs.Signal.Arity
import Modulation.Proofs.VectorSignal.Page
import Modulation.Proofs.VectorSignal.Reachable

set_option autoImplicit false

/-! # The arguments of vector signals

As for signals, no vector signal is ever made with a number of arguments that its operator does not
take, and arguments that are fields by themselves are refused for their number alone. The operators
with an operation of two operands have functions of two arguments too, which refuse nothing.

`arguments_counted` says this of every signal and every vector signal that a program can come to
hold, and of every way to make one from arguments. -/

namespace Modulation

open Modulation.Config

/-- The operation of an operator that takes two operands. -/
def VectorOperator.operation? {α : Type} [Numeric α] :
    VectorOperator → Option (Vec3 α → Vec3 α → Vec3 α)
  | .sub => some Vec3.sub
  | .cross => some Vec3.cross
  | _ => none

/-- The rule that a number of arguments breaks which the operator does not take. -/
def VectorOperator.rule : VectorOperator → ArityFault
  | .add | .mul => .atLeast 2
  | .sub | .cross => .exactly 2

namespace VectorOperator

variable {α : Type} [Numeric α]

instance (op : VectorOperator) (count : Nat) : Decidable (op.Takes count) :=
  decidable_of_iff _ (op.admits_iff count)

/-- An operator with an operation takes two arguments and applies it to them. -/
theorem apply_of_operation? {op : VectorOperator} {f : Vec3 α → Vec3 α → Vec3 α}
    (h : op.operation? = some f) :
    (∀ count, op.Takes count ↔ count = 2) ∧ ∀ values, op.apply values = binary f values := by
  cases op with
  | sub | cross =>
    cases h
    exact ⟨fun _ => Iff.rfl, fun _ => rfl⟩
  | _ => cases h

theorem fault?_eq (op : VectorOperator) (count : Nat) :
    op.arity.fault? count = if op.Takes count then none else some op.rule := by
  by_cases htakes : op.Takes count
  · rw [if_pos htakes, Arity.fault?_eq_none_iff, admits_iff]
    exact htakes
  · rw [if_neg htakes]
    cases op
    all_goals simp_all [Takes, arity, Arity.fault?, rule]

end VectorOperator

namespace VectorSignal

variable {α : Type} [Numeric α]

/-! ## Vector signals have the arguments that they need -/

/-- The operator of a vector signal with arguments, and how many there are. -/
def operands? : VectorSignal α → Option (VectorOperator × Nat)
  | combined op arguments _ => some (op, arguments.length)
  | _ => none

/-- The arguments are as many as the operator takes; and if it has an operation of two operands, its
    value is the result of the operation. -/
def Supplied : VectorSignal α → Prop
  | combined op arguments value =>
    op.Takes arguments.length
      ∧ ∀ f ∈ op.operation?, ∃ a b, arguments = [a, b] ∧ value = f a.value b.value
  | _ => True

theorem WellMade.supplied {signal : VectorSignal α} (h : signal.WellMade) : signal.Supplied := by
  cases signal with
  | combined op arguments value =>
    obtain ⟨hadmits, rfl⟩ := h
    have htakes : op.Takes arguments.length := (op.admits_iff _).1 hadmits
    refine ⟨htakes, fun f hf => ?_⟩
    obtain ⟨htwo, happly⟩ := VectorOperator.apply_of_operation? hf
    obtain ⟨a, b, rfl⟩ := List.length_eq_two.1 ((htwo _).1 htakes)
    exact ⟨a, b, rfl, happly _⟩
  | _ => exact trivial

/-- Everything in a vector signal has the arguments that it needs. -/
def SuppliedThroughout (signal : VectorSignal α) : Prop :=
  signal.Everywhere Supplied Signal.Supplied

theorem Coherent.suppliedThroughout {signal : VectorSignal α} (h : signal.Coherent) :
    signal.SuppliedThroughout :=
  h.mono (fun _ => WellMade.supplied) fun _ => Signal.WellMade.supplied

/-- A vector signal keeps its operator and the number of its arguments, and everything in it has the
    arguments that it needs, as it is for signals. -/
structure KeepsCount (signal : VectorSignal α) : Prop where
  supplied : signal.Supplied
  refreshed : ∀ {σ : Type} [RandomSource σ α] (ticks : Nat) (source : σ),
    (refreshTimes ticks signal source).1.operands? = signal.operands?
      ∧ (refreshTimes ticks signal source).1.SuppliedThroughout
  placed : ∀ {entries : Section α} {key : String},
    entries.get? key = some signal.toValue ∨ entries.get? key = some signal.toValue.arranged →
    ∀ (path : String) (default : Option (Vec3 α)),
      ∃ later, read entries key path default = .ok later
        ∧ later.operands? = signal.operands? ∧ later.SuppliedThroughout

theorem operands?_refresh {σ : Type} [RandomSource σ α] (signal : VectorSignal α) (source : σ) :
    (refresh signal source).1.operands? = signal.operands? := by
  cases signal with
  | combined op arguments value =>
    show some (op, (refreshAll arguments source).1.length) = _
    rw [refreshAll_length]
    rfl
  | _ => rfl

theorem operands?_refreshTimes {σ : Type} [RandomSource σ α] (ticks : Nat)
    (signal : VectorSignal α) (source : σ) :
    (refreshTimes ticks signal source).1.operands? = signal.operands? := by
  induction ticks generalizing signal source with
  | zero => rfl
  | succ ticks ih => exact (ih _ _).trans (operands?_refresh signal source)

theorem coherent_refreshTimes [Numeric.Lawful α] {σ : Type} [RandomSource σ α] (ticks : Nat)
    {signal : VectorSignal α} (h : signal.Coherent) (source : σ) :
    (refreshTimes ticks signal source).1.Coherent := by
  induction ticks generalizing signal source with
  | zero => exact h
  | succ ticks ih => exact ih (coherent_refresh h source) _

theorem operands?_rebuilt (arrange : List (Signal α) → List (Signal α)) (signal : VectorSignal α) :
    (rebuilt arrange signal).operands? = signal.operands? := by
  cases signal with
  | combined op arguments value =>
    rw [rebuilt, rebuiltAll_eq_map]
    simp [combine, operands?]
  | assembled x y z value =>
    rw [rebuilt, ofComponents_eq]
    split <;> rfl
  | _ => rfl

theorem Coherent.keepsCount [Numeric.Lawful α] {signal : VectorSignal α} (h : signal.Coherent) :
    signal.KeepsCount where
  supplied := h.self.supplied
  refreshed ticks source :=
    ⟨operands?_refreshTimes ticks signal source,
      (coherent_refreshTimes ticks h source).suppliedThroughout⟩
  placed := by
    rintro entries key (hvalue | hvalue) path default
    · have hreads := reads_page keeps_id Signal.arranges_id h
      exact ⟨_, read_of_holdsAt ⟨_, hvalue, hreads⟩ path default, operands?_rebuilt _ signal,
        (closed_rebuilt coherent_closed
          (Signal.closed_rebuilt Signal.coherent_closed Signal.arranges_id.perm)
          h).suppliedThroughout⟩
    · have hreads := reads_page keeps_arranged Signal.arranges_numbersFirst h
      exact ⟨_, read_of_holdsAt ⟨_, hvalue, hreads⟩ path default, operands?_rebuilt _ signal,
        (coherent_rebuilt h).suppliedThroughout⟩

/-! ## Arguments are refused for their number alone -/

/-- The vector signal that an operator makes of arguments if they are as many as it takes, and
    otherwise the fault of their number. -/
def counted (op : VectorOperator) (tag path : String) (arguments : List (VectorSignal α)) :
    Except Fault (VectorSignal α) :=
  if op.Takes arguments.length then .ok (combine op arguments)
  else .error ⟨.wrongArity tag op.rule arguments.length, path⟩

/-- Whether a vector signal is made of arguments depends on their number alone: of arguments that
    are built already, and of those under the keys of a section, be it read by itself or under a
    key. -/
structure Counts (α : Type) [Numeric α] (op : VectorOperator) : Prop where
  built : ∀ arguments : List (VectorSignal α),
    combine? op arguments = counted op op.tag "" arguments
  read : ∀ {entries body : Section α} {tag : String},
    Chooses VectorKind.tag entries (.combine op) tag (.table body) →
    (∀ part ∈ body, IsField part.2) →
    ∃ arguments, List.Forall₂ (fun part argument => Describes part.2 argument) body arguments
      ∧ (∀ path, ofOffers (offersOf entries) path
          = Reading.report (counted op tag (joinPath path tag) arguments))
      ∧ ∀ {document : Section α} {key : String}, document.get? key = some (.table entries) →
          ∀ path default, read document key path default
            = Reading.report (counted op tag (joinPath (joinPath path key) tag) arguments)

theorem combine?_eq_counted (op : VectorOperator) (arguments : List (VectorSignal α)) :
    combine? op arguments = counted op op.tag "" arguments := by
  unfold combine? counted
  rw [Arity.check_eq, op.fault?_eq]
  by_cases htakes : op.Takes arguments.length
  · simp only [if_pos htakes]
    rfl
  · simp only [if_neg htakes]
    rfl

theorem ofOffers_eq_counted [Numeric.Lawful α] {entries body : Section α} {op : VectorOperator}
    {tag : String} (htag : Chooses VectorKind.tag entries (.combine op) tag (.table body))
    {arguments : List (VectorSignal α)}
    (hparts : List.Forall₂ (fun part argument => Describes part.2 argument) body arguments)
    (path : String) :
    ofOffers (offersOf entries) path
      = Reading.report (counted op tag (joinPath path tag) arguments) := by
  have hreads : List.Forall₂ (Reads ofValue) (body.map Prod.snd) arguments := by
    rw [List.forall₂_map_left_iff]
    exact hparts.imp fun _ _ => Describes.reads
  have hchoice := (chooseTag_eq_ok_iff ofTag?_eq_some_iff).2 htag
  rw [ofOffers_offersOf, hchoice]
  simp only [ofOffer]
  rw [counted_eq hreads, op.fault?_eq, hparts.length_eq, counted]
  by_cases htakes : op.Takes arguments.length
  · simp only [if_pos htakes]
    rfl
  · simp only [if_neg htakes]
    rfl

theorem counts [Numeric.Lawful α] (op : VectorOperator) : Counts α op where
  built := combine?_eq_counted op
  read htag hfields := by
    obtain ⟨arguments, hparts⟩ :=
      exists_forall₂ fun part hpart => (hfields part hpart).exists_describes
    refine ⟨arguments, hparts, ofOffers_eq_counted htag hparts, fun hvalue path default => ?_⟩
    have htagged := isComponentSection_eq_false (not_hasComponents_of_chooses htag)
    rw [← ofOffers_eq_counted htag hparts]
    unfold VectorSignal.read
    simp only [hvalue]
    rw [ofValue, htagged, if_neg Bool.false_ne_true]

/-- In every signal and every vector signal that a program can come to hold, each operator has as
    many arguments as it takes, at every tick and after every reading of what was written, so that
    an operation of two operands always has its two. Arguments that are fields by themselves are
    refused just when their number is outside the arity of the operator, with a rule that it breaks;
    the functions for a difference and a cross product always have the arguments that are needed. -/
theorem arguments_counted :
    (∀ {signal : Signal Float}, signal.Reachable → signal.Everywhere Signal.KeepsCount)
      ∧ (∀ {signal : VectorSignal Float}, signal.Reachable →
          signal.Everywhere KeepsCount Signal.KeepsCount)
      ∧ (∀ op, Signal.Counts Float op)
      ∧ (∀ op, Counts Float op)
      ∧ (∀ a b : VectorSignal Float,
          combine? .sub [a, b] = .ok (sub a b) ∧ combine? .cross [a, b] = .ok (cross a b))
      ∧ ∀ (arity : Arity) (found : Nat),
          (arity.fault? found = none ↔ arity.Admits found)
            ∧ ∀ rule, arity.fault? found = some rule → rule.BrokenBy found :=
  ⟨fun h => h.coherent.parts.mono fun _ => Signal.Coherent.keepsCount,
    fun h => h.coherent.parts.mono (fun _ => Coherent.keepsCount)
      fun _ => Signal.Coherent.keepsCount,
    Signal.counts, counts, fun _ _ => ⟨rfl, rfl⟩,
    fun arity found => ⟨arity.fault?_eq_none_iff found, fun _ h => (Arity.fault?_eq_some h).1⟩⟩

/-- The cross product of a direction and a sum of vectors, one of them scaled by a swing. -/
def twisted : VectorSignal Float :=
  cross (constant Vec3.up)
    (combine .add [constant Vec3.up, scale (constant Vec3.up) Signal.swing, constant Vec3.up])

theorem twisted_reachable : twisted.Reachable := by
  refine .cross (.constant _) (.combine ?_ (combine?_eq_ok_iff.2 ⟨by decide, rfl⟩))
  intro argument hargument
  simp only [List.mem_cons, List.not_mem_nil, or_false] at hargument
  rcases hargument with rfl | rfl | rfl
  · exact .constant _
  · exact .scale (.constant _) Signal.swing_reachable
  · exact .constant _

/-- What holds of arguments holds of the twisted vector, of the swing in it, and of what becomes of
    the swing. -/
theorem twisted_counted :
    (Signal.swing.Reachable ∧ Signal.swingLater.Reachable ∧ twisted.Reachable)
      ∧ Signal.swing.Everywhere Signal.KeepsCount
      ∧ Signal.swingLater.Everywhere Signal.KeepsCount
      ∧ twisted.Everywhere KeepsCount Signal.KeepsCount
      ∧ combine? (α := Float) .cross [constant Vec3.up]
          = .error ⟨.wrongArity "cross" (.exactly 2) 1, ""⟩ :=
  ⟨⟨Signal.swing_reachable, Signal.swingLater_reachable, twisted_reachable⟩,
    arguments_counted.1 Signal.swing_reachable, arguments_counted.1 Signal.swingLater_reachable,
    arguments_counted.2.1 twisted_reachable, (arguments_counted.2.2.2.1 .cross).built _⟩

end VectorSignal

end Modulation

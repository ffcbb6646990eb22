import Modulation.Proofs.Provider.Arity
import Modulation.Proofs.Signal.Grammar
import Modulation.Proofs.Signal.Page

set_option autoImplicit false

/-! # The arguments of signals

An operator with an operation of two operands has no other result, but no signal is ever made with
another number of arguments (`Supplied`). A signal keeps its operator and the number of its
arguments through every refresh, and when what is written of it is read; `KeepsCount` puts this
together.

Arguments that are fields by themselves are refused for their number alone. `Counts` says so of
each way to build a signal from arguments. -/

namespace Modulation

open Modulation.Config

/-- The operation of an operator that takes two operands. -/
def Operator.operation? {α : Type} [Numeric α] : Operator → Option (α → α → α)
  | .sub => some (· - ·)
  | .div => some (· / ·)
  | .mod => some (· % ·)
  | _ => none

/-- The rule that a number of arguments breaks which the operator does not take. -/
def Operator.rule : Operator → ArityFault
  | .add | .mul | .min | .max => .atLeast 2
  | .sub | .div | .mod => .exactly 2

namespace Operator

variable {α : Type} [Numeric α]

instance (op : Operator) (count : Nat) : Decidable (op.Takes count) :=
  decidable_of_iff _ (op.admits_iff count)

/-- An operator with an operation takes two arguments and applies it to them. -/
theorem apply_of_operation? {op : Operator} {f : α → α → α} (h : op.operation? = some f) :
    (∀ count, op.Takes count ↔ count = 2) ∧ ∀ values, op.apply values = binary f values := by
  cases op with
  | sub | div | mod =>
    cases h
    exact ⟨fun _ => Iff.rfl, fun _ => rfl⟩
  | _ => cases h

theorem fault?_eq (op : Operator) (count : Nat) :
    op.arity.fault? count = if op.Takes count then none else some op.rule := by
  by_cases htakes : op.Takes count
  · rw [if_pos htakes, Arity.fault?_eq_none_iff, admits_iff]
    exact htakes
  · rw [if_neg htakes]
    cases op
    all_goals simp_all [Takes, arity, Arity.fault?, rule]

end Operator

namespace Signal

variable {α : Type} [Numeric α]

/-! ## Signals have the arguments that they need -/

/-- The operator of a signal with arguments, and how many there are. -/
def operands? : Signal α → Option (Operator × Nat)
  | combined op arguments _ => some (op, arguments.length)
  | _ => none

/-- The arguments are as many as the operator takes; and if it has an operation of two operands, its
    value is the result of the operation. -/
def Supplied : Signal α → Prop
  | combined op arguments value =>
    op.Takes arguments.length
      ∧ ∀ f ∈ op.operation?, ∃ a b, arguments = [a, b] ∧ value = f a.value b.value
  | _ => True

theorem WellMade.supplied {signal : Signal α} (h : signal.WellMade) : signal.Supplied := by
  cases signal with
  | combined op arguments value =>
    obtain ⟨hadmits, rfl⟩ := h
    have htakes : op.Takes arguments.length := (op.admits_iff _).1 hadmits
    refine ⟨htakes, fun f hf => ?_⟩
    obtain ⟨htwo, happly⟩ := Operator.apply_of_operation? hf
    obtain ⟨a, b, rfl⟩ := List.length_eq_two.1 ((htwo _).1 htakes)
    exact ⟨a, b, rfl, happly _⟩
  | _ => exact trivial

theorem Coherent.supplied {signal : Signal α} (h : signal.Coherent) :
    signal.Everywhere Supplied :=
  h.mono fun _ => WellMade.supplied

/-- A signal keeps its operator and the number of its arguments, and everything in it has the
    arguments that it needs: after any number of refreshes, and when what is written of it is read
    again, wherever it stands and in whatever order a page puts it. -/
structure KeepsCount (signal : Signal α) : Prop where
  supplied : signal.Supplied
  refreshed : ∀ {σ : Type} [RandomSource σ α] (ticks : Nat) (source : σ),
    (refreshTimes ticks signal source).1.operands? = signal.operands?
      ∧ (refreshTimes ticks signal source).1.Everywhere Supplied
  placed : ∀ {entries : Section α} {key : String},
    entries.get? key = some signal.toValue ∨ entries.get? key = some signal.toValue.arranged →
    ∀ (path : String) (default : Option α),
      ∃ later, read entries key path default = .ok later
        ∧ later.operands? = signal.operands? ∧ later.Everywhere Supplied

theorem operands?_refresh {σ : Type} [RandomSource σ α] (signal : Signal α) (source : σ) :
    (refresh signal source).1.operands? = signal.operands? := by
  cases signal with
  | combined op arguments value =>
    show some (op, (refreshAll arguments source).1.length) = _
    rw [refreshAll_length]
    rfl
  | _ => rfl

theorem operands?_refreshTimes {σ : Type} [RandomSource σ α] (ticks : Nat) (signal : Signal α)
    (source : σ) : (refreshTimes ticks signal source).1.operands? = signal.operands? := by
  induction ticks generalizing signal source with
  | zero => rfl
  | succ ticks ih => exact (ih _ _).trans (operands?_refresh signal source)

theorem coherent_refreshTimes [Numeric.Lawful α] {σ : Type} [RandomSource σ α] (ticks : Nat)
    {signal : Signal α} (h : signal.Coherent) (source : σ) :
    (refreshTimes ticks signal source).1.Coherent := by
  induction ticks generalizing signal source with
  | zero => exact h
  | succ ticks ih => exact ih (coherent_refresh h source) _

theorem operands?_rebuilt {arrange : List (Signal α) → List (Signal α)}
    (hperm : ∀ arguments, (arrange arguments).Perm arguments) (signal : Signal α) :
    (rebuilt arrange signal).operands? = signal.operands? := by
  cases signal with
  | combined op arguments value =>
    rw [rebuilt, rebuiltAll_eq_map]
    simp [combine, operands?, (hperm _).length_eq]
  | _ => rfl

theorem Coherent.keepsCount [Numeric.Lawful α] {signal : Signal α} (h : signal.Coherent) :
    signal.KeepsCount where
  supplied := h.self.supplied
  refreshed ticks source :=
    ⟨operands?_refreshTimes ticks signal source, (coherent_refreshTimes ticks h source).supplied⟩
  placed := by
    rintro entries key (hvalue | hvalue) path default
    · have hreads := reads_page keeps_id arranges_id h
      exact ⟨_, read_of_holdsAt ⟨_, hvalue, hreads⟩ path default,
        operands?_rebuilt arranges_id.perm signal,
        (closed_rebuilt coherent_closed arranges_id.perm h).supplied⟩
    · have hreads := reads_page keeps_arranged arranges_numbersFirst h
      exact ⟨_, read_of_holdsAt ⟨_, hvalue, hreads⟩ path default,
        operands?_rebuilt numbersFirst_perm signal, (coherent_rebuilt h).supplied⟩

/-! ## Arguments are refused for their number alone -/

/-- The signal that an operator makes of arguments if they are as many as it takes, and otherwise the
    fault of their number. -/
def counted (op : Operator) (tag path : String) (arguments : List (Signal α)) :
    Except Fault (Signal α) :=
  if op.Takes arguments.length then .ok (combine op arguments)
  else .error ⟨.wrongArity tag op.rule arguments.length, path⟩

/-- Whether a signal is made of arguments depends on their number alone: of arguments that are built
    already, of those under the keys of a section, be it read by itself or under a key, and of the
    numbers of a list of pairs. -/
structure Counts (α : Type) [Numeric α] (op : Operator) : Prop where
  built : ∀ arguments : List (Signal α), combine? op arguments = counted op op.tag "" arguments
  read : ∀ {entries body : Section α} {tag : String},
    Chooses SignalKind.tag entries (.combine op) tag (.table body) →
    (∀ part ∈ body, IsField part.2) →
    ∃ arguments, List.Forall₂ (fun part argument => Describes part.2 argument) body arguments
      ∧ (∀ path, ofSection entries path
          = Reading.report (counted op tag (joinPath path tag) arguments))
      ∧ ∀ {document : Section α} {key : String}, document.get? key = some (.table entries) →
          ∀ path default, read document key path default
            = Reading.report (counted op tag (joinPath (joinPath path key) tag) arguments)
  paired : ∀ {number? : String → Option α} {tag : String} {pairs : List String} {path : String}
    {body : Section α}, sameTag op.tag tag = true → pairs.length % 2 = 0 →
    pairSection number? path pairs [] = .ok body →
    ∃ arguments, List.Forall₂ (fun part argument => Describes part.2 argument) body arguments
      ∧ ofPairs number? tag pairs path
          = Reading.report (counted op tag (joinPath path tag) arguments)

theorem combine?_eq_counted (op : Operator) (arguments : List (Signal α)) :
    combine? op arguments = counted op op.tag "" arguments := by
  unfold combine? counted
  rw [Arity.check_eq, op.fault?_eq]
  by_cases htakes : op.Takes arguments.length
  · simp only [if_pos htakes]
    rfl
  · simp only [if_neg htakes]
    rfl

theorem ofSection_eq_counted [Numeric.Lawful α] {entries body : Section α} {op : Operator}
    {tag : String} (htag : Chooses SignalKind.tag entries (.combine op) tag (.table body))
    {arguments : List (Signal α)}
    (hparts : List.Forall₂ (fun part argument => Describes part.2 argument) body arguments)
    (path : String) :
    ofSection entries path = Reading.report (counted op tag (joinPath path tag) arguments) := by
  have hreads : List.Forall₂ (Reads ofValue) (body.map Prod.snd) arguments := by
    rw [List.forall₂_map_left_iff]
    exact hparts.imp fun _ _ => Describes.reads
  have hchoice := (chooseTag_eq_ok_iff ofTag?_eq_some_iff).2 htag
  rw [ofSection, ofValue_table, hchoice]
  simp only [ofOffer]
  rw [counted_eq hreads, op.fault?_eq, hparts.length_eq, counted]
  by_cases htakes : op.Takes arguments.length
  · simp only [if_pos htakes]
    rfl
  · simp only [if_neg htakes]
    rfl

theorem exists_describes_all {body : Section α} (h : ∀ part ∈ body, IsField part.2) :
    ∃ arguments, List.Forall₂ (fun part argument => Describes part.2 argument) body arguments :=
  exists_forall₂ fun part hpart => (h part hpart).exists_describes

/-- A list of pairs makes a section of numbers. -/
theorem isField_of_pairSection {number? : String → Option α} {path : String} {pairs : List String}
    {entries body : Section α} (h : pairSection number? path pairs entries = .ok body)
    (hentries : ∀ entry ∈ entries, IsField entry.2) : ∀ part ∈ body, IsField part.2 := by
  induction pairs, entries using pairSection.induct number? with
  | case1 key text rest entries x hx ih =>
    rw [pairSection, hx] at h
    exact ih h (Entries.forall_mem_set hentries key (.number rfl))
  | case2 key text rest entries hx =>
    rw [pairSection, hx] at h
    cases h
  | case3 pairs entries hpairs =>
    rw [pairSection] at h
    · cases h
      exact hentries
    · exact hpairs

omit [Numeric α] in
theorem chooses_singleton {op : Operator} {tag : String} (h : sameTag op.tag tag = true)
    (value : Value α) : Chooses SignalKind.tag [(tag, value)] (.combine op) tag value :=
  ⟨h, [], [], rfl, fun _ hnone => absurd hnone List.not_mem_nil⟩

theorem counts [Numeric.Lawful α] (op : Operator) : Counts α op where
  built := combine?_eq_counted op
  read htag hfields := by
    obtain ⟨arguments, hparts⟩ := exists_describes_all hfields
    refine ⟨arguments, hparts, ofSection_eq_counted htag hparts, fun hvalue path default => ?_⟩
    rw [← ofSection_eq_counted htag hparts]
    unfold Signal.read
    rw [hvalue, ofSection]
  paired := by
    intro number? tag pairs path body htag heven hbody
    have hfields : ∀ part ∈ body, IsField part.2 :=
      isField_of_pairSection hbody fun _ hnone => absurd hnone List.not_mem_nil
    obtain ⟨arguments, hparts⟩ := exists_describes_all hfields
    refine ⟨arguments, hparts, ?_⟩
    rw [ofPairs, if_pos heven, hbody, ← ofSection_eq_counted (chooses_singleton htag _) hparts]
    rfl

end Signal

end Modulation

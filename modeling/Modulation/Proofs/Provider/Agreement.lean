import Modulation.Proofs.Provider.Offer

set_option autoImplicit false

/-! # What a reading gives

A reading gives a `P` when it ends in one of two ways: with a value of which `P` holds and no issue,
or with a fault that is the first of its issues; the issues after it come from parts that were read
later. This is kept by every way of putting readings together, because parts are read in the order
in which their faults are given back, and what depends on a part is read only when the part is there
(`Gives.pair`, `Gives.andThen`). Readers that are put together from such readers therefore give what
they should at any depth.

`AgreesOn` says what this means for a log that is already there. -/

namespace Modulation

open Modulation.Config

variable {α β γ : Type}

namespace Reading

variable {P : β → Prop} {Q : γ → Prop}

/-- A value of which `P` holds without an issue, or a fault that is the first of the issues. -/
inductive Gives (P : β → Prop) : Reading β → Prop where
  | value {x : β} (h : P x) : Gives P (ok x)
  | fault (fault : Fault) (later : IssueLog) : Gives P ⟨.error fault, fault.issue :: later⟩

theorem gives_fail (cause : Cause) (path : String) : (fail cause path : Reading β).Gives P :=
  .fault ⟨cause, path⟩ []

theorem Gives.of_result {reading : Reading β} (h : reading.Gives P) {x : β}
    (hx : reading.result = .ok x) : P x := by
  cases h with
  | value hvalue =>
    cases hx
    exact hvalue
  | fault fault later => cases hx

theorem Gives.mono {P' : β → Prop} {reading : Reading β} (h : reading.Gives P)
    (hP : ∀ x, P x → P' x) : reading.Gives P' := by
  cases h with
  | value hx => exact .value (hP _ hx)
  | fault fault later => exact .fault fault later

theorem Gives.map {reading : Reading β} (h : reading.Gives P) {f : β → γ}
    (hf : ∀ x, P x → Q (f x)) : (reading.map f).Gives Q := by
  cases h with
  | value hx => exact .value (hf _ hx)
  | fault fault later => exact .fault fault later

theorem Gives.pair {first : Reading β} {second : Reading γ} (hfirst : first.Gives P)
    (hsecond : second.Gives Q) : (first.pair second).Gives fun z => P z.1 ∧ Q z.2 := by
  cases hfirst with
  | value ha =>
    cases hsecond with
    | value hb => exact .value ⟨ha, hb⟩
    | fault fault later => exact .fault fault later
  -- The fault of the first part stays in front, whatever reading the second part adds.
  | fault fault later => exact .fault fault (later ++ second.issues)

theorem Gives.andThen {first : Reading β} {next : β → Reading γ} (hfirst : first.Gives P)
    (hnext : ∀ x, P x → (next x).Gives Q) : (first.andThen next).Gives Q := by
  cases hfirst with
  | value hx => exact hnext _ hx
  | fault fault later => exact .fault fault later

theorem gives_report {result : Except Fault β} (h : ∀ x, result = .ok x → P x) :
    (report result).Gives P := by
  cases result with
  | ok x => exact .value (h x rfl)
  | error fault => exact .fault fault []

/-- There is a value just when there is no issue. -/
theorem Gives.issues_eq_nil_iff {reading : Reading β} (h : reading.Gives P) :
    reading.issues = [] ↔ ∃ x, reading.result = .ok x := by
  cases h with
  | @value x hx => exact iff_of_true rfl ⟨x, rfl⟩
  | fault fault later => exact iff_of_false (List.cons_ne_nil _ _) fun ⟨_, hok⟩ => nomatch hok

/-- What a reading does to a log that is there already: it only adds to it, it adds nothing exactly
    when it gives a value, and when it gives a fault, the first issue that it adds has the message
    and the path of that fault. -/
def AgreesOn (reading : Reading β) (log : IssueLog) : Prop :=
  ∃ added, (reading.on log).2 = log ++ added
    ∧ ((∃ x, (reading.on log).1 = .ok x) ↔ added = [])
    ∧ ∀ fault, (reading.on log).1 = .error fault →
      added.head? = some ⟨fault.path, fault.message⟩

theorem Gives.agreesOn {reading : Reading β} (h : reading.Gives P) (log : IssueLog) :
    reading.AgreesOn log := by
  unfold AgreesOn
  simp only [on_eq]
  refine ⟨reading.issues, rfl, h.issues_eq_nil_iff.symm, fun other hother => ?_⟩
  cases h with
  | value hx => cases hother
  | fault fault later =>
    cases hother
    rfl

end Reading

/-! ## The parts of a provider -/

open Reading

/-- A check passes on arguments that are as many as admitted. -/
theorem gives_check (arity : Arity) (tag path : String) (arguments : List β) :
    (report (arity.check tag path arguments)).Gives fun checked =>
      arity.Admits arguments.length ∧ checked = arguments :=
  gives_report fun _ => Arity.check_eq_ok_iff.1

/-- What is read from the parts of a value is what is read from them if the value is a section; a
    value that is no section has no parts, and that is its only issue. -/
theorem gives_body_andThen [Numeric α] {read : Value α → Reader β} {value : Value α}
    {tag path : String} {next : Body α β → Reading γ} {Q : γ → Prop}
    (h : ∀ entries, value = .table entries → (next (bodyBy read entries)).Gives Q) :
    (((offerBy read value).body tag path).andThen next).Gives Q := by
  rcases offerBy_body read value tag path with ⟨entries, hvalue, hbody⟩ | hbody
  · rw [hbody]
    exact h entries hvalue
  · rw [hbody]
    exact gives_fail _ _

end Modulation

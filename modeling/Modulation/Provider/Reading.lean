import Modulation.Provider.Fault

set_option autoImplicit false

/-! # Readings

A `Reading β` is the outcome of reading a `β` from a configuration: the value or the fault that
prevents it, beside the issues that were met on the way. Parts of a whole are read one after the
other whether or not an earlier one failed (`pair`, `all`), so that their issues come together; the
whole then fails with the first part that failed. What depends on a part (`andThen`) is read only
when the part is there. -/

namespace Modulation

/-- The outcome of reading a value, with the issues in the order they were met. -/
structure Reading (β : Type) where
  result : Except Fault β
  issues : Config.IssueLog

namespace Reading

variable {β γ δ : Type}

/-- A value read without an issue. -/
def ok (value : β) : Reading β :=
  ⟨.ok value, []⟩

/-- A fault, reported as an issue. -/
def fail (cause : Cause) (path : String) : Reading β :=
  ⟨.error ⟨cause, path⟩, [Fault.issue ⟨cause, path⟩]⟩

/-- Applies a function to the value read. -/
def map (f : β → γ) (reading : Reading β) : Reading γ :=
  ⟨reading.result.map f, reading.issues⟩

instance : Functor Reading where
  map := map

/-- Reads two parts; the second is read also when the first fails. -/
def pair (first : Reading β) (second : Reading γ) : Reading (β × γ) :=
  ⟨match first.result, second.result with
    | .ok a, .ok b => .ok (a, b)
    | .error fault, _ => .error fault
    | .ok _, .error fault => .error fault,
   first.issues ++ second.issues⟩

/-- Reads what depends on a part, if the part is there. -/
def andThen (first : Reading β) (next : β → Reading γ) : Reading γ :=
  match first.result with
  | .ok value => ⟨(next value).result, first.issues ++ (next value).issues⟩
  | .error fault => ⟨.error fault, first.issues⟩

/-- Reads all parts of a list. -/
def all : List (Reading β) → Reading (List β)
  | [] => ok []
  | first :: rest => (pair first (all rest)).map fun (value, values) => value :: values

/-! ## Readings and logs -/

/-- What a reading leaves behind when there is a log already: its result, and the log in which its
    issues are entered one after the other. -/
def on (reading : Reading β) (log : Config.IssueLog) : Except Fault β × Config.IssueLog :=
  (reading.result, reading.issues.foldl (fun log issue => log.add issue.message issue.path) log)

theorem foldl_add (issues log : Config.IssueLog) :
    issues.foldl (fun log issue => log.add issue.message issue.path) log = log ++ issues := by
  induction issues generalizing log with
  | nil => simp
  | cons issue rest ih => rw [List.foldl_cons, ih, Config.IssueLog.add, List.append_assoc]; rfl

theorem on_eq (reading : Reading β) (log : Config.IssueLog) :
    reading.on log = (reading.result, log ++ reading.issues) := by
  rw [on, foldl_add]

/-- A fault is entered in the log where it is found. -/
theorem on_fail (cause : Cause) (path : String) (log : Config.IssueLog) :
    (fail cause path : Reading β).on log
      = (.error ⟨cause, path⟩, log.add cause.message path) := rfl

/-- The second of two parts is read with the log that the first one leaves. -/
theorem on_pair (first : Reading β) (second : Reading γ) (log : Config.IssueLog) :
    ((first.pair second).on log).2 = (second.on (first.on log).2).2 := by
  simp [on_eq, pair]

/-- What depends on a part is read with the log that the part leaves. -/
theorem on_andThen (first : Reading β) (next : β → Reading γ) (log : Config.IssueLog) :
    (first.andThen next).on log
      = match first.on log with
        | (.ok value, log) => (next value).on log
        | (.error fault, log) => (.error fault, log) := by
  simp only [on_eq, andThen]
  cases first.result <;> simp

end Reading

/-- Reads a value at a path. -/
abbrev Reader (β : Type) := (path : String) → Reading β

end Modulation

set_option autoImplicit false

/-! # Configuration issues

Reading a configuration goes on past a fault, so that one pass reports all of them. Each fault is an
issue at the path where it was found, and a log lists issues in the order of their discovery. -/

namespace Modulation.Config

/-- A fault and where it was found. -/
structure Issue where
  path : String
  message : String
  deriving DecidableEq, Repr

/-- Issues in the order of their discovery. -/
abbrev IssueLog := List Issue

/-- Adds an issue at the end. -/
def IssueLog.add (log : IssueLog) (message path : String) : IssueLog :=
  log ++ [⟨path, message⟩]

/-- The line that reports an issue. -/
def Issue.line (issue : Issue) : String :=
  issue.path ++ ": " ++ issue.message

end Modulation.Config

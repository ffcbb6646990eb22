import Modulation.Command.Options
import Modulation.Command.Run
import Modulation.Command.Storage
import Modulation.Effect.Text
import Modulation.Random.ChaCha
import Modulation.Toml.Writer

set_option autoImplicit false

/-! # The command

The command loads an effect, reports the issues of its configuration, and either checks it or runs
it. A check succeeds when there are no issues. A run may record its values and write the effect as
it stands after the last tick. -/

namespace Modulation.Command

/-- Why the command fails. -/
inductive Failure where
  | usage
  | notLoaded (path : String)
  | issuesFound (count : Nat) (path : String)
  | notCreated (path : String)
  | notRecorded (path : String)
  | notWritten (path : String)
  deriving DecidableEq, Repr

/-- How the command is called. -/
def usageText : String :=
  "usage: mdfx <effect.toml> [--ticks N] [--seed N] [--check] [--emit PATH] [--record PATH] "
    ++ "[--settings PATH]"

/-- The words for a failure. Why a recording breaks off only the system can say; its path stands for
    the reason. -/
def Failure.message : Failure → String
  | usage => usageText
  | notLoaded path => "failed to load effect from " ++ path
  | issuesFound count path => toString count ++ " configuration issue(s) in " ++ path
  | notCreated path => "failed to create " ++ path
  | notRecorded path => "failed to record to " ++ path
  | notWritten path => "failed to write " ++ path

/-- What a command has to say: the lines it prints, the issues it reports, and why it failed, if it
    did. -/
structure Outcome where
  printed : List String
  issues : Config.IssueLog
  failure : Option Failure
  deriving Repr

/-- The exit code of an outcome. -/
def Outcome.exitCode (outcome : Outcome) : Nat :=
  if outcome.failure.isSome then 1 else 0

/-- The text an outcome prints. -/
def Outcome.output (outcome : Outcome) : String :=
  String.join (outcome.printed.map fun line => line ++ "\n")

/-- The text of what an outcome reports: issues, and the failure last. -/
def Outcome.errors (outcome : Outcome) : String :=
  String.join (outcome.issues.map fun issue => issue.line ++ "\n")
    ++ ((outcome.failure.map fun failure => "Error: " ++ failure.message ++ "\n").getD "")

/-- The settings of a run, where the options take precedence. -/
def withOptions (settings : Settings) (options : Options) : Settings :=
  { settings with
    ticks := options.ticks.getD settings.ticks
    seed := options.seed <|> settings.seed }

/-- The outcome of a check. -/
def checkOutcome (path : String) (effect : Effect Float) (issues : Config.IssueLog) : Outcome :=
  if issues.isEmpty then
    ⟨[path ++ ": " ++ toString effect.size ++ " field(s) ok"], issues, none⟩
  else ⟨[], issues, some (.issuesFound issues.length path)⟩

section Storage

variable {m : Type → Type} [Monad m] [Storage m]

/-- Writes a text to a path, if one is given; the answer says whether nothing went wrong. -/
def writeTo (path : Option String) (content : String) : m Bool :=
  match path with
  | none => pure true
  | some path => Storage.write? path content

/-- Runs an effect. The recording is created before the run, and the effect is written after it. A
    recording that does not take the records breaks off at the first of them, before any line is
    printed, and with it the command. -/
def runEffect (options : Options) (settings : Settings) (source : SeededSource)
    (effect : Effect Float) (issues : Config.IssueLog) : m Outcome := do
  if !(← writeTo options.record "") then
    return ⟨[], issues, options.record.map .notCreated⟩
  let source := (settings.seed.map SeededSource.ofSeed).getD source
  let run := Run.complete settings options.record.isSome effect source
  if !(← writeTo options.record (recordText run.records.toList)) then
    return ⟨[], issues, options.record.map .notRecorded⟩
  if ← writeTo options.emit (Toml.render run.effect.toSection) then
    return ⟨run.printed.toList, issues, none⟩
  else
    return ⟨run.printed.toList, issues, options.emit.map .notWritten⟩

/-- Carries out a command line. Without a seed, random numbers are drawn from the given source. -/
def execute (source : SeededSource) (arguments : List String) : m Outcome := do
  let options := Options.parse arguments
  match options.effect with
  | none => return ⟨[], [], some .usage⟩
  | some path =>
    let settingsText ← Storage.read? (options.settings.getD Settings.defaultPath)
    let settings := withOptions (Settings.ofText settingsText) options
    match (← Storage.read? path).bind Toml.parse with
    | none => return ⟨[], [], some (.notLoaded path)⟩
    | some root =>
      let (effect, issues) := Effect.ofSection root ""
      if options.check then return checkOutcome path effect issues
      else runEffect options settings source effect issues

end Storage

end Modulation.Command

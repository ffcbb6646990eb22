import Modulation.Command.Basic
import Modulation.Proofs.Effect.Loading
import Modulation.Proofs.Toml.Distinct

set_option autoImplicit false

/-! # Loading and checking an effect

The fields of an effect are loaded one by one, and none of them depends on another. A check loads
the effect of a file and accepts it when nothing is wrong with any field; it says then how many
fields there are. -/

namespace Modulation.Command

open Modulation.Config
open Modulation.Effect

theorem run_read? (path : String) (directory : Directory) :
    (Storage.read? path : StateM Directory (Option String)).run directory
      = pure (directory.read? path, directory) := rfl

/-- A check loads the effect and looks at it and at its issues; it changes no file. -/
theorem execute_check {source : SeededSource} {arguments : List String} {directory : Directory}
    {file text : String} {root : Section Float}
    (hfile : (Options.parse arguments).effect = some file)
    (hcheck : (Options.parse arguments).check = true) (htext : directory.read? file = some text)
    (hroot : Toml.parse text = some root) :
    (execute source arguments : StateM Directory Outcome).run directory
      = (checkOutcome file (Effect.ofSection root "").1 (Effect.ofSection root "").2, directory) := by
  simp only [execute, hfile, StateT.run_bind, run_read?, htext, pure_bind, Option.bind_some, hroot,
    hcheck, if_true, StateT.run_pure]
  rfl

/-- A check accepts an effect just when every name of its configuration has a field, and it prints
    then how many names there are. -/
theorem checkOutcome_accepts {root : Section Float} (hroot : TablesDistinct root) (file : String) :
    ((checkOutcome file (Effect.ofSection root "").1 (Effect.ofSection root "").2).failure = none
        ↔ Complete root (Effect.ofSection root "").1)
      ∧ (Complete root (Effect.ofSection root "").1 → ∀ scalars vectors,
          tableAt root scalarsKey = some scalars → tableAt root vectorsKey = some vectors →
          (checkOutcome file (Effect.ofSection root "").1 (Effect.ofSection root "").2).printed
            = [file ++ ": " ++ toString (scalars.keys.length + vectors.keys.length)
                ++ " field(s) ok"]) := by
  have hissues := issues_eq_nil_iff hroot ""
  refine ⟨?_, fun hcomplete scalars vectors hscalars hvectors => ?_⟩
  · rw [← hissues, checkOutcome]
    cases (Effect.ofSection root "").2 with
    | nil => exact iff_of_true rfl rfl
    | cons issue rest => exact iff_of_false (nomatch ·) (nomatch ·)
  · rw [checkOutcome, hissues.2 hcomplete, ← hcomplete.size_eq hroot hscalars hvectors]
    rfl

/-- However many fields are broken, an effect has exactly the fields that are read by themselves
    without a fault, in the order of their tables, and the log grows by the issues that each field
    has by itself, signals before vector signals, or by the one issue of a table that is no section.
    Configurations that differ in one field are loaded the same but for that field. Nothing is
    logged exactly when every name has a field; a check accepts just then, and it prints how many
    names there are. -/
theorem fields_load_apart :
    (∀ {α : Type} [Numeric α] {root : Section α}, TablesDistinct root →
      ∀ (path : String) (log : IssueLog),
        loadOn root path log
            = (⟨readable (scalarReadings root path), readable (vectorReadings root path), 0⟩,
              log ++ (tableIssues root scalarsKey path ++ issuesOf (scalarReadings root path)
                ++ (tableIssues root vectorsKey path ++ issuesOf (vectorReadings root path))))
          ∧ ((loadOn root path log).2 = log ↔ Complete root (loadOn root path log).1))
      ∧ (∀ {α : Type} [Numeric α] {root other : Section α} {key name : String},
          AgreeBut key name root other → TablesDistinct root → TablesDistinct other →
          ∀ path, LoadSameBut key name path root other)
      ∧ ∀ (source : SeededSource) {arguments : List String} {directory : Directory}
          {file text : String} {root : Section Float},
          (Options.parse arguments).effect = some file → (Options.parse arguments).check = true →
          directory.read? file = some text → Toml.parse text = some root →
          ∃ outcome, (execute source arguments : StateM Directory Outcome).run directory
              = (outcome, directory)
            ∧ (outcome.failure = none ↔ Complete root (Effect.ofSection root "").1)
            ∧ (Complete root (Effect.ofSection root "").1 → ∀ scalars vectors,
                tableAt root scalarsKey = some scalars → tableAt root vectorsKey = some vectors →
                outcome.printed
                  = [file ++ ": " ++ toString (scalars.keys.length + vectors.keys.length)
                      ++ " field(s) ok"]) := by
  refine ⟨fun hroot path log => ⟨loadOn_eq hroot path log, log_eq_iff hroot path log⟩,
    fun hagree hroot hother path => hagree.loadSameBut hroot hother path,
    fun source {_ _ file _ root} hfile hcheck htext hparse => ?_⟩
  -- The configuration comes from a text, which names nothing twice.
  have hroot : TablesDistinct root := tablesDistinct_of_proper (Toml.proper_parse hparse)
  obtain ⟨haccepts, hprints⟩ := checkOutcome_accepts hroot file
  exact ⟨_, execute_check hfile hcheck htext hparse, haccepts, hprints⟩

/-! ## Mending a field -/

/-- A configuration in which one of two fields asks for a provider that does not exist. -/
def broken : Section Float :=
  [("scalars", .table [("size", .float 2.5), ("turn", .table [("wobble", .integer 1)])])]

/-- The configuration with another value in the broken field. -/
def mended : Section Float :=
  [("scalars", .table [("size", .float 2.5), ("turn", .float 1.5)])]

/-- The text of the broken configuration. -/
def brokenText : String :=
  "[scalars]\nsize = 2.5\nturn.wobble = 1\n"

/-- The text of the mended configuration. -/
def mendedText : String :=
  "[scalars]\nsize = 2.5\nturn = 1.5\n"

theorem parse_brokenText : Toml.parse brokenText = some broken := by
  decide +kernel

theorem parse_mendedText : Toml.parse mendedText = some mended := by
  decide +kernel

theorem broken_distinct : TablesDistinct broken :=
  tablesDistinct_of_proper (Toml.proper_parse parse_brokenText)

theorem mended_distinct : TablesDistinct mended :=
  tablesDistinct_of_proper (Toml.proper_parse parse_mendedText)

theorem broken_agreeBut_mended : AgreeBut scalarsKey "turn" broken mended := by
  have htable : tableAt broken scalarsKey
      = some [("size", .float 2.5), ("turn", .table [("wobble", .integer 1)])] := rfl
  exact agreeBut_set htable "turn" (.float 1.5)

/-- A directory with the mended configuration in it. -/
def shelf : Directory :=
  ⟨[("e", mendedText)], []⟩

theorem splitLast_e : Directory.splitLast "e" = ([], "e") := by
  have hsplit : "e".splitOn "/" = ["e"] := by
    rw [String.splitOn, if_neg (by decide +kernel), String.splitOnAux, if_neg (by decide +kernel),
      if_neg (by decide +kernel), String.splitOnAux, if_pos (by decide +kernel)]
    decide +kernel
  rw [Directory.splitLast, hsplit]
  rfl

theorem read?_shelf : shelf.read? "e" = some mendedText := by
  have hplace : shelf.filePlace? "e" = some ["e"] := by
    have hsize : "e".utf8ByteSize ≤ Directory.pathLimit := by decide +kernel
    have hpath : Directory.isPath "e" = true := by simp [Directory.isPath, hsize]
    have hstart : "e".startsWith "/" = false := by simp
    simp only [Directory.filePlace?, splitLast_e, hpath, hstart, Directory.follow]
    decide +kernel
  rw [Directory.read?, hplace]
  rfl

theorem mended_loads_apart :
    (TablesDistinct broken ∧ TablesDistinct mended ∧ AgreeBut scalarsKey "turn" broken mended
        ∧ (Options.parse ["e", "--check"]).effect = some "e"
        ∧ (Options.parse ["e", "--check"]).check = true
        ∧ shelf.read? "e" = some mendedText ∧ Toml.parse mendedText = some mended)
      ∧ ((loadOn broken "" []).1.scalars.keys = ["size"]
        ∧ (loadOn broken "" []).2 = [⟨"scalars/turn", "Provider type not recognised: wobble"⟩])
      ∧ LoadSameBut scalarsKey "turn" "" broken mended
      ∧ ∃ outcome, (execute (SeededSource.ofSeed 0) ["e", "--check"] :
            StateM Directory Outcome).run shelf = (outcome, shelf)
          ∧ outcome.printed = ["e: 2 field(s) ok"] := by
  have hfile : (Options.parse ["e", "--check"]).effect = some "e" := by decide +kernel
  have hcheck : (Options.parse ["e", "--check"]).check = true := by decide +kernel
  obtain ⟨hloads, hsame, hchecks⟩ := fields_load_apart
  obtain ⟨hbroken, -⟩ := hloads broken_distinct "" []
  obtain ⟨-, hmended⟩ := hloads mended_distinct "" []
  have hcomplete : Complete mended (Effect.ofSection mended "").1 := hmended.1 (by decide +kernel)
  obtain ⟨outcome, hrun, -, hprinted⟩ :=
    hchecks (SeededSource.ofSeed 0) hfile hcheck read?_shelf parse_mendedText
  refine ⟨⟨broken_distinct, mended_distinct, broken_agreeBut_mended, hfile, hcheck, read?_shelf,
    parse_mendedText⟩, ?_, hsame broken_agreeBut_mended broken_distinct mended_distinct "",
    outcome, hrun, ?_⟩
  · rw [hbroken]
    decide +kernel
  · rw [hprinted hcomplete _ _ rfl rfl]
    decide +kernel

end Modulation.Command

import Modulation.Effect.Basic
import Modulation.VectorSignal.Reader

set_option autoImplicit false

/-! # Effects in a configuration

An effect is written as a table of signals and a table of vector signals; a table without fields is
left out. A field that cannot be read is left out of the effect, with its issues, and disturbs no
other field. Other keys of the configuration are ignored. -/

namespace Modulation.Effect

open Modulation.Config

variable {α : Type}

/-- The key of the table of signals. -/
def scalarsKey : String := "scalars"

/-- The key of the table of vector signals. -/
def vectorsKey : String := "vectors"

section Reader

variable [Numeric α]

/-- Reads the fields of a table that can be read, in order, with the issues of the others. -/
def readFields {β : Type} (read : Value α → Reader β) (path : String) :
    List (String × Value α) → Entries β × IssueLog
  | [] => ([], [])
  | (name, value) :: rest =>
    let reading := read value (joinPath path name)
    let (fields, issues) := readFields read path rest
    match reading.result with
    | .ok field => ((name, field) :: fields, reading.issues ++ issues)
    | .error _ => (fields, reading.issues ++ issues)

/-- Reads the fields of the table under a key of the configuration; an absent table has none. -/
def readTable {β : Type} (read : Value α → Reader β) (root : Section α) (key path : String) :
    Entries β × IssueLog :=
  match root.get? key with
  | none => ([], [])
  | some (.table entries) => readFields read (joinPath path key) entries
  | some value => ([], [Fault.issue ⟨.notSection key value.typeName, joinPath path key⟩])

/-- Reads an effect, with its issues. -/
def ofSection (root : Section α) (path : String) : Effect α × IssueLog :=
  let (scalars, scalarIssues) := readTable Signal.ofValue root scalarsKey path
  let (vectors, vectorIssues) := readTable VectorSignal.ofValue root vectorsKey path
  (⟨scalars, vectors, 0⟩, scalarIssues ++ vectorIssues)

end Reader

/-- Writes named values under a key, if there are any. -/
def writeTable {β : Type} (toValue : β → Value α) (fields : Entries β) (key : String)
    (root : Section α) : Section α :=
  if fields.isEmpty then root
  else
    root.setSection key
      (fields.foldl (fun table (name, field) => table.set name (toValue field)) [])

/-- Writes an effect. -/
def toSection (effect : Effect α) : Section α :=
  writeTable VectorSignal.toValue effect.vectors vectorsKey
    (writeTable Signal.toValue effect.scalars scalarsKey [])

end Modulation.Effect

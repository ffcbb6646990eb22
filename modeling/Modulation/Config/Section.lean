import Modulation.Config.Value

set_option autoImplicit false

/-! # Reading and editing sections

Places in a configuration are named by slash-separated paths from its root. The editing functions
enter values under a key: one that is present keeps its place, a new one goes last. -/

namespace Modulation.Config

/-- The path of a key below a path; the root has the empty path. -/
def joinPath (parent key : String) : String :=
  if parent.isEmpty then key else parent ++ "/" ++ key

namespace Section

variable {α : Type}

/-- The number under a key. -/
def number? [Numeric α] (entries : Section α) (key : String) : Option α :=
  (entries.get? key).bind Value.number?

/-- The number under a key, or a default. -/
def numberD [Numeric α] (entries : Section α) (key : String) (default : α) : α :=
  (number? entries key).getD default

/-- The text under a key. -/
def text? (entries : Section α) (key : String) : Option String :=
  match entries.get? key with
  | some (.text content) => some content
  | _ => none

/-- The section under a key. -/
def section? (entries : Section α) (key : String) : Option (Section α) :=
  (entries.get? key).bind Value.section?

/-- Enters a number. -/
def setNumber (entries : Section α) (key : String) (x : α) : Section α :=
  entries.set key (.float x)

/-- Enters a text. -/
def setText (entries : Section α) (key content : String) : Section α :=
  entries.set key (.text content)

/-- Enters a section. -/
def setSection (entries : Section α) (key : String) (body : Section α) : Section α :=
  entries.set key (.table body)

/-- Enters a list of numbers. -/
def setNumbers (entries : Section α) (key : String) (items : List α) : Section α :=
  entries.set key (.list (items.map .float))

end Section

end Modulation.Config

import Modulation.Config.Section

set_option autoImplicit false

/-! # The order of a section on the page

A page cannot return from a subtable to the values of the table above it, so the plain values of a
table come before its subtables. Branches are the values that have blocks of their own and `leaves`
those that stand on a line, each group in the order of the section. A table inside a value that
stands on a line has no blocks and keeps its order. -/

namespace Modulation.Config

variable {α : Type}

namespace Value

/-- Whether a value is a table. -/
def isTable : Value α → Bool
  | table _ => true
  | _ => false

/-- Whether a value has blocks of its own on the page: it is a table or a list of tables. -/
def isBranch : Value α → Bool
  | table _ => true
  | list items => !items.isEmpty && items.all isTable
  | _ => false

end Value

namespace Section

/-- The values that stand on a line. -/
def leaves (entries : Section α) : Section α :=
  entries.filter fun entry => !entry.2.isBranch

/-- The values that have blocks of their own. -/
def branches (entries : Section α) : Section α :=
  entries.filter fun entry => entry.2.isBranch

/-- The order of a table on the page: first the values that stand on a line, then the branches. -/
def leavesFirst (entries : Section α) : Section α :=
  leaves entries ++ branches entries

end Section

/-! ## The page as a whole -/

mutual

/-- A value in the order of the page. A list that stands on a line keeps the order of the tables in
    it. -/
def Value.arranged : Value α → Value α
  | .table entries => .table (Section.leavesFirst (arrangedEntries entries))
  | .list items => if (Value.list items).isBranch then .list (arrangedItems items) else .list items
  | value => value

/-- Entries whose values are in the order of the page. -/
def arrangedEntries : List (String × Value α) → Section α
  | [] => []
  | (key, value) :: rest => (key, value.arranged) :: arrangedEntries rest

/-- Items in the order of the page. -/
def arrangedItems : List (Value α) → List (Value α)
  | [] => []
  | value :: rest => value.arranged :: arrangedItems rest

end

/-- A section in the order of the page, at every level. -/
def Section.arranged (entries : Section α) : Section α :=
  Section.leavesFirst (arrangedEntries entries)

end Modulation.Config

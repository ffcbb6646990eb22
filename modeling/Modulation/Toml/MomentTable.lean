import Modulation.Config.Value
import Modulation.Toml.Moment

set_option autoImplicit false

/-! # Dates and times in the form of tables

A table whose first key is `momentKey` stands for the date and time that the string under it spells;
whatever else the table holds is passed over. `withMoments?` replaces such tables at every depth,
and refuses a value in which one of them spells no date and time. -/

namespace Modulation.Toml

open Modulation.Config

/-- The key that marks a table as a date and time. -/
def momentKey : String := "$__toml_private_datetime"

/-- What a table says about a date and time, if it stands for one. -/
def marked? : List (String × Value Float) → Option (Value Float)
  | (key, value) :: _ => if key = momentKey then some value else none
  | [] => none

/-- The date and time that a value spells. -/
def momentOf? : Value Float → Option DateTime
  | .text content => wholeMoment? content.toList
  | _ => none

mutual

/-- A value in which dates and times stand for the tables that spell them. -/
def withMoments? : Value Float → Option (Value Float)
  | .table entries =>
    match marked? entries with
    | some value => (momentOf? value).map .datetime
    | none => (entriesWithMoments? entries).map .table
  | .list items => (itemsWithMoments? items).map .list
  | value => some value

/-- A section in whose values dates and times stand for the tables that spell them. -/
def entriesWithMoments? : List (String × Value Float) → Option (Section Float)
  | [] => some []
  | (key, value) :: rest => do
    let value ← withMoments? value
    let rest ← entriesWithMoments? rest
    some ((key, value) :: rest)

/-- Items in which dates and times stand for the tables that spell them. -/
def itemsWithMoments? : List (Value Float) → Option (List (Value Float))
  | [] => some []
  | value :: rest => do
    let value ← withMoments? value
    let rest ← itemsWithMoments? rest
    some (value :: rest)

end

end Modulation.Toml

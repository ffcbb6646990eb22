set_option autoImplicit false

/-! # Dates and times

Effects do not use dates and times, but a configuration text may hold them and they are written
back. A value has a date, a time or both, and an offset only beside both. -/

namespace Modulation.Config

/-- A day of the calendar. -/
structure Date where
  year : Nat
  month : Nat
  day : Nat
  deriving DecidableEq, Repr

/-- A time of day; a second may be a leap second. -/
structure Time where
  hour : Nat
  minute : Nat
  second : Nat
  nanosecond : Nat
  deriving DecidableEq, Repr

/-- The distance of local time from universal time, in minutes, or its name `Z`. -/
inductive Offset where
  | zulu
  | minutes (east : Int)
  deriving DecidableEq, Repr

/-- A date, a time or both. -/
structure DateTime where
  date : Option Date
  time : Option Time
  offset : Option Offset
  deriving DecidableEq, Repr

/-- A number with zeros in front up to the given width. -/
def padded (width n : Nat) : String :=
  let digits := toString n
  "".pushn '0' (width - digits.length) ++ digits

/-- Writes a date as year, month and day. -/
def Date.text (date : Date) : String :=
  padded 4 date.year ++ "-" ++ padded 2 date.month ++ "-" ++ padded 2 date.day

/-- Writes a time; a fraction of a second loses the zeros at its end. -/
def Time.text (time : Time) : String :=
  let whole := padded 2 time.hour ++ ":" ++ padded 2 time.minute ++ ":" ++ padded 2 time.second
  if time.nanosecond = 0 then whole
  else
    let places := (padded 9 time.nanosecond).toList.reverse.dropWhile (· == '0')
    whole ++ "." ++ String.ofList places.reverse

/-- Writes an offset as `Z` or as signed hours and minutes. -/
def Offset.text : Offset → String
  | .zulu => "Z"
  | .minutes east =>
    (if east < 0 then "-" else "+") ++ padded 2 (east.natAbs / 60) ++ ":"
      ++ padded 2 (east.natAbs % 60)

/-- Writes the parts that are present, with a `T` between date and time. -/
def DateTime.text (moment : DateTime) : String :=
  (moment.date.map Date.text).getD ""
    ++ (if moment.date.isSome && moment.time.isSome then "T" else "")
    ++ (moment.time.map Time.text).getD "" ++ (moment.offset.map Offset.text).getD ""

end Modulation.Config

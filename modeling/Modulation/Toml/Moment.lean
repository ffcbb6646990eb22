import Modulation.Config.DateTime
import Modulation.Toml.Scan

set_option autoImplicit false

/-! # Dates and times in text

A date is `1979-05-27`, a time `07:32:00` with an optional fraction. A time may follow a date after
`T` or one space, and only then an offset may follow: `Z` or hours and minutes with a sign. -/

namespace Modulation.Toml

open Modulation.Config

/-- Reads digits of a given number whose value lies in a range. -/
def ranged? (count low high : Nat) : Scan Nat := fun text => do
  let (n, rest) ← fixedDigits? 10 count text
  if low ≤ n ∧ n ≤ high then some (n, rest) else none

/-- The number of days of a month. -/
def daysIn (year month : Nat) : Nat :=
  if month = 2 then
    if year % 4 = 0 ∧ (year % 100 ≠ 0 ∨ year % 400 = 0) then 29 else 28
  else if month = 4 ∨ month = 6 ∨ month = 9 ∨ month = 11 then 30
  else 31

/-- Reads a day of the calendar. -/
def date? : Scan Date := fun text => do
  let (year, rest) ← fixedDigits? 10 4 text
  let rest ← word? ['-'] rest
  let (month, rest) ← ranged? 2 1 12 rest
  let rest ← word? ['-'] rest
  let (day, rest) ← ranged? 2 1 (daysIn year month) rest
  some (⟨year, month, day⟩, rest)

/-- Reads the fraction of a second, in nanoseconds; digits beyond the ninth are dropped. -/
def fraction (text : List Char) : Nat × List Char :=
  match text with
  | '.' :: rest =>
    let digits := rest.takeWhile Char.isDigit
    if digits = [] then (0, text)
    else
      let nine := digits.take 9
      (valueOf 10 nine * Nat.pow 10 (9 - nine.length), rest.dropWhile Char.isDigit)
  | _ => (0, text)

/-- Reads a time of day. -/
def time? : Scan Time := fun text => do
  let (hour, rest) ← ranged? 2 0 23 text
  let rest ← word? [':'] rest
  let (minute, rest) ← ranged? 2 0 59 rest
  let rest ← word? [':'] rest
  let (second, rest) ← ranged? 2 0 60 rest
  let (nanosecond, rest) := fraction rest
  some (⟨hour, minute, second, nanosecond⟩, rest)

/-- Reads an offset, if one stands here. -/
def offset? (text : List Char) : Option (Option Offset × List Char) :=
  match text with
  | 'Z' :: rest => some (some .zulu, rest)
  | 'z' :: rest => some (some .zulu, rest)
  | '+' :: rest => (minutes? rest).map fun (n, rest) => (some (.minutes n), rest)
  | '-' :: rest => (minutes? rest).map fun (n, rest) => (some (.minutes (-n)), rest)
  | _ => some (none, text)
where
  /-- Reads hours and minutes as minutes. -/
  minutes? : Scan Int := fun text => do
    let (hours, rest) ← ranged? 2 0 23 text
    let rest ← word? [':'] rest
    let (minutes, rest) ← ranged? 2 0 59 rest
    some (Int.ofNat (hours * 60 + minutes), rest)

/-- Whether a time starts here: two digits and a colon. -/
def startsTime : List Char → Bool
  | a :: b :: c :: _ => a.isDigit && b.isDigit && c == ':'
  | _ => false

/-- Whether a date starts here: four digits and a dash. -/
def startsDate (text : List Char) : Bool :=
  (text.take 4).all Char.isDigit && (text.drop 4).head? == some '-'

/-- Reads a date, a time or both. -/
def moment? : Scan DateTime := fun text =>
  if startsTime text then
    (time? text).map fun (time, rest) => (⟨none, some time, none⟩, rest)
  else do
    let (date, rest) ← date? text
    match rest with
    | mark :: tail =>
      if mark = 'T' ∨ mark = 't' ∨ mark = ' ' ∧ startsTime tail then
        let (time, rest) ← time? tail
        let (offset, rest) ← offset? rest
        some (⟨some date, some time, offset⟩, rest)
      else some (⟨some date, none, none⟩, rest)
    | [] => some (⟨some date, none, none⟩, rest)

/-- Reads a whole text as a date, a time or both. -/
def wholeMoment? (text : List Char) : Option DateTime :=
  match moment? text with
  | some (moment, []) => some moment
  | _ => none

end Modulation.Toml

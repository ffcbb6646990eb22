import Modulation.Decimal.Layout
import Modulation.Effect.Basic

set_option autoImplicit false

/-! # Reports of an effect

A running effect is reported in two ways: as a status line for a reader, with four places for each
number, and as records, one line for each field with its exact value. Both name the signals first
and then the vector signals, in order. -/

namespace Modulation

/-- The value of a field. -/
inductive Sample (α : Type) where
  | scalar (x : α)
  | vector (v : Vec3 α)
  deriving DecidableEq, Repr

/-- The value of a field at a tick. -/
structure Record (α : Type) where
  tick : Nat
  field : String
  value : Sample α
  deriving DecidableEq, Repr

/-- The values of all fields of an effect at its tick. -/
def Effect.records {α : Type} (effect : Effect α) : List (Record α) :=
  effect.scalars.map (fun (name, signal) => ⟨effect.tick, name, .scalar signal.value⟩)
    ++ effect.vectors.map (fun (name, signal) => ⟨effect.tick, name, .vector signal.value⟩)

/-- The fields that are recorded: first the signals and then the vector signals. -/
theorem Effect.fields_records {α : Type} (effect : Effect α) :
    effect.records.map Record.field = effect.scalars.keys ++ effect.vectors.keys := by
  simp [records, Entries.keys, Function.comp_def]

/-! ## Record lines -/

/-- Numbers in records take an exponent from ten to the sixteenth up and below ten to the minus
    fifth down; values that are no finite numbers are null. -/
def recordLayout : Decimal.Layout where
  positional := some (-5, 16)
  keepsPoint := true
  tie := .toEven
  nan := "null"
  infinite := "null"
  negativeInfinite := "null"

/-- The lower-case hexadecimal digit of a value below sixteen. -/
def lowerHexDigit (n : Nat) : Char :=
  if n < 10 then Char.ofNat ('0'.toNat + n) else Char.ofNat ('a'.toNat + n - 10)

/-- A character of a name in a record. Quotes, backslashes and controls are escaped. -/
def recordChar (c : Char) : List Char :=
  if c = '"' then ['\\', '"']
  else if c = '\\' then ['\\', '\\']
  else if c = '\n' then ['\\', 'n']
  else if c = '\r' then ['\\', 'r']
  else if c = '\t' then ['\\', 't']
  else if c.toNat = 0x08 then ['\\', 'b']
  else if c.toNat = 0x0C then ['\\', 'f']
  else if c.toNat < 0x20 then
    ['\\', 'u', '0', '0', lowerHexDigit (c.toNat / 16), lowerHexDigit (c.toNat % 16)]
  else [c]

/-- A name in a record. -/
def recordName (name : String) : String :=
  "\"" ++ String.ofList (name.toList.flatMap recordChar) ++ "\""

/-- The value in a record. -/
def Sample.text : Sample Float → String
  | scalar x => recordLayout.render x
  | vector v =>
    "[" ++ recordLayout.render v.x ++ "," ++ recordLayout.render v.y ++ ","
      ++ recordLayout.render v.z ++ "]"

/-- The line of a record. -/
def Record.line (record : Record Float) : String :=
  "\x7b\"tick\":" ++ toString record.tick ++ ",\"field\":" ++ recordName record.field
    ++ ",\"value\":" ++ record.value.text ++ "\x7d"

/-- The text of records, each on a line. -/
def recordText (records : List (Record Float)) : String :=
  String.join (records.map fun record => record.line ++ "\n")

/-! ## Status lines -/

/-- A text with spaces in front up to the given width. -/
def alignRight (width : Nat) (text : String) : String :=
  "".pushn ' ' (width - text.length) ++ text

/-- A number in a status line. -/
def statusNumber (x : Float) : String :=
  Decimal.fixed 4 x

/-- The status line of an effect. -/
def Effect.statusLine (effect : Effect Float) : String :=
  "tick " ++ alignRight 4 (toString effect.tick)
    ++ String.join (effect.scalars.map fun (name, signal) =>
      "  " ++ name ++ "=" ++ statusNumber signal.value)
    ++ String.join (effect.vectors.map fun (name, signal) =>
      "  " ++ name ++ "=(" ++ statusNumber signal.value.x ++ ", " ++ statusNumber signal.value.y
        ++ ", " ++ statusNumber signal.value.z ++ ")")

end Modulation

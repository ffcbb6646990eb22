import Modulation.Decimal.Literal

set_option autoImplicit false

/-! # Command line options

A command line names an effect and sets options by flags. A flag that takes a value takes the next
argument, whatever it is; the last use of a flag counts, also when its value is no valid one or is
missing, and then leaves the option unset. Unknown flags are ignored, and so is every plain argument
after the first. -/

namespace Modulation

/-- What a command line asks for. -/
structure Options where
  effect : Option String
  ticks : Option UInt64
  seed : Option UInt64
  check : Bool
  emit : Option String
  record : Option String
  settings : Option String
  deriving DecidableEq, Repr

/-- The flags that are known. -/
inductive Flag where
  | check
  | ticks
  | seed
  | emit
  | record
  | settings
  deriving DecidableEq, Repr

/-- The flag that an argument is. -/
def Flag.ofArgument? : String → Option Flag
  | "--check" => some check
  | "--ticks" => some ticks
  | "--seed" => some seed
  | "--emit" => some emit
  | "--record" => some record
  | "--settings" => some settings
  | _ => none

/-- Whether an argument looks like a flag. -/
def looksLikeFlag (argument : String) : Bool :=
  argument.toList.take 2 == ['-', '-']

namespace Options

/-- The options of an empty command line. -/
def empty : Options :=
  ⟨none, none, none, false, none, none, none⟩

/-- Sets the option of a flag that takes a value. -/
def setValue (options : Options) (flag : Flag) (value : Option String) : Options :=
  match flag with
  | .check => options
  | .ticks => { options with ticks := value.bind Decimal.word64? }
  | .seed => { options with seed := value.bind Decimal.word64? }
  | .emit => { options with emit := value }
  | .record => { options with record := value }
  | .settings => { options with settings := value }

/-- Takes an argument that is no known flag. -/
def takePlain (options : Options) (argument : String) : Options :=
  if looksLikeFlag argument || options.effect.isSome then options
  else { options with effect := some argument }

/-- Takes arguments in turn. -/
def take : Options → List String → Options
  | options, [] => options
  | options, argument :: rest =>
    match Flag.ofArgument? argument with
    | none => take (options.takePlain argument) rest
    | some .check => take { options with check := true } rest
    | some flag =>
      match rest with
      | [] => options.setValue flag none
      | value :: rest => take (options.setValue flag (some value)) rest

/-- The options of a command line. -/
def parse (arguments : List String) : Options :=
  empty.take arguments

end Options

end Modulation

import Modulation.Toml.Reader

set_option autoImplicit false

/-! # Simulation settings

Settings say how many ticks an effect runs, from which seed it draws, and which ticks print a status
line. They are read from a configuration; one that cannot be read, or in which one of the settings
is no whole number from zero up, stands for the defaults. -/

namespace Modulation

open Modulation.Config

/-- How an effect is run. -/
structure Settings where
  ticks : UInt64
  seed : Option UInt64
  printEvery : UInt64
  deriving DecidableEq, Repr

namespace Settings

/-- Forty ticks, each with a status line. -/
def default : Settings :=
  ⟨40, none, 1⟩

/-- Where settings are read from unless another place is given. -/
def defaultPath : String := "config/simulation.toml"

/-- Reads the whole number under a key, if the key is there; the outer option says whether the
    reading succeeds. -/
def whole? (entries : Section Float) (key : String) : Option (Option UInt64) :=
  match entries.get? key with
  | none => some none
  | some (.integer n) => if 0 ≤ n then some (some (UInt64.ofNat n.toNat)) else none
  | some _ => none

/-- Reads settings from a section; an absent setting has its default. -/
def ofSection? (entries : Section Float) : Option Settings := do
  let ticks ← whole? entries "ticks"
  let seed ← whole? entries "seed"
  let printEvery ← whole? entries "print_every"
  some ⟨ticks.getD default.ticks, seed, printEvery.getD default.printEvery⟩

/-- Reads settings from a text, if there is one. -/
def ofText (text : Option String) : Settings :=
  ((text.bind Toml.tables?).bind ofSection?).getD default

/-- Whether a tick prints a status line: the multiples of `printEvery` do, and none when it is
    zero. -/
def prints (settings : Settings) (tick : Nat) : Bool :=
  settings.printEvery != 0 && tick % settings.printEvery.toNat == 0

end Settings

end Modulation

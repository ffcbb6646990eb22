set_option autoImplicit false

/-! # Sources of random numbers

Random signals draw from a source that is handed from one to the next: each draw gives a number in
`[0, 1)` and the source that comes after it. -/

namespace Modulation

/-- States from which numbers are drawn. -/
class RandomSource (σ : Type) (α : outParam Type) where
  /-- A number, and the source after it. -/
  next : σ → α × σ

/-- Draws a number. -/
def draw {σ α : Type} [RandomSource σ α] : StateM σ α :=
  fun source => RandomSource.next source

/-- The source after a number of draws. -/
def sourceAfter {σ α : Type} [RandomSource σ α] : (draws : Nat) → σ → σ
  | 0, source => source
  | draws + 1, source => sourceAfter draws (RandomSource.next source).2

/-- An endless list of numbers is a source: its head is drawn first. -/
abbrev Draws (α : Type) := Nat → α

instance {α : Type} : RandomSource (Draws α) α where
  next draws := (draws 0, fun n => draws (n + 1))

end Modulation

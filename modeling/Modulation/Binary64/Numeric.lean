import Modulation.Numeric
import Modulation.Binary64.Bits

set_option autoImplicit false

/-! # Doubles as the numbers of signals

The operations are those of IEEE double arithmetic, each rounded to nearest; the remainder is
exact. -/

namespace Modulation.Binary64

instance instModFloat : Mod Float := ⟨remainder⟩

instance : Numeric Float where
  decLT := fun a b => Float.decLt a b
  decLE := fun a b => Float.decLe a b
  ofInt := Float.ofInt
  abs := Float.abs
  sqrt := Float.sqrt
  sin := Float.sin
  cos := Float.cos
  infinity := 1.0 / 0.0
  nan := 0.0 / 0.0

end Modulation.Binary64

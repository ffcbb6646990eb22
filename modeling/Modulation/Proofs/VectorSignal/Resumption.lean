import Modulation.Proofs.Signal.Resumption
import Modulation.Proofs.VectorSignal.Reachable
import Modulation.Proofs.VectorSignal.Rebuilding
import Modulation.VectorSignal.Writer

set_option autoImplicit false

/-! # Reading a written vector signal

What is written of a vector signal is read as the vector signal built anew from its parts, on a page
or off it (`reads_page`). The arguments of its own operators keep their order on a page, because
every vector signal is written as a section; those of the signals in it may not.

Without a page a reachable vector signal comes back collapsed (`reads_toValue`). -/

namespace Modulation.VectorSignal

open Modulation.Config

variable {α : Type}

theorem toValues_eq_map (arguments : List (VectorSignal α)) :
    toValues arguments = arguments.map toValue := by
  induction arguments with
  | nil => rfl
  | cons first rest ih => rw [toValues, ih, List.map_cons]

theorem isBranch_toValue (signal : VectorSignal α) : signal.toValue.isBranch = true := by
  cases signal <;> rfl

/-- Whether a section holds components does not depend on its order. -/
theorem isComponentSection_perm {β : Type} {entries others : Entries β}
    (h : entries.Perm others) : isComponentSection others = isComponentSection entries := by
  unfold isComponentSection Entries.keys
  rw [(h.map Prod.fst).all_eq, h.isEmpty_eq]

section Page

variable {page : Value α → Value α} {rows : Section α → Section α}

theorem isComponentSection_page_tag (hpage : Keeps page rows) (kind : VectorKind)
    (value : Value α) : isComponentSection (rows [(kind.tag, value)]) = false := by
  rw [hpage.single]
  exact isComponentSection_tag kind _

theorem isComponentSection_page (hpage : Keeps page rows) (x y z : Value α) :
    isComponentSection (rows [("x", x), ("y", y), ("z", z)]) = true := by
  rw [isComponentSection_perm (hpage.perm _)]
  rfl

theorem isBranch_keyedArguments (arguments : List (VectorSignal α)) :
    ∀ entry ∈ keyedArguments (toValues arguments), entry.2.isBranch = true := by
  intro entry hentry
  have hmem : entry.2 ∈ toValues arguments := by
    rw [← keyedArguments_values (toValues arguments)]
    exact List.mem_map_of_mem hentry
  rw [toValues_eq_map] at hmem
  obtain ⟨argument, -, hargument⟩ := List.mem_map.1 hmem
  rw [← hargument]
  exact isBranch_toValue argument

/-- The arguments of an operator keep their order on a page. -/
theorem keyedArguments_page (hpage : Keeps page rows) (arguments : List (VectorSignal α)) :
    (rows (keyedArguments (toValues arguments))).map Prod.snd
      = arguments.map fun argument => page argument.toValue := by
  have hvalues := congrArg (List.map page) (keyedArguments_values (toValues arguments))
  rw [List.map_map, toValues_eq_map, List.map_map] at hvalues
  rw [hpage.branches _ (isBranch_keyedArguments arguments), List.map_map, toValues_eq_map]
  exact hvalues

variable [Numeric α] {arrange : List (Signal α) → List (Signal α)}

/-- The signal under a name of a page is read as it is read on the page by itself. -/
theorem readsAt_page (hpage : Keeps page rows) {body : Section α} (distinct : body.Distinct)
    {key : String} {default : Option α} {value : Value α} {signal : Signal α}
    (hvalue : body.get? key = some value) (hreads : Reads Signal.ofValue (page value) signal)
    (path : String) : Signal.read (rows body) key path default = .ok signal :=
  Signal.read_of_holdsAt (holdsAt_page hpage distinct hvalue hreads) path default

/-- A section of components on a page is read as the vector put together from them. -/
theorem reads_componentTable (hpage : Keeps page rows) {x y z : Value α} {a b c : Signal α}
    (hx : Reads Signal.ofValue (page x) a) (hy : Reads Signal.ofValue (page y) b)
    (hz : Reads Signal.ofValue (page z) c) :
    Reads ofValue (page (componentTable x y z)) (ofComponents a b c) := by
  have hdistinct : List.Nodup ["x", "y", "z"] := by decide
  rw [componentTable, hpage.table]
  refine reads_ofComponents (isComponentSection_page hpage x y z)
    (readsAt_page hpage ?_ rfl hx) (readsAt_page hpage ?_ rfl hy) (readsAt_page hpage ?_ rfl hz)
  all_goals exact hdistinct

theorem reads_float (hpage : Keeps page rows) (x : α) :
    Reads Signal.ofValue (page (.float x)) (.constant x) := by
  intro path
  rw [hpage.float]
  rfl

/-- What is written of a vector signal is read as the vector signal built anew from its parts. -/
theorem reads_page [Numeric.Lawful α] (hpage : Keeps page rows)
    (harrange : Signal.Arranges page rows arrange) {signal : VectorSignal α}
    (h : signal.Coherent) : Reads ofValue (page signal.toValue) (rebuilt arrange signal) := by
  induction h with
  | @constant value _ =>
    exact reads_componentTable hpage (reads_float hpage _) (reads_float hpage _)
      (reads_float hpage _)
  | @combined op arguments value hmade _ ih =>
    have hreads : List.Forall₂ (Reads ofValue)
        ((rows (keyedArguments (toValues arguments))).map Prod.snd)
        (arguments.map (rebuilt arrange)) := by
      rw [keyedArguments_page hpage, List.forall₂_map_left_iff, List.forall₂_map_right_iff,
        List.forall₂_same]
      exact ih
    have hadmits : op.arity.Admits (arguments.map (rebuilt arrange)).length := by
      rw [List.length_map]
      exact hmade.1
    rw [toValue, hpage.table, rebuilt, rebuiltAll_eq_map, argumentSection_eq]
    exact reads_combined (isComponentSection_page_tag hpage (.combine op) _)
      (chooseTag_page_table hpage (ofTag?_tag (.combine op)) _) hreads hadmits
  | normalized _ _ ih =>
    rw [toValue, hpage.table, rebuilt]
    exact reads_normalized (isComponentSection_page_tag hpage .normalize _)
      (chooseTag_page hpage (ofTag?_tag .normalize) _) ih
  | scaled _ _ hfactor ih =>
    have hdistinct : List.Nodup ["vector", "factor"] := by decide
    rw [toValue, hpage.table, rebuilt]
    refine reads_scaled (isComponentSection_page_tag hpage .scale _)
      (chooseTag_page_table hpage (ofTag?_tag .scale) _) (holdsAt_page hpage ?_ rfl ih)
      (readsAt_page hpage ?_ rfl (Signal.reads_page hpage harrange hfactor))
    all_goals exact hdistinct
  | rotated _ _ hperiod hradius ih =>
    have hdistinct : List.Nodup ["about", "period", "radius", "initialProgress"] := by decide
    rw [toValue, hpage.table, rebuilt, ← rotate_abs]
    refine reads_rotated (isComponentSection_page_tag hpage .rotate _)
      (chooseTag_page_table hpage (ofTag?_tag .rotate) _) (holdsAt_page hpage ?_ rfl ih)
      (readsAt_page hpage ?_ rfl (Signal.reads_page hpage harrange hperiod))
      (readsAt_page hpage ?_ rfl (Signal.reads_page hpage harrange hradius))
      (readInitialProgress_page hpage ?_ rfl)
    all_goals exact hdistinct
  | assembled _ hx hy hz =>
    exact reads_componentTable hpage (Signal.reads_page hpage harrange hx)
      (Signal.reads_page hpage harrange hy) (Signal.reads_page hpage harrange hz)

end Page

/-! ## Reading back what was written -/

/-- A coherent vector signal whose phases are those at which it would start is read as it was
    written, but for the vectors of three constants in it. -/
theorem reads_toValue [Numeric α] [Numeric.Lawful α] {signal : VectorSignal α}
    (h : signal.Coherent) (hphases : signal.KeepsPhases) :
    Reads ofValue signal.toValue signal.collapsed := by
  have harranged : signal.Everywhere (fun _ => True) (Signal.IsArranged id) :=
    h.mono (fun _ _ => trivial) fun part _ => Signal.isArranged_id part
  have hreads := reads_page keeps_id Signal.arranges_id h
  rwa [rebuilt_eq_collapsed h hphases harranged] at hreads

end Modulation.VectorSignal

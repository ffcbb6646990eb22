import Modulation.Effect.Report
import Modulation.Proofs.Effect.Resumption
import Modulation.Proofs.VectorSignal.Page

set_option autoImplicit false

/-! # Effects on a page

Of the fields of an effect, the constants among its signals are written as numbers and everything
else as tables. A page has the numbers of a table before its subtables, so the constants come back
in front of the other signals, and the vector signals come back in their order; the fields
themselves come back as they would by themselves (`fromPage`).

`names_from_page` says in which order the names come back, and that the order is the old one just
when no constant stood behind another signal. `spinFirst_from_page` is an effect whose fields change
places. A page brings an effect into a form that every further page keeps (`settled_from_page`). -/

namespace Modulation.Effect

open Modulation.Config

variable {α : Type}

/-! ## The fields of a page -/

/-- Whether a field holds a constant. -/
def isConstantField (field : String × Signal α) : Bool :=
  field.2.isConstant

/-- The signals come from a page with the constants in front. -/
theorem orders_front :
    Orders (α := α) Value.arranged Section.arranged Signal.toValue (front isConstantField) where
  perm := front_perm isConstantField
  rows fields := by
    have hpick : (fun field : String × Signal α => !field.2.toValue.arranged.isBranch)
        = isConstantField := by
      funext field
      rw [isBranch_arranged, Signal.isBranch_toValue, Bool.not_not]
      rfl
    rw [arranged_eq_front, List.map_map, front_map, ← hpick]
    rfl

variable [Numeric α]

/-- The effect that is read from the page of an effect. -/
def fromPage (effect : Effect α) : Effect α :=
  effect.rebuilt (front isConstantField) Signal.numbersFirst

/-- Prints an effect, parses the text and reads the effect that it says, with its issues. -/
def reprinted? (print : Section α → String) (parse : String → Option (Section α))
    (effect : Effect α) (path : String) : Option (Effect α × IssueLog) :=
  (parse (print effect.toSection)).map fun page => ofSection page path

section Reprinting

variable {print : Section α → String} {parse : String → Option (Section α)}

theorem reprinted?_eq [Numeric.Lawful α] {effect : Effect α} (h : effect.Coherent)
    (hpage : parse (print effect.toSection) = some (Section.arranged effect.toSection))
    (path : String) : effect.reprinted? print parse path = some (effect.fromPage, []) := by
  rw [reprinted?, hpage, Option.map_some,
    ofSection_page keeps_arranged orders_front Signal.arranges_numbersFirst h]
  rfl

end Reprinting

theorem keys_scalars_fromPage (effect : Effect α) :
    effect.fromPage.scalars.keys = Entries.keys (front isConstantField effect.scalars) := by
  unfold fromPage rebuilt Entries.keys
  rw [List.map_map]
  rfl

theorem keys_vectors_fromPage (effect : Effect α) :
    effect.fromPage.vectors.keys = effect.vectors.keys := by
  unfold fromPage rebuilt Entries.keys
  rw [List.map_map]
  rfl

/-- The names come back in their order just when no constant stands behind another signal. -/
theorem fields_records_fromPage_iff {effect : Effect α} (distinct : effect.scalars.Distinct) :
    effect.fromPage.records.map Record.field = effect.records.map Record.field
      ↔ InFront isConstantField effect.scalars := by
  rw [fields_records, fields_records, keys_vectors_fromPage, List.append_cancel_right_eq,
    keys_scalars_fromPage, ← front_eq_self_iff]
  constructor
  · intro hkeys
    exact (Entries.eq_of_perm_of_keys_eq distinct (front_perm _ _).symm hkeys.symm).symm
  · intro hfront
    rw [hfront]

/-! ## The order of names -/

/-- A reachable effect that is printed and parsed is read without an issue, and its vector signals
    come back under the same names in the same order. Of the names of its signals those of constants
    come first, each of the two groups in its order. So the fields are recorded in their order just
    when no constant stood behind another signal. -/
theorem names_from_page {effect : Effect Float} (h : effect.Reachable)
    (print : Section Float → String) (parse : String → Option (Section Float)) (path : String)
    (hpage : parse (print effect.toSection) = some (Section.arranged effect.toSection)) :
    ∃ later, effect.reprinted? print parse path = some (later, [])
      ∧ later.scalars.keys
          = Entries.keys (effect.scalars.filter fun field => field.2.isConstant)
            ++ Entries.keys (effect.scalars.filter fun field => !field.2.isConstant)
      ∧ later.vectors.keys = effect.vectors.keys
      ∧ (later.records.map Record.field = effect.records.map Record.field
          ↔ InFront isConstantField effect.scalars) := by
  refine ⟨_, reprinted?_eq h.coherent hpage path, ?_, keys_vectors_fromPage effect,
    fields_records_fromPage_iff h.fields.1.1⟩
  rw [keys_scalars_fromPage]
  exact List.map_append

/-- What a ramp in four ticks is written as. -/
def rampValue : Value Float :=
  .table [("cycle", .table [("start", .float 0.0), ("end", .float 1.0), ("period", .float 4.0)])]

/-- The effect that is loaded from two signals. -/
def loadedFrom (first second : String × Value Float) : Effect Float :=
  (ofSection [("scalars", .table [first, second])] "").1

theorem loadedFrom_reachable {first second : String × Value Float} (hne : first.1 ≠ second.1) :
    (loadedFrom first second).Reachable := by
  refine .loaded "" fun key table htable => ?_
  rw [Entries.get?_cons] at htable
  split at htable
  · cases htable
    exact List.nodup_cons.2 ⟨by simpa using hne, List.nodup_singleton _⟩
  · cases htable

/-- A size that stays, and then a turn. -/
def sizeFirst : Effect Float :=
  loadedFrom ("size", .float 2.5) ("spin", rampValue)

theorem sizeFirst_from_page :
    (sizeFirst.Reachable
        ∧ Toml.parse (Toml.render sizeFirst.toSection)
          = some (Section.arranged sizeFirst.toSection))
      ∧ ∃ later, sizeFirst.reprinted? Toml.render Toml.parse "" = some (later, [])
        ∧ later.records.map Record.field = sizeFirst.records.map Record.field := by
  have hreachable : sizeFirst.Reachable := loadedFrom_reachable (by decide)
  have hpage : Toml.parse (Toml.render sizeFirst.toSection)
      = some (Section.arranged sizeFirst.toSection) := by decide +kernel
  obtain ⟨later, hread, -, -, hrecords⟩ :=
    names_from_page hreachable Toml.render Toml.parse "" hpage
  exact ⟨⟨hreachable, hpage⟩, later, hread, hrecords.2 (List.pairwise_pair.2 fun _ => rfl)⟩

/-- A turn, and then a size that stays. -/
def spinFirst : Effect Float :=
  loadedFrom ("spin", rampValue) ("size", .float 2.5)

/-- On a page the size stands before the turn. -/
theorem spinFirst_from_page :
    spinFirst.Reachable
      ∧ Toml.parse (Toml.render spinFirst.toSection) = some (Section.arranged spinFirst.toSection)
      ∧ ∃ later, spinFirst.reprinted? Toml.render Toml.parse "" = some (later, [])
        ∧ spinFirst.scalars.keys = ["spin", "size"] ∧ later.scalars.keys = ["size", "spin"]
        ∧ later.records.map Record.field ≠ spinFirst.records.map Record.field := by
  have hreachable : spinFirst.Reachable := loadedFrom_reachable (by decide)
  have hpage : Toml.parse (Toml.render spinFirst.toSection)
      = some (Section.arranged spinFirst.toSection) := by decide +kernel
  refine ⟨hreachable, hpage, _, reprinted?_eq hreachable.coherent hpage "", ?_, ?_, ?_⟩
  all_goals decide +kernel

/-! ## A page that was a page before -/

theorem coherent_fromPage [Numeric.Lawful α] {effect : Effect α} (h : effect.Coherent) :
    effect.fromPage.Coherent := by
  obtain ⟨⟨hnames, hscalars⟩, ⟨hvectorNames, hvectors⟩⟩ := h
  refine ⟨⟨?_, fun field hmem => ?_⟩, ⟨?_, fun field hmem => ?_⟩⟩
  · unfold Entries.Distinct
    rw [keys_scalars_fromPage]
    exact ((front_perm _ _).map Prod.fst).nodup_iff.2 hnames
  · obtain ⟨written, hwritten, rfl⟩ := List.mem_map.1 hmem
    exact Signal.coherent_rebuilt (hscalars written ((front_perm _ _).mem_iff.1 hwritten))
  · unfold Entries.Distinct
    rw [keys_vectors_fromPage]
    exact hvectorNames
  · obtain ⟨written, hwritten, rfl⟩ := List.mem_map.1 hmem
    exact VectorSignal.coherent_rebuilt (hvectors written hwritten)

/-- What came from a page once comes from every further page as it is. -/
theorem fromPage_fromPage {effect : Effect Float} (h : effect.Coherent) :
    effect.fromPage.fromPage = effect.fromPage := by
  obtain ⟨⟨-, hscalars⟩, ⟨-, hvectors⟩⟩ := h
  -- The constants are in front already, because building a signal anew makes no constant of it.
  have hfront : front isConstantField effect.fromPage.scalars = effect.fromPage.scalars := by
    have hpick : (fun field : String × Signal Float =>
        isConstantField (field.1, field.2.rebuilt Signal.numbersFirst)) = isConstantField := by
      funext field
      exact Signal.isConstant_rebuilt _ _
    have hagain := front_of_inFront (inFront_front isConstantField effect.scalars)
    unfold fromPage rebuilt
    rw [front_map, hpick, hagain]
  have hscalarsAgain : ∀ field ∈ effect.fromPage.scalars,
      field.2.rebuilt Signal.numbersFirst = field.2 := by
    intro field hmem
    obtain ⟨written, hwritten, rfl⟩ := List.mem_map.1 hmem
    exact Signal.rebuilt_rebuilt (hscalars written ((front_perm _ _).mem_iff.1 hwritten))
  have hvectorsAgain : ∀ field ∈ effect.fromPage.vectors,
      field.2.rebuilt Signal.numbersFirst = field.2 := by
    intro field hmem
    obtain ⟨written, hwritten, rfl⟩ := List.mem_map.1 hmem
    exact VectorSignal.rebuilt_rebuilt (hvectors written hwritten)
  show effect.fromPage.rebuilt (front isConstantField) Signal.numbersFirst = _
  rw [rebuilt, hfront, Entries.map_eq_self hscalarsAgain, Entries.map_eq_self hvectorsAgain]
  rfl

/-! ## Fields that come back as they were -/

/-- No constant argument stands behind one that is not, at any depth of any field. -/
def NumbersFirst (effect : Effect α) : Prop :=
  (∀ field ∈ effect.scalars, field.2.Everywhere Signal.NumbersFirst)
    ∧ ∀ field ∈ effect.vectors, field.2.NumbersFirst

theorem scalar?_fromPage {effect : Effect Float} (h : effect.Coherent)
    (hfirst : effect.NumbersFirst) (hphases : effect.KeepsPhases) (name : String) :
    effect.fromPage.scalar? name = effect.scalar? name := by
  obtain ⟨⟨hnames, hscalars⟩, -⟩ := h
  have hsame : ∀ field ∈ front isConstantField effect.scalars,
      field.2.rebuilt Signal.numbersFirst = field.2 := by
    intro field hmem
    have hwritten := (front_perm _ _).mem_iff.1 hmem
    exact Signal.rebuilt_numbersFirst_eq_self (hscalars field hwritten) (hfirst.1 field hwritten)
      (hphases.1 field hwritten)
  unfold scalar? fromPage rebuilt
  rw [Entries.map_eq_self hsame, Entries.get?_perm hnames (front_perm _ _).symm]

theorem vector?_fromPage {effect : Effect α} (h : effect.Coherent) (hfirst : effect.NumbersFirst)
    (hphases : effect.KeepsPhases) (name : String) :
    effect.fromPage.vector? name = (effect.vector? name).map VectorSignal.collapsed := by
  have hcollapsed : ∀ field ∈ effect.vectors,
      (field.1, field.2.rebuilt Signal.numbersFirst) = (field.1, field.2.collapsed) := by
    intro field hmem
    rw [VectorSignal.rebuilt_numbersFirst_eq_collapsed (h.2.2 field hmem) (hfirst.2 field hmem)
      (hphases.2 field hmem)]
  unfold vector? fromPage rebuilt
  rw [List.map_congr_left hcollapsed, Entries.get?_map]

/-- A reachable effect that is printed and parsed is read without an issue and has the names that it
    had. Printed and parsed once more, it comes back as it is, in every part and in its order. If no
    constant argument of a signal stood behind another one at any depth, and every phase is one at
    which a signal starts, each signal came back as it was and each vector signal collapsed. -/
theorem settled_from_page {effect : Effect Float} (h : effect.Reachable)
    (print : Section Float → String) (parse : String → Option (Section Float)) (path : String)
    (hpage : parse (print effect.toSection) = some (Section.arranged effect.toSection)) :
    ∃ later, effect.reprinted? print parse path = some (later, [])
      ∧ later.scalars.keys.Perm effect.scalars.keys ∧ later.vectors.keys = effect.vectors.keys
      ∧ (parse (print later.toSection) = some (Section.arranged later.toSection) →
          later.reprinted? print parse path = some (later, []))
      ∧ (effect.NumbersFirst → effect.KeepsPhases → ∀ name,
          later.scalar? name = effect.scalar? name
            ∧ later.vector? name = (effect.vector? name).map VectorSignal.collapsed) := by
  have hcoherent := h.coherent
  refine ⟨_, reprinted?_eq hcoherent hpage path, ?_, keys_vectors_fromPage effect, ?_, ?_⟩
  · rw [keys_scalars_fromPage]
    exact (front_perm _ _).map Prod.fst
  · intro hagain
    rw [reprinted?_eq (coherent_fromPage hcoherent) hagain, fromPage_fromPage hcoherent]
  · intro hfirst hphases name
    exact ⟨scalar?_fromPage hcoherent hfirst hphases name,
      vector?_fromPage hcoherent hfirst hphases name⟩

/-- What a ramp leaves of a limit, and a direction. -/
def leaving : Effect Float :=
  ((ofSection [] "").1.insertScalar "left" Signal.remains).insertVector "offset" direction

theorem leaving_reachable : leaving.Reachable := by
  have hloaded : Reachable (ofSection ([] : Section Float) "").1 :=
    .loaded "" fun _ _ habsent => nomatch habsent
  exact (hloaded.insertScalar "left" Signal.remains_reachable).insertVector "offset"
    (.components (.constant _) (.constant _) (.constant _))

theorem leaving_numbersFirst : leaving.NumbersFirst := by
  refine ⟨List.forall_mem_singleton.2 Signal.remains_numbersFirst,
    List.forall_mem_singleton.2 (.assembled trivial ?_ ?_ ?_)⟩
  all_goals exact .constant trivial

theorem leaving_keepsPhases : leaving.KeepsPhases := by
  refine ⟨List.forall_mem_singleton.2 Signal.remains_keepsPhase,
    List.forall_mem_singleton.2 (.assembled trivial ?_ ?_ ?_)⟩
  all_goals exact .constant trivial

theorem leaving_settled :
    (leaving.Reachable ∧ leaving.NumbersFirst ∧ leaving.KeepsPhases
        ∧ ∀ effect ∈ [leaving, leaving.fromPage],
          Toml.parse (Toml.render effect.toSection) = some (Section.arranged effect.toSection))
      ∧ ∃ later, leaving.reprinted? Toml.render Toml.parse "" = some (later, [])
        ∧ later.reprinted? Toml.render Toml.parse "" = some (later, [])
        ∧ later.scalar? "left" = some Signal.remains
        ∧ later.vector? "offset" = some (.constant ⟨1.0, 2.0, 3.0⟩) := by
  have hpage : Toml.parse (Toml.render leaving.toSection)
      = some (Section.arranged leaving.toSection) := by decide +kernel
  -- A direction that has become a constant is written as before.
  have hsame : leaving.fromPage.toSection = leaving.toSection := by decide +kernel
  have hagain : Toml.parse (Toml.render leaving.fromPage.toSection)
      = some (Section.arranged leaving.fromPage.toSection) := by
    rw [hsame]
    exact hpage
  obtain ⟨later, hread, -, -, hsettled, hkept⟩ :=
    settled_from_page leaving_reachable Toml.render Toml.parse "" hpage
  have hlater : leaving.fromPage = later := by
    rw [reprinted?_eq leaving_reachable.coherent hpage] at hread
    exact congrArg Prod.fst (Option.some.inj hread)
  subst hlater
  have hfields := hkept leaving_numbersFirst leaving_keepsPhases
  refine ⟨⟨leaving_reachable, leaving_numbersFirst, leaving_keepsPhases, ?_⟩,
    _, hread, hsettled hagain, (hfields "left").1, (hfields "offset").2⟩
  exact List.forall_mem_cons.2 ⟨hpage, List.forall_mem_singleton.2 hagain⟩

end Modulation.Effect

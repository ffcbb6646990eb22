import Modulation.Proofs.Effect.Reachable
import Modulation.Proofs.VectorSignal.Resumption

set_option autoImplicit false

/-! # Reading a written effect

The names of a reachable effect are all different, so that writing it neither loses nor reorders a
field, and each field is read as it would be by itself. What is written of an effect is read as the
effect built anew from its fields, on a page or off it (`ofSection_page`). A page may bring the
fields of a table into another order; `Orders` says into which.

Without a page `written_read_back` says what comes back of a reachable vector signal and of a
reachable effect. -/

namespace Modulation.Effect

open Modulation.Config

variable {α β : Type}

/-! ## One table -/

section Table

variable {page : Value α → Value α} {rows : Section α → Section α} {read : Value α → Reader β}
  {toValue : β → Value α} {reread : β → β} {order : Entries β → Entries β} {fields : Entries β}
  {key other : String}

/-- Fields are read from a page in the order that `order` gives them. -/
structure Orders (page : Value α → Value α) (rows : Section α → Section α) (toValue : β → Value α)
    (order : Entries β → Entries β) : Prop where
  perm : ∀ fields, (order fields).Perm fields
  rows : ∀ fields : Entries β, rows (fields.map fun field => (field.1, toValue field.2))
    = (order fields).map fun field => (field.1, page (toValue field.2))

theorem orders_id (toValue : β → Value α) : Orders id id toValue id where
  perm _ := .refl _
  rows _ := rfl

/-- Fields that all have blocks of their own keep their order on a page. -/
theorem orders_branches (hpage : Keeps page rows) (h : ∀ field, (toValue field).isBranch = true) :
    Orders page rows toValue id where
  perm _ := .refl _
  rows fields := by
    have hall : ∀ entry ∈ fields.map fun field => (field.1, toValue field.2),
        entry.2.isBranch = true := by
      intro entry hentry
      obtain ⟨field, -, rfl⟩ := List.mem_map.1 hentry
      exact h field.2
    rw [hpage.branches _ hall, List.map_map]
    rfl

theorem writeTable_eq (distinct : fields.Distinct) (root : Section α) :
    writeTable toValue fields key root
      = if fields.isEmpty then root
        else root.setSection key (fields.map fun field => (field.1, toValue field.2)) := by
  have hdistinct : Entries.Distinct (fields.map fun field => (field.1, toValue field.2)) := by
    unfold Entries.Distinct Entries.keys
    rw [List.map_map]
    exact distinct
  have hfold := Entries.ofList_eq_self hdistinct
  rw [Entries.ofList, List.foldl_map] at hfold
  rw [writeTable, hfold]

theorem get?_writeTable_ne (hne : key ≠ other) (root : Section α) :
    (writeTable toValue fields key root).get? other = root.get? other := by
  unfold writeTable
  split
  · rfl
  · rw [Section.setSection, Entries.get?_set, if_neg hne]

theorem distinct_writeTable {root : Section α} (h : root.Distinct) :
    (writeTable toValue fields key root).Distinct := by
  unfold writeTable
  split
  · exact h
  · exact h.set key _

/-- Written fields are read from a page, each by itself, without an issue. -/
theorem readFields_written
    (hreads : ∀ field ∈ fields, Reads read (page (toValue field.2)) (reread field.2))
    (path : String) :
    readFields read path (fields.map fun field => (field.1, page (toValue field.2)))
      = (fields.map fun field => (field.1, reread field.2), []) := by
  induction fields with
  | nil => rfl
  | cons field rest ih =>
    obtain ⟨hfield, hrest⟩ := List.forall_mem_cons.1 hreads
    rw [List.map_cons, readFields_cons, hfield, ih hrest]
    rfl

theorem readTable_page [Numeric α] (hpage : Keeps page rows)
    (horder : Orders page rows toValue order) (distinct : fields.Distinct)
    (hreads : ∀ field ∈ fields, Reads read (page (toValue field.2)) (reread field.2))
    {root written : Section α} (habsent : root.get? key = none) (hnames : written.Distinct)
    (hwritten : written.get? key = (writeTable toValue fields key root).get? key) (path : String) :
    readTable read (rows written) key path
      = ((order fields).map fun field => (field.1, reread field.2), []) := by
  have hordered : ∀ field ∈ order fields, Reads read (page (toValue field.2)) (reread field.2) :=
    fun field hmem => hreads field ((horder.perm fields).mem_iff.1 hmem)
  unfold readTable
  rw [hpage.get? hnames, hwritten, writeTable_eq distinct]
  by_cases hempty : fields = []
  -- For no fields no table is written, and there is none to read.
  · subst hempty
    have hnone : order [] = [] := List.perm_nil.1 (horder.perm [])
    simp [habsent, hnone]
  · rw [List.isEmpty_eq_false_iff.2 hempty, if_neg Bool.false_ne_true, Section.setSection,
      Entries.get?_set, if_pos rfl, Option.map_some, hpage.table, horder.rows]
    exact readFields_written hordered _

end Table

/-! ## The effect as a whole -/

variable [Numeric α]

/-- The effect built anew from the fields of an effect, with its signals in the order that `order`
    gives them and their arguments arranged. -/
def rebuilt (order : Entries (Signal α) → Entries (Signal α))
    (arrange : List (Signal α) → List (Signal α)) (effect : Effect α) : Effect α :=
  ⟨(order effect.scalars).map fun field => (field.1, field.2.rebuilt arrange),
    effect.vectors.map fun field => (field.1, field.2.rebuilt arrange), 0⟩

section Page

variable {page : Value α → Value α} {rows : Section α → Section α}
  {order : Entries (Signal α) → Entries (Signal α)} {arrange : List (Signal α) → List (Signal α)}

/-- What is written of an effect is read as the effect built anew from its fields. -/
theorem ofSection_page [Numeric.Lawful α] (hpage : Keeps page rows)
    (horder : Orders page rows Signal.toValue order)
    (harrange : Signal.Arranges page rows arrange) {effect : Effect α} (h : effect.Coherent)
    (path : String) :
    ofSection (rows effect.toSection) path = (effect.rebuilt order arrange, []) := by
  obtain ⟨⟨hnames, hscalars⟩, ⟨hvectorNames, hvectors⟩⟩ := h
  have hkeys : vectorsKey ≠ scalarsKey := by decide
  have hreadScalars : ∀ field ∈ effect.scalars,
      Reads Signal.ofValue (page field.2.toValue) (field.2.rebuilt arrange) :=
    fun field hmem => Signal.reads_page hpage harrange (hscalars field hmem)
  have hreadVectors : ∀ field ∈ effect.vectors,
      Reads VectorSignal.ofValue (page field.2.toValue) (field.2.rebuilt arrange) :=
    fun field hmem => VectorSignal.reads_page hpage harrange (hvectors field hmem)
  have hbranches := orders_branches hpage (VectorSignal.isBranch_toValue (α := α))
  have habsent : (writeTable Signal.toValue effect.scalars scalarsKey []).get? vectorsKey = none :=
    get?_writeTable_ne hkeys.symm []
  have hdistinct : effect.toSection.Distinct :=
    distinct_writeTable (distinct_writeTable List.nodup_nil)
  unfold ofSection
  rw [readTable_page hpage horder hnames hreadScalars rfl hdistinct (get?_writeTable_ne hkeys _),
    readTable_page hpage hbranches hvectorNames hreadVectors habsent hdistinct rfl]
  rfl

end Page

/-- The phases in all fields are those at which the signals start with that initial progress. -/
def KeepsPhases (effect : Effect α) : Prop :=
  (∀ field ∈ effect.scalars, field.2.Everywhere Signal.KeepsPhase)
    ∧ ∀ field ∈ effect.vectors, field.2.KeepsPhases

theorem ofSection_toSection [Numeric.Lawful α] {effect : Effect α} (h : effect.Reachable)
    (hphases : effect.KeepsPhases) (path : String) :
    ofSection effect.toSection path
      = (⟨effect.scalars, effect.vectors.map fun field => (field.1, field.2.collapsed), 0⟩, []) := by
  obtain ⟨⟨-, hscalars⟩, ⟨-, hvectors⟩⟩ := h.coherent
  have hsame : (effect.scalars.map fun field => (field.1, field.2.rebuilt id)) = effect.scalars :=
    Entries.map_eq_self fun field hmem =>
      Signal.rebuilt_eq_self (hscalars field hmem) (hphases.1 field hmem)
        ((hscalars field hmem).mono fun part _ => Signal.isArranged_id part)
  have hcollapsed : ∀ field ∈ effect.vectors, field.2.rebuilt id = field.2.collapsed :=
    fun field hmem => VectorSignal.rebuilt_eq_collapsed (hvectors field hmem)
      (hphases.2 field hmem)
      ((hvectors field hmem).mono (fun _ _ => trivial) fun part _ => Signal.isArranged_id part)
  have hread := ofSection_page keeps_id (orders_id _) Signal.arranges_id h.coherent path
  rw [id, rebuilt, id, hsame] at hread
  rw [hread, List.map_congr_left fun field hmem => by rw [hcollapsed field hmem]]

/-- A reachable vector signal that is written under a key is read back without an issue, and it
    comes back collapsed: with the same value now and after every tick, from the same draws. A
    reachable effect that is written is read back without an issue, with the same names in the same
    order, its signals as they are and its vector signals collapsed, at tick zero. -/
theorem written_read_back :
    (∀ {signal : VectorSignal Float}, signal.Reachable → signal.KeepsPhases →
      ∀ key path : String,
        VectorSignal.read (signal.write [] key) key path none = .ok signal.collapsed
          ∧ signal.collapsed.value = signal.value
          ∧ ∀ {σ : Type} [RandomSource σ Float] (ticks : Nat) (source : σ),
            (signal.collapsed.samples ticks source).1.map VectorSignal.value
                = (signal.samples ticks source).1.map VectorSignal.value
              ∧ (signal.collapsed.samples ticks source).2 = (signal.samples ticks source).2)
      ∧ ∀ {effect : Effect Float}, effect.Reachable → effect.KeepsPhases → ∀ path : String,
        ofSection effect.toSection path
          = (⟨effect.scalars, effect.vectors.map fun field => (field.1, field.2.collapsed), 0⟩,
            []) := by
  refine ⟨fun {signal} h hphases key path => ⟨?_, signal.collapsed_value, ?_⟩,
    fun h hphases path => ofSection_toSection h hphases path⟩
  · have hvalue : (signal.write [] key).get? key = some signal.toValue := if_pos rfl
    have hreads := VectorSignal.reads_toValue h.coherent hphases
    exact VectorSignal.read_of_holdsAt ⟨_, hvalue, hreads⟩ path none
  · intro σ _ ticks source
    rw [VectorSignal.samples_collapsed h.coherent, List.map_map]
    refine ⟨List.map_congr_left fun later _ => ?_, rfl⟩
    exact later.collapsed_value

/-- A direction put together from three constants. -/
def direction : VectorSignal Float :=
  VectorSignal.components (.constant 1.0) (.constant 2.0) (.constant 3.0)

/-- The direction drawn out by a ramp, one tick after the start. -/
def reachLater : VectorSignal Float :=
  .scaled direction Signal.rampLater ⟨0.25, 0.5, 0.75⟩

theorem reachLater_reachable : reachLater.Reachable := by
  have hstart : (VectorSignal.scale direction Signal.ramp).Reachable :=
    .scale (.components (.constant _) (.constant _) (.constant _)) Signal.ramp_reachable
  have hvalue : Vec3.scale ⟨1.0, 2.0, 3.0⟩ 0.25 = (⟨0.25, 0.5, 0.75⟩ : Vec3 Float) := by
    decide +kernel
  have hlater : ((VectorSignal.scale direction Signal.ramp).refresh
      (fun _ => 0.5 : Draws Float)).1 = reachLater := by
    show VectorSignal.scale direction (Signal.ramp.refresh (fun _ => 0.5 : Draws Float)).1 = _
    rw [Signal.refresh_ramp]
    show VectorSignal.scaled direction Signal.rampLater (Vec3.scale ⟨1.0, 2.0, 3.0⟩ 0.25) = _
    rw [hvalue, reachLater]
  rw [← hlater]
  exact hstart.refreshed _

theorem reachLater_keepsPhases : reachLater.KeepsPhases := by
  have hphase : startPhase (0.25 : Float) 1.0 = 0.25 := by decide +kernel
  refine .scaled trivial (.assembled trivial ?_ ?_ ?_) (.periodic hphase ?_ ?_ ?_)
  all_goals exact .constant trivial

/-- An effect with a field of each kind. -/
def reaching : Effect Float :=
  ((ofSection [] "").1.insertScalar "size" Signal.swingLater).insertVector "offset" reachLater

theorem reaching_reachable : reaching.Reachable := by
  have hloaded : Reachable (ofSection ([] : Section Float) "").1 :=
    .loaded "" fun _ _ habsent => nomatch habsent
  exact (hloaded.insertScalar "size" Signal.swingLater_reachable).insertVector "offset"
    reachLater_reachable

theorem reaching_keepsPhases : reaching.KeepsPhases :=
  ⟨List.forall_mem_singleton.2 Signal.swingLater_keepsPhase,
    List.forall_mem_singleton.2 reachLater_keepsPhases⟩

theorem reaching_read_back :
    (reachLater.Reachable ∧ reachLater.KeepsPhases ∧ reaching.Reachable ∧ reaching.KeepsPhases)
      ∧ VectorSignal.read (reachLater.write [] "offset") "offset" "" none = .ok reachLater.collapsed
      ∧ ofSection reaching.toSection ""
          = (⟨[("size", Signal.swingLater)], [("offset", reachLater.collapsed)], 0⟩, []) :=
  ⟨⟨reachLater_reachable, reachLater_keepsPhases, reaching_reachable, reaching_keepsPhases⟩,
    (written_read_back.1 reachLater_reachable reachLater_keepsPhases "offset" "").1,
    written_read_back.2 reaching_reachable reaching_keepsPhases ""⟩

end Modulation.Effect

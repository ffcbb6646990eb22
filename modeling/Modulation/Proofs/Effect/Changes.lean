import Modulation.Proofs.Effect.Draws
import Modulation.Proofs.Effect.Loading
import Modulation.Proofs.Effect.Resumption

set_option autoImplicit false

/-! # Changes of an effect

After it is loaded, an effect is changed by inserts and refreshes, in any order. Each of its two
tables has its own part in them: the inserts into it, and all refreshes (`Edit`). What becomes of a
table is settled by its part alone. Its names stand in the order in which they were first mentioned,
and under each stands the item that was entered last, refreshed as often as the effect since then
(`Outcome`).

The tables draw from one source, the signals first. So the signals do not see the vector signals at
all, and the vector signals see of the signals only that they are given other numbers (`Alike`).
`outcome_of_changes` says so for both tables and for what is written of them. -/

namespace Modulation.Effect

open Modulation.Config

variable {α β σ : Type}

/-! ## Edits of one table -/

/-- What is done to a table: an item is entered under a name, or all fields are refreshed. -/
inductive Edit (β σ : Type) where
  | enter (name : String) (item : β)
  | refresh (source : σ)

/-- The names under which items are entered, in order. -/
def enteredNames : List (Edit β σ) → List String
  | [] => []
  | .enter name _ :: rest => name :: enteredNames rest
  | .refresh _ :: rest => enteredNames rest

/-- The sources that the refreshes are given, in order. -/
def refreshSources : List (Edit β σ) → List σ
  | [] => []
  | .enter _ _ :: rest => refreshSources rest
  | .refresh source :: rest => source :: refreshSources rest

section Table

variable [RandomSource σ α]

/-- An item is refreshed once from each of some sources, after others may have drawn from it. -/
inductive Refreshed (step : β → StateM σ β) : List σ → β → β → Prop where
  | nil (item : β) : Refreshed step [] item item
  | cons {source : σ} {sources : List σ} {item later : β} (drawn : Nat)
      (h : Refreshed step sources (step item (sourceAfter drawn source)).1 later) :
      Refreshed step (source :: sources) item later

/-- Fields are edited in turn. From the source of a refresh others may have drawn before. -/
inductive Edited (step : β → StateM σ β) : List (Edit β σ) → Entries β → Entries β → Prop where
  | nil (fields : Entries β) : Edited step [] fields fields
  | enter {name : String} {item : β} {edits : List (Edit β σ)} {fields later : Entries β}
      (h : Edited step edits (fields.set name item) later) :
      Edited step (.enter name item :: edits) fields later
  | refresh {source : σ} {edits : List (Edit β σ)} {fields later : Entries β} (drawn : Nat)
      (h : Edited step edits (refreshEach step fields (sourceAfter drawn source)).1 later) :
      Edited step (.refresh source :: edits) fields later

/-- The fields after an edit, if nothing else draws from the source of a refresh. -/
def edit (step : β → StateM σ β) (fields : Entries β) : Edit β σ → Entries β
  | .enter name item => fields.set name item
  | .refresh source => (refreshEach step fields source).1

theorem edited_foldl (step : β → StateM σ β) (edits : List (Edit β σ)) (fields : Entries β) :
    Edited step edits fields (edits.foldl (edit step) fields) := by
  induction edits generalizing fields with
  | nil => exact .nil fields
  | cons edit rest ih =>
    cases edit with
    | enter name item => exact .enter (ih _)
    | refresh source => exact .refresh 0 (ih _)

theorem Edited.of_append {step : β → StateM σ β} {earlier later : List (Edit β σ)}
    {fields last : Entries β} (h : Edited step (earlier ++ later) fields last) :
    ∃ between, Edited step earlier fields between ∧ Edited step later between last := by
  induction earlier generalizing fields with
  | nil => exact ⟨fields, .nil fields, h⟩
  | cons edit rest ih =>
    cases h with
    | enter h =>
      obtain ⟨between, hrest, hlater⟩ := ih h
      exact ⟨between, .enter hrest, hlater⟩
    | refresh drawn h =>
      obtain ⟨between, hrest, hlater⟩ := ih h
      exact ⟨between, .refresh drawn hrest, hlater⟩

theorem Edited.distinct {step : β → StateM σ β} {edits : List (Edit β σ)}
    {fields later : Entries β} (h : Edited step edits fields later) (hfields : fields.Distinct) :
    later.Distinct := by
  induction h with
  | nil => exact hfields
  | @enter name item _ _ _ _ ih => exact ih (hfields.set name item)
  | refresh _ _ ih =>
    refine ih ?_
    unfold Entries.Distinct
    rw [keys_refreshEach]
    exact hfields

theorem Edited.eraseDups_keys {step : β → StateM σ β} {edits : List (Edit β σ)}
    {fields later : Entries β} (h : Edited step edits fields later) :
    later.keys.eraseDups = (fields.keys ++ enteredNames edits).eraseDups := by
  induction h with
  | nil => rw [enteredNames, List.append_nil]
  | enter _ ih => rw [ih, Entries.eraseDups_keys_set, enteredNames]
  | refresh _ _ ih => rw [ih, keys_refreshEach, enteredNames]

/-! ## The field of a name -/

variable {count : β → Nat} {step : (σ : Type) → [RandomSource σ α] → β → StateM σ β}

theorem get?_refreshEach (h : Steady count step) {fields : Entries β} {name : String} {item : β}
    (hitem : fields.get? name = some item) (source : σ) :
    ∃ drawn, (refreshEach (step σ) fields source).1.get? name
      = some (step σ item (sourceAfter drawn source)).1 := by
  induction fields generalizing source with
  | nil => cases hitem
  | cons field rest ih =>
    obtain ⟨first, value⟩ := field
    show ∃ drawn, Entries.get? ((first, (step σ value source).1)
      :: (refreshEach (step σ) rest (step σ value source).2).1) name = _
    rw [Entries.get?_cons] at hitem ⊢
    by_cases hname : first = name
    · rw [if_pos hname] at hitem ⊢
      cases hitem
      exact ⟨0, rfl⟩
    · rw [if_neg hname] at hitem ⊢
      -- The fields before this one have drawn, and `drawn` counts their numbers too.
      obtain ⟨drawn, hrest⟩ := ih hitem (step σ value source).2
      rw [(h.takes value).source, ← sourceAfter_add] at hrest
      rw [(h.takes value).source]
      exact ⟨_, hrest⟩

/-- As long as nothing is entered under its name, a field is refreshed and nothing else. -/
theorem Edited.get? (h : Steady count step) {edits : List (Edit β σ)} {fields later : Entries β}
    (hedited : Edited (step σ) edits fields later) {name : String}
    (hname : name ∉ enteredNames edits) {item : β} (hitem : fields.get? name = some item) :
    ∃ field, later.get? name = some field
      ∧ Refreshed (step σ) (refreshSources edits) item field := by
  induction hedited generalizing item with
  | nil fields => exact ⟨item, hitem, .nil item⟩
  | enter _ ih =>
    obtain ⟨hother, hrest⟩ := not_or.1 (mt List.mem_cons.2 hname)
    refine ih hrest ?_
    rw [Entries.get?_set, if_neg (Ne.symm hother), hitem]
  | @refresh source _ _ _ drawn _ ih =>
    obtain ⟨more, hnext⟩ := get?_refreshEach h hitem (sourceAfter drawn source)
    rw [← sourceAfter_add] at hnext
    obtain ⟨field, hfield, hrefreshed⟩ := ih hname hnext
    exact ⟨field, hfield, .cons _ hrefreshed⟩

/-! ## Two tables with the same edits -/

/-- Fields have the same names in the same order, and are the same where they draw no numbers. -/
def Alike (count : β → Nat) : Entries β → Entries β → Prop :=
  List.Forall₂ fun field other =>
    field.1 = other.1 ∧ count field.2 = count other.2 ∧ (count field.2 = 0 → field.2 = other.2)

theorem alike_refl (count : β → Nat) (fields : Entries β) : Alike count fields fields :=
  List.forall₂_same.2 fun _ _ => ⟨rfl, rfl, fun _ => rfl⟩

theorem Alike.set {fields others : Entries β} (h : Alike count fields others) (name : String)
    (item : β) : Alike count (fields.set name item) (others.set name item) := by
  induction h with
  | nil => exact alike_refl count _
  | @cons field other _ _ hfirst hrest ih =>
    obtain ⟨hname, hcount, hsame⟩ := hfirst
    rw [Entries.set, Entries.set, ← hname]
    split
    · exact .cons ⟨rfl, rfl, fun _ => rfl⟩ hrest
    · exact .cons ⟨rfl, hcount, hsame⟩ ih

theorem Alike.refreshEach (h : Steady count step) {fields others : Entries β}
    (halike : Alike count fields others) (source otherSource : σ) :
    Alike count (refreshEach (step σ) fields source).1
      (refreshEach (step σ) others otherSource).1 := by
  induction halike generalizing source otherSource with
  | nil => exact .nil
  | @cons field other _ _ hfirst _ ih =>
    obtain ⟨hname, hcount, hsame⟩ := hfirst
    refine .cons ⟨hname, ?_, fun hnone => ?_⟩ (ih _ _)
    · rw [h.keeps, h.keeps, hcount]
    -- What draws no numbers is the same after a refresh from any source.
    · rw [h.keeps] at hnone
      rw [← hsame hnone]
      exact (h.takes field.2).value fun k hk => by omega

theorem Edited.alike (h : Steady count step) {edits : List (Edit β σ)}
    {fields others later otherLater : Entries β} (hedited : Edited (step σ) edits fields later)
    (hother : Edited (step σ) edits others otherLater) (halike : Alike count fields others) :
    Alike count later otherLater := by
  induction hedited generalizing others with
  | nil =>
    cases hother
    exact halike
  | enter _ ih =>
    cases hother with
    | enter hother => exact ih hother (halike.set _ _)
  | refresh _ _ ih =>
    cases hother with
    | refresh _ hother => exact ih hother (halike.refreshEach h _ _)

/-! ## What edits come to -/

/-- What edits make of the fields `start` of a table: `fields`, in which `find` looks a name up. -/
structure Outcome (step : β → StateM σ β) (edits : List (Edit β σ)) (start fields : Entries β)
    (find : String → Option β) : Prop where
  distinct : fields.Distinct
  names : fields.keys = (start.keys ++ enteredNames edits).eraseDups
  entered : ∀ {earlier later name item}, edits = earlier ++ .enter name item :: later →
    name ∉ enteredNames later →
      ∃ field, find name = some field ∧ Refreshed step (refreshSources later) item field
  kept : ∀ {name item}, name ∉ enteredNames edits → start.get? name = some item →
    ∃ field, find name = some field ∧ Refreshed step (refreshSources edits) item field
  absent : ∀ {name}, name ∉ enteredNames edits → start.get? name = none → find name = none

theorem Edited.outcome (h : Steady count step) {edits : List (Edit β σ)}
    {start fields : Entries β} (hedited : Edited (step σ) edits start fields)
    (hstart : start.Distinct) : Outcome (step σ) edits start fields fields.get? where
  distinct := hedited.distinct hstart
  names := by
    rw [← hedited.eraseDups_keys, Entries.eraseDups_eq_self (hedited.distinct hstart)]
  entered := by
    rintro earlier later name item rfl hname
    obtain ⟨between, -, hlater⟩ := hedited.of_append
    cases hlater with
    | enter hlater => exact hlater.get? h hname (by rw [Entries.get?_set, if_pos rfl])
  kept hname hitem := hedited.get? h hname hitem
  absent {name} hname hnone := by
    rw [Entries.get?_eq_none_iff] at hnone ⊢
    intro hmem
    have hmentioned : name ∈ (start.keys ++ enteredNames edits).eraseDups := by
      rw [← hedited.eraseDups_keys]
      exact List.mem_eraseDups.2 hmem
    rcases List.mem_append.1 (List.mem_eraseDups.1 hmentioned) with h | h
    · exact hnone h
    · exact hname h

end Table

/-! ## Entering one field -/

/-- Entering an item takes the place of the field of that name, or comes after all others. -/
structure Entered (name : String) (item : β) (fields later : Entries β) : Prop where
  replaces : ∀ {old}, fields.get? name = some old → ∃ before after,
    fields = before ++ (name, old) :: after ∧ later = before ++ (name, item) :: after
  appends : fields.get? name = none → later = fields ++ [(name, item)]

theorem entered_set (name : String) (item : β) (fields : Entries β) :
    Entered name item fields (fields.set name item) where
  replaces hold := by
    obtain ⟨before, after, hfields, hset⟩ := Entries.exists_place_of_get? hold
    exact ⟨before, after, hfields, hset item⟩
  appends hnone := Entries.set_eq_append ((Entries.get?_eq_none_iff _ _).1 hnone) item

theorem Entered.length_eq {name : String} {item : β} {fields later : Entries β}
    (h : Entered name item fields later) :
    later.length = fields.length + if (fields.get? name).isSome then 0 else 1 := by
  cases hfield : fields.get? name with
  | none => simp [h.appends hfield]
  | some old =>
    obtain ⟨before, after, hfields, hlater⟩ := h.replaces hfield
    simp [hfields, hlater]

/-! ## Changes of an effect -/

/-- What is done to an effect: a signal or a vector signal is inserted, or the effect is refreshed
    with a source. -/
inductive Change (α σ : Type) where
  | insertScalar (name : String) (signal : Signal α)
  | insertVector (name : String) (signal : VectorSignal α)
  | refresh (source : σ)

/-- What a change does to the signals. -/
def Change.onScalars? : Change α σ → Option (Edit (Signal α) σ)
  | insertScalar name signal => some (.enter name signal)
  | insertVector _ _ => none
  | refresh source => some (.refresh source)

/-- What a change does to the vector signals. -/
def Change.onVectors? : Change α σ → Option (Edit (VectorSignal α) σ)
  | insertScalar _ _ => none
  | insertVector name signal => some (.enter name signal)
  | refresh source => some (.refresh source)

/-- The edits of the signals among changes. -/
def scalarEdits (changes : List (Change α σ)) : List (Edit (Signal α) σ) :=
  changes.filterMap Change.onScalars?

/-- The edits of the vector signals among changes. -/
def vectorEdits (changes : List (Change α σ)) : List (Edit (VectorSignal α) σ) :=
  changes.filterMap Change.onVectors?

section Effect

variable [Numeric α] [RandomSource σ α]

/-- The effect after a change. -/
def change (effect : Effect α) : Change α σ → Effect α
  | .insertScalar name signal => effect.insertScalar name signal
  | .insertVector name signal => effect.insertVector name signal
  | .refresh source => (effect.refresh source).1

/-- The effect after changes, one after the other. -/
def changed (effect : Effect α) (changes : List (Change α σ)) : Effect α :=
  changes.foldl change effect

/-- The signals after changes are those after their own edits, from which nothing else draws. -/
theorem scalars_changed (effect : Effect α) (changes : List (Change α σ)) :
    (effect.changed changes).scalars
      = (scalarEdits changes).foldl (edit Signal.refresh) effect.scalars := by
  induction changes generalizing effect with
  | nil => rfl
  | cons change rest ih =>
    cases change with
    | insertScalar name signal => exact ih (effect.insertScalar name signal)
    | insertVector name signal => exact ih (effect.insertVector name signal)
    | refresh source =>
      show (changed (effect.refresh source).1 rest).scalars = _
      rw [ih, scalars_refresh]
      rfl

theorem edited_scalars (effect : Effect α) (changes : List (Change α σ)) :
    Edited Signal.refresh (scalarEdits changes) effect.scalars
      (effect.changed changes).scalars := by
  rw [scalars_changed]
  exact edited_foldl Signal.refresh _ _

/-- The vector signals after changes are those after their own edits. -/
theorem edited_vectors (effect : Effect α) (changes : List (Change α σ)) :
    Edited VectorSignal.refresh (vectorEdits changes) effect.vectors
      (effect.changed changes).vectors := by
  induction changes generalizing effect with
  | nil => exact .nil _
  | cons change rest ih =>
    cases change with
    | insertScalar name signal => exact ih (effect.insertScalar name signal)
    | insertVector name signal => exact .enter (ih (effect.insertVector name signal))
    | refresh source =>
      refine .refresh (fieldsCount Signal.randomCount effect.scalars) ?_
      rw [← vectors_refresh]
      exact ih _

end Effect

/-! ## What is written -/

/-- Named values as they stand under a key; without fields there is nothing under it. -/
def written (toValue : β → Value α) (key : String) (fields : Entries β) : Section α :=
  if fields.isEmpty then []
  else [(key, .table (fields.map fun field => (field.1, toValue field.2)))]

theorem toSection_eq_written {effect : Effect α} (hscalars : effect.scalars.Distinct)
    (hvectors : effect.vectors.Distinct) :
    effect.toSection = written Signal.toValue scalarsKey effect.scalars
      ++ written VectorSignal.toValue vectorsKey effect.vectors := by
  have hkeys : scalarsKey ≠ vectorsKey := by decide
  rw [toSection, writeTable_eq hvectors, writeTable_eq hscalars]
  cases hs : effect.scalars.isEmpty <;> cases hv : effect.vectors.isEmpty
  all_goals simp [written, hs, hv, Section.setSection, Entries.set, hkeys]

/-! ## All together -/

section Outcomes

variable [Numeric α] [RandomSource σ α] {root : Section α}

theorem loaded_distinct (hroot : TablesDistinct root) (path : String) :
    (ofSection root path).1.scalars.Distinct ∧ (ofSection root path).1.vectors.Distinct :=
  (Reachable.loaded path hroot).fields.imp And.left And.left

/-- A loaded effect after any inserts and refreshes: in both tables the names are different and stand
    in the order of their first mention, and under each is the item entered last, or else loaded,
    refreshed as often as the effect was since. One more insert replaces the field of its name
    where it stands or adds one at the end, and leaves the other table alone. The signals depend on
    nothing but their own edits, the vector signals depend on other edits only by the numbers they
    draw. Written, the effect has both tables with their names in order, except an empty one. -/
theorem outcome_of_changes (hroot : TablesDistinct root) (path : String)
    (changes : List (Change α σ)) :
    let loaded := (ofSection root path).1
    let effect := loaded.changed changes
    Outcome Signal.refresh (scalarEdits changes) loaded.scalars effect.scalars effect.scalar?
      ∧ Outcome VectorSignal.refresh (vectorEdits changes) loaded.vectors effect.vectors
          effect.vector?
      ∧ (∀ name signal,
          Entered name signal effect.scalars (effect.insertScalar name signal).scalars
            ∧ (effect.insertScalar name signal).vectors = effect.vectors
            ∧ (effect.insertScalar name signal).size
              = effect.size + if (effect.scalar? name).isSome then 0 else 1)
      ∧ (∀ name signal,
          Entered name signal effect.vectors (effect.insertVector name signal).vectors
            ∧ (effect.insertVector name signal).scalars = effect.scalars
            ∧ (effect.insertVector name signal).size
              = effect.size + if (effect.vector? name).isSome then 0 else 1)
      ∧ (∀ others : List (Change α σ),
          (scalarEdits others = scalarEdits changes →
            (loaded.changed others).scalars = effect.scalars)
          ∧ (vectorEdits others = vectorEdits changes →
            Alike VectorSignal.randomCount (loaded.changed others).vectors effect.vectors))
      ∧ effect.toSection = written Signal.toValue scalarsKey effect.scalars
          ++ written VectorSignal.toValue vectorsKey effect.vectors := by
  intro loaded effect
  obtain ⟨hscalars, hvectors⟩ := loaded_distinct hroot path
  have hscalarOutcome := (edited_scalars loaded changes).outcome Signal.steady_refresh hscalars
  have hvectorOutcome :=
    (edited_vectors loaded changes).outcome VectorSignal.steady_refresh hvectors
  refine ⟨hscalarOutcome, hvectorOutcome, fun name signal => ?_, fun name signal => ?_,
    fun others => ⟨fun hsame => ?_, fun hsame => ?_⟩,
    toSection_eq_written hscalarOutcome.distinct hvectorOutcome.distinct⟩
  · have hentered := entered_set name signal effect.scalars
    refine ⟨hentered, rfl, ?_⟩
    show (effect.scalars.set name signal).length + effect.vectors.length = _
    rw [hentered.length_eq, Nat.add_right_comm]
    rfl
  · have hentered := entered_set name signal effect.vectors
    refine ⟨hentered, rfl, ?_⟩
    show effect.scalars.length + (effect.vectors.set name signal).length = _
    rw [hentered.length_eq, ← Nat.add_assoc]
    rfl
  · rw [scalars_changed, hsame, ← scalars_changed]
  · have hothers := edited_vectors loaded others
    rw [hsame] at hothers
    exact hothers.alike VectorSignal.steady_refresh (edited_vectors loaded changes)
      (alike_refl _ _)

end Outcomes

/-- A configuration with two signals and a vector signal. -/
def glowing : Section Float :=
  [("scalars", .table [("size", .float 1.0), ("glow", .float 2.0)]),
    ("vectors", .table [("offset", .list [.float 0.0, .float 1.0, .float 0.0])])]

/-- A signal is exchanged and another one added, with refreshes in between. -/
def growth : List (Change Float (Draws Float)) :=
  [.insertScalar "size" Signal.ramp, .refresh eighths, .insertVector "shake" jitter,
    .insertScalar "noise" (Signal.random (.constant 0.0) (.constant 1.0)), .refresh eighths]

theorem glowing_distinct : TablesDistinct glowing := by
  intro key table htable
  have hmem := Entries.mem_of_get? htable
  simp only [glowing, List.mem_cons, Prod.mk.injEq, List.not_mem_nil, or_false] at hmem
  rcases hmem with ⟨-, htable⟩ | ⟨-, htable⟩ <;> cases htable <;> simp [Entries.Distinct, Entries.keys]

theorem glowing_outcome :
    TablesDistinct glowing
      ∧ ((ofSection glowing "").1.changed growth).scalars.keys = ["size", "glow", "noise"]
      ∧ ((ofSection glowing "").1.changed growth).vectors.keys = ["offset", "shake"]
      ∧ ∃ field, ((ofSection glowing "").1.changed growth).scalar? "size" = some field
          ∧ Refreshed Signal.refresh [eighths, eighths] Signal.ramp field := by
  obtain ⟨hscalars, hvectors, -⟩ := outcome_of_changes glowing_distinct "" growth
  have hedits : scalarEdits growth = [] ++ .enter "size" Signal.ramp :: [.refresh eighths,
      .enter "noise" (Signal.random (.constant 0.0) (.constant 1.0)), .refresh eighths] := rfl
  exact ⟨glowing_distinct, hscalars.names.trans rfl, hvectors.names.trans rfl,
    hscalars.entered hedits (by decide)⟩

end Modulation.Effect

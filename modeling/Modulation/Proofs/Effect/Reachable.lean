import Modulation.Effect.Text
import Modulation.Proofs.VectorSignal.Reachable

set_option autoImplicit false

/-! # Reachable effects

An effect is reachable when it is loaded, and then changed by inserts of reachable signals and by
refreshes, in any order. No table of a configuration mentions a name twice; a reachable effect
therefore has different names for its signals and for its vector signals, and all of them are
reachable (`Reachable.fields`) and coherent. -/

namespace Modulation.Effect

open Modulation.Config

variable {α β : Type}

/-! ## Fields -/

/-- The names of fields are different, and `P` holds of every field. -/
def Fields (P : β → Prop) (fields : Entries β) : Prop :=
  fields.Distinct ∧ ∀ field ∈ fields, P field.2

theorem Fields.set {P : β → Prop} {fields : Entries β} (h : Fields P fields) (name : String)
    {field : β} (hfield : P field) : Fields P (fields.set name field) :=
  ⟨h.1.set name field, Entries.forall_mem_set h.2 name hfield⟩

theorem Fields.of_keys_eq {P : β → Prop} {fields others : Entries β} (h : Fields P fields)
    (hkeys : others.keys = fields.keys) (hothers : ∀ field ∈ others, P field.2) :
    Fields P others := by
  refine ⟨?_, hothers⟩
  unfold Entries.Distinct
  rw [hkeys]
  exact h.1

theorem Fields.mono {P Q : β → Prop} {fields : Entries β} (h : Fields P fields)
    (hPQ : ∀ field, P field → Q field) : Fields Q fields :=
  ⟨h.1, fun field hmem => hPQ _ (h.2 field hmem)⟩

theorem fields_nil (P : β → Prop) : Fields P [] :=
  ⟨List.nodup_nil, fun _ hnone => absurd hnone List.not_mem_nil⟩

/-! ## Loading -/

section Loading

variable {read : Value α → Reader β}

theorem readFields_cons (path name : String) (value : Value α) (rest : List (String × Value α)) :
    readFields read path ((name, value) :: rest)
      = (match (read value (joinPath path name)).result with
          | .ok field => (name, field) :: (readFields read path rest).1
          | .error _ => (readFields read path rest).1,
        (read value (joinPath path name)).issues ++ (readFields read path rest).2) := by
  rw [readFields]
  cases (read value (joinPath path name)).result <;> rfl

theorem readFields_keys_sublist (path : String) (entries : List (String × Value α)) :
    List.Sublist (Entries.keys (readFields read path entries).1) (Entries.keys entries) := by
  induction entries with
  | nil => exact .refl _
  | cons entry rest ih =>
    obtain ⟨name, value⟩ := entry
    rw [readFields_cons]
    cases (read value (joinPath path name)).result with
    | ok field => exact ih.cons_cons name
    -- A value that cannot be read leaves its name out.
    | error fault => exact ih.cons name

/-- A field that is loaded is what reading a value under its name gives. -/
theorem mem_readFields {path : String} {entries : List (String × Value α)} {field : String × β}
    (h : field ∈ (readFields read path entries).1) :
    ∃ value, (read value (joinPath path field.1)).result = .ok field.2 := by
  induction entries with
  | nil => exact absurd h List.not_mem_nil
  | cons entry rest ih =>
    obtain ⟨name, value⟩ := entry
    rw [readFields_cons] at h
    cases hresult : (read value (joinPath path name)).result with
    | ok read =>
      rw [hresult] at h
      rcases List.mem_cons.1 h with rfl | hrest
      · exact ⟨value, hresult⟩
      · exact ih hrest
    | error fault =>
      rw [hresult] at h
      exact ih h

theorem fields_readTable [Numeric α] {P : β → Prop} {root : Section α}
    (hroot : ∀ key table, root.get? key = some (.table table) → Entries.Distinct table)
    (hread : ∀ value path name field,
      (read value (joinPath path name)).result = .ok field → P field) (key path : String) :
    Fields P (readTable read root key path).1 := by
  unfold readTable
  split
  · exact fields_nil P
  · next table htable =>
    refine ⟨(readFields_keys_sublist _ _).nodup (hroot key table htable), fun field hfield => ?_⟩
    obtain ⟨value, hresult⟩ := mem_readFields hfield
    exact hread _ _ _ _ hresult
  · exact fields_nil P

end Loading

/-! ## Refreshing -/

section Refreshing

variable {σ : Type} {step : β → StateM σ β}

/-- The fields keep their names and their order. -/
theorem keys_refreshEach (step : β → StateM σ β) (fields : Entries β) (source : σ) :
    (refreshEach step fields source).1.keys = fields.keys := by
  induction fields generalizing source with
  | nil => rfl
  | cons field rest ih => exact congrArg (field.1 :: ·) (ih _)

/-- What a step keeps of one field is kept of all fields. -/
theorem Fields.refreshEach {P : β → Prop} {fields : Entries β} (h : Fields P fields)
    (hstep : ∀ field, P field → ∀ source : σ, P (step field source).1) (source : σ) :
    Fields P (refreshEach step fields source).1 := by
  refine h.of_keys_eq (keys_refreshEach step fields source) ?_
  obtain ⟨-, hfields⟩ := h
  induction fields generalizing source with
  | nil => exact fun _ hnone => absurd hnone List.not_mem_nil
  | cons field rest ih =>
    obtain ⟨hfield, hrest⟩ := List.forall_mem_cons.1 hfields
    exact List.forall_mem_cons.2 ⟨hstep field.2 hfield source, ih _ hrest⟩

end Refreshing

/-! ## Reachable effects -/

variable [Numeric α]

/-- The effects that a program can come to hold. -/
inductive Reachable : Effect α → Prop where
  | loaded {root : Section α} (path : String)
      (hroot : ∀ key table, root.get? key = some (.table table) → Entries.Distinct table) :
      Reachable (ofSection root path).1
  | insertScalar {effect : Effect α} {signal : Signal α} (name : String) (h : Reachable effect)
      (hsignal : signal.Reachable) : Reachable (effect.insertScalar name signal)
  | insertVector {effect : Effect α} {signal : VectorSignal α} (name : String)
      (h : Reachable effect) (hsignal : signal.Reachable) :
      Reachable (effect.insertVector name signal)
  | refreshed {σ : Type} [RandomSource σ α] {effect : Effect α} (source : σ)
      (h : Reachable effect) : Reachable (refresh effect source).1

/-- The fields of a reachable effect have different names and are reachable. -/
theorem Reachable.fields {effect : Effect α} (h : effect.Reachable) :
    Fields Signal.Reachable effect.scalars ∧ Fields VectorSignal.Reachable effect.vectors := by
  induction h with
  | loaded path hroot =>
    refine ⟨fields_readTable hroot ?_ _ _, fields_readTable hroot ?_ _ _⟩
    · intro value path name signal hresult
      have hread : Signal.read [(name, value)] name path none
          = Signal.ofValue value (joinPath path name) := by
        simp [Signal.read, Entries.get?_cons]
      exact .read (hread ▸ hresult)
    · intro value path name signal hresult
      have hread : VectorSignal.read [(name, value)] name path none
          = VectorSignal.ofValue value (joinPath path name) := by
        simp [VectorSignal.read, Entries.get?_cons]
      exact .read (hread ▸ hresult)
  | insertScalar name _ hsignal ih => exact ⟨ih.1.set name hsignal, ih.2⟩
  | insertVector name _ hsignal ih => exact ⟨ih.1, ih.2.set name hsignal⟩
  | refreshed source _ ih =>
    exact ⟨ih.1.refreshEach (fun _ hfield => hfield.refreshed) source,
      ih.2.refreshEach (fun _ hfield => hfield.refreshed) _⟩

/-- The fields of an effect have different names and are coherent. -/
def Coherent (effect : Effect α) : Prop :=
  Fields Signal.Coherent effect.scalars ∧ Fields VectorSignal.Coherent effect.vectors

theorem Reachable.coherent [Numeric.Lawful α] {effect : Effect α} (h : effect.Reachable) :
    effect.Coherent :=
  ⟨h.fields.1.mono fun _ => Signal.Reachable.coherent,
    h.fields.2.mono fun _ => VectorSignal.Reachable.coherent⟩

end Modulation.Effect

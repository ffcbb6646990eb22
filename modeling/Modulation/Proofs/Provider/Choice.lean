import Modulation.Provider.Choice

set_option autoImplicit false

/-! # Tags and counts of arguments

What a provider section chooses does not depend on what stands under its keys, so that the choice
among offers is the choice among the values that make them (`chooseTag_map`). -/

namespace Modulation

open Modulation.Config

variable {α β γ κ : Type}

/-! ## The tags of kinds -/

theorem sameTag_iff (a b : String) :
    sameTag a b = true ↔ a.toList.map Char.toLower = b.toList.map Char.toLower := by
  simp [sameTag]

theorem sameTag_self (tag : String) : sameTag tag tag = true :=
  (sameTag_iff tag tag).2 rfl

/-- A search among all kinds finds the one with the tag, if no two of them have the same tag. -/
theorem find?_tag_eq_some_iff {all : List κ} {tagOf : κ → String} (hall : ∀ kind, kind ∈ all)
    (hdistinct : ∀ kind ∈ all, ∀ other ∈ all,
      sameTag (tagOf kind) (tagOf other) = true → kind = other) (tag : String) (kind : κ) :
    (all.find? fun kind => sameTag (tagOf kind) tag) = some kind
      ↔ sameTag (tagOf kind) tag = true := by
  constructor
  · intro h
    simpa using List.find?_some h
  · intro h
    have hsome : (all.find? fun kind => sameTag (tagOf kind) tag).isSome = true :=
      List.find?_isSome.2 ⟨kind, hall kind, h⟩
    obtain ⟨found, hfound⟩ := Option.isSome_iff_exists.1 hsome
    have htag : sameTag (tagOf found) tag = true := by
      simpa using List.find?_some hfound
    -- What is found has the tag too, and so it is the same kind.
    rw [sameTag_iff] at h htag
    have hsame : sameTag (tagOf found) (tagOf kind) = true := by
      rw [sameTag_iff, htag, h]
    rw [hfound, hdistinct found (hall found) kind (hall kind) hsame]

/-! ## Choosing a tag -/

/-- The entries of a section whose keys are tags, with their kinds. -/
def taggedEntries (ofTag? : String → Option κ) (entries : Entries β) : List (κ × String × β) :=
  entries.filterMap fun (key, value) => (ofTag? key).map fun kind => (kind, key, value)

theorem taggedEntries_map (ofTag? : String → Option κ) (f : β → γ) (entries : Entries β) :
    taggedEntries ofTag? (entries.map fun entry => (entry.1, f entry.2))
      = (taggedEntries ofTag? entries).map fun (kind, key, value) => (kind, key, f value) := by
  induction entries with
  | nil => rfl
  | cons entry rest ih =>
    obtain ⟨key, value⟩ := entry
    simp only [taggedEntries, List.map_cons, List.filterMap_cons] at ih ⊢
    cases ofTag? key <;> simp [ih]

theorem chooseTag_eq (ofTag? : String → Option κ) (entries : Entries β) :
    chooseTag ofTag? entries
      = match taggedEntries ofTag? entries with
        | [chosen] => .ok chosen
        | _ :: _ :: _ => .error .severalProviders
        | [] =>
          match entries with
          | [(key, _)] => .error (.unknownProvider key)
          | _ => .error .noProvider := rfl

theorem chooseTag_map (ofTag? : String → Option κ) (f : β → γ) (entries : Entries β) :
    chooseTag ofTag? (entries.map fun entry => (entry.1, f entry.2))
      = (chooseTag ofTag? entries).map fun (kind, key, value) => (kind, key, f value) := by
  rw [chooseTag_eq, chooseTag_eq, taggedEntries_map]
  -- Which case applies depends on the number of tags and on the number of entries alone.
  generalize taggedEntries ofTag? entries = tagged
  match tagged, entries with
  | [_], _ => rfl
  | _ :: _ :: _, _ => rfl
  | [], [] => rfl
  | [], [_] => rfl
  | [], _ :: _ :: _ => rfl

/-- A section chooses the one entry whose key is a tag. -/
theorem chooseTag_eq_ok_iff_tagged {ofTag? : String → Option κ} {entries : Entries β}
    {chosen : κ × String × β} :
    chooseTag ofTag? entries = .ok chosen ↔ taggedEntries ofTag? entries = [chosen] := by
  rw [chooseTag_eq]
  generalize taggedEntries ofTag? entries = tagged
  match tagged, entries with
  | [_], _ => simp
  | _ :: _ :: _, _ => simp
  | [], [] => simp
  | [], [_] => simp
  | [], _ :: _ :: _ => simp

/-- The entry that a section chooses is one of its entries, and its key is the tag of the kind. -/
theorem mem_of_chooseTag {ofTag? : String → Option κ} {entries : Entries β} {kind : κ}
    {tag : String} {value : β} (h : chooseTag ofTag? entries = .ok (kind, tag, value)) :
    (tag, value) ∈ entries ∧ ofTag? tag = some kind := by
  have hmem : (kind, tag, value) ∈ taggedEntries ofTag? entries := by
    simp [chooseTag_eq_ok_iff_tagged.1 h]
  obtain ⟨⟨key, held⟩, hentry, hkind⟩ := List.mem_filterMap.1 hmem
  obtain ⟨found, hfound, heq⟩ := Option.map_eq_some_iff.1 hkind
  cases heq
  exact ⟨hentry, hfound⟩

/-- A section with a tag as its only key chooses it. -/
theorem chooseTag_singleton {ofTag? : String → Option κ} {kind : κ} {tag : String}
    (h : ofTag? tag = some kind) (value : β) :
    chooseTag ofTag? [(tag, value)] = .ok (kind, tag, value) := by
  simp [chooseTag, h]

/-! ## Numbers of arguments -/

/-- A check passes on the arguments as they are, if there are as many as admitted. -/
theorem Arity.check_eq_ok_iff {arity : Arity} {tag path : String} {arguments checked : List β} :
    arity.check tag path arguments = .ok checked
      ↔ arity.Admits arguments.length ∧ checked = arguments := by
  rw [← Arity.fault?_eq_none_iff]
  unfold Arity.check
  cases arity.fault? arguments.length with
  | none => exact ⟨fun h => ⟨rfl, (Except.ok.inj h).symm⟩, fun h => congrArg Except.ok h.2.symm⟩
  | some rule => exact ⟨fun h => (nomatch h), fun h => (nomatch h.1)⟩

/-- What is built from checked arguments is built from the arguments as they are. -/
theorem Arity.check_map_eq_ok_iff {arity : Arity} {tag path : String} {arguments : List β}
    {f : List β → γ} {built : γ} :
    (arity.check tag path arguments).map f = .ok built
      ↔ arity.Admits arguments.length ∧ built = f arguments := by
  cases hcheck : arity.check tag path arguments with
  | ok checked =>
    obtain ⟨hadmits, rfl⟩ := Arity.check_eq_ok_iff.1 hcheck
    simp [Except.map, hadmits, eq_comm]
  | error fault =>
    have hrefused : ¬ arity.Admits arguments.length := by
      intro hadmits
      have hok : arity.check tag path arguments = .ok arguments :=
        Arity.check_eq_ok_iff.2 ⟨hadmits, rfl⟩
      simp [hok] at hcheck
    simp [Except.map, hrefused]

end Modulation

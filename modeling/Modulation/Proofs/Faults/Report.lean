import Mathlib.Data.List.Nodup
import Modulation.Provider.Choice

set_option autoImplicit false

/-! # One issue for each place

A place is given by the keys that lead to it. `ReportsOnce issues wrong` says that the issues that
are reported below a path are those of the places where something is wrong, one issue for each. It
is put together as readings are: places that lie apart may be reported one after the other
(`ReportsOnce.append`), and what is reported below a key lies below that key
(`ReportsOnce.under`). -/

namespace Modulation

open Modulation.Config

/-! ## The issues of readings -/

namespace Reading

variable {β γ : Type}

@[simp] theorem issues_ok (value : β) : (ok value).issues = [] := rfl

@[simp] theorem issues_fail (cause : Cause) (path : String) :
    (fail cause path : Reading β).issues = [Fault.issue ⟨cause, path⟩] := rfl

@[simp] theorem issues_map (f : β → γ) (reading : Reading β) :
    (reading.map f).issues = reading.issues := rfl

@[simp] theorem issues_pair (first : Reading β) (second : Reading γ) :
    (first.pair second).issues = first.issues ++ second.issues := rfl

theorem issues_all (readings : List (Reading β)) :
    (all readings).issues = readings.flatMap Reading.issues := by
  induction readings with
  | nil => rfl
  | cons first rest ih => rw [all, issues_map, issues_pair, ih, List.flatMap_cons]

end Reading

/-! ## Places -/

/-- The issue of a cause at a place below a path. -/
def issueAt (path : String) (spot : List String × Cause) : Issue :=
  Fault.issue ⟨spot.2, spot.1.foldl joinPath path⟩

/-- The issues reported below a path are those of the places where something is wrong: each of these
    places has one cause, and one issue. -/
def ReportsOnce (issues : String → IssueLog) (wrong : List String → Cause → Prop) : Prop :=
  ∃ spots : List (List String × Cause), (spots.map Prod.fst).Nodup
    ∧ (∀ place cause, (place, cause) ∈ spots ↔ wrong place cause)
    ∧ ∀ path, issues path = spots.map (issueAt path)

section

variable {issues others : String → IssueLog} {wrong otherWrong : List String → Cause → Prop}

theorem ReportsOnce.congr (h : ReportsOnce issues wrong)
    (hissues : ∀ path, others path = issues path)
    (hwrong : ∀ place cause, otherWrong place cause ↔ wrong place cause) :
    ReportsOnce others otherWrong := by
  obtain ⟨spots, hnodup, hspots, hreported⟩ := h
  refine ⟨spots, hnodup, fun place cause => ?_, fun path => ?_⟩
  · rw [hspots, hwrong]
  · rw [hissues, hreported]

theorem reportsOnce_nothing (hissues : ∀ path, issues path = [])
    (hwrong : ∀ place cause, ¬ wrong place cause) : ReportsOnce issues wrong :=
  ⟨[], List.nodup_nil,
    fun place cause => iff_of_false List.not_mem_nil (hwrong place cause), hissues⟩

/-- One thing is wrong, at one place. -/
theorem reportsOnce_single (place : List String) (cause : Cause)
    (hissues : ∀ path, issues path = [issueAt path (place, cause)])
    (hwrong : ∀ found other, wrong found other ↔ found = place ∧ other = cause) :
    ReportsOnce issues wrong := by
  refine ⟨[(place, cause)], List.nodup_singleton _, fun found other => ?_, hissues⟩
  rw [hwrong, List.mem_singleton, Prod.mk.injEq]

/-- One thing may be wrong, at one place. -/
theorem reportsOnce_ite {faulty : Prop} [Decidable faulty] (place : List String) (cause : Cause)
    (hissues : ∀ path, issues path = if faulty then [issueAt path (place, cause)] else [])
    (hwrong : ∀ found other, wrong found other ↔ faulty ∧ found = place ∧ other = cause) :
    ReportsOnce issues wrong := by
  by_cases h : faulty
  · refine reportsOnce_single place cause (fun path => ?_) fun found other => ?_
    · rw [hissues, if_pos h]
    · rw [hwrong, and_iff_right h]
  · refine reportsOnce_nothing (fun path => ?_) fun found other hfound => ?_
    · rw [hissues, if_neg h]
    · exact h ((hwrong found other).1 hfound).1

theorem ReportsOnce.under (h : ReportsOnce issues wrong) (key : String) :
    ReportsOnce (fun path => issues (joinPath path key))
      fun place cause => ∃ rest, place = key :: rest ∧ wrong rest cause := by
  obtain ⟨spots, hnodup, hspots, hreported⟩ := h
  refine ⟨spots.map fun spot => (key :: spot.1, spot.2), ?_, fun place cause => ?_, fun path => ?_⟩
  · have hplaces : (spots.map fun spot => (key :: spot.1, spot.2)).map Prod.fst
        = (spots.map Prod.fst).map (key :: ·) := by
      rw [List.map_map, List.map_map]
      rfl
    rw [hplaces]
    exact hnodup.map List.cons_injective
  · constructor
    · intro hmem
      obtain ⟨⟨rest, found⟩, hspot, heq⟩ := List.mem_map.1 hmem
      cases heq
      exact ⟨rest, rfl, (hspots rest found).1 hspot⟩
    · rintro ⟨rest, rfl, hrest⟩
      exact List.mem_map.2 ⟨(rest, cause), (hspots rest cause).2 hrest, rfl⟩
  · show issues (joinPath path key) = _
    rw [hreported, List.map_map]
    rfl

/-- Places that lie apart are reported one after the other. -/
theorem ReportsOnce.append (h : ReportsOnce issues wrong) (hothers : ReportsOnce others otherWrong)
    (hapart : ∀ place cause other, wrong place cause → ¬ otherWrong place other) :
    ReportsOnce (fun path => issues path ++ others path)
      fun place cause => wrong place cause ∨ otherWrong place cause := by
  obtain ⟨spots, hnodup, hspots, hreported⟩ := h
  obtain ⟨otherSpots, hotherNodup, hotherSpots, hotherReported⟩ := hothers
  refine ⟨spots ++ otherSpots, ?_, fun place cause => ?_, fun path => ?_⟩
  · rw [List.map_append]
    refine hnodup.append hotherNodup fun place hplace hother => ?_
    obtain ⟨⟨_, cause⟩, hspot, rfl⟩ := List.mem_map.1 hplace
    obtain ⟨⟨place, other⟩, hotherSpot, rfl⟩ := List.mem_map.1 hother
    exact hapart place cause other ((hspots _ _).1 hspot) ((hotherSpots _ _).1 hotherSpot)
  · rw [List.mem_append, hspots, hotherSpots]
  · show issues path ++ others path = _
    rw [hreported, hotherReported, List.map_append]

/-- What is reported of items that lie below different keys is reported one item after the other. -/
theorem reportsOnce_flatMap {ι : Type} {key : ι → String} {issues : ι → String → IssueLog}
    {wrong : ι → List String → Cause → Prop} {items : List ι} (hkeys : (items.map key).Nodup)
    (hbelow : ∀ item place cause, wrong item place cause → place.head? = some (key item))
    (h : ∀ item ∈ items, ReportsOnce (issues item) (wrong item)) :
    ReportsOnce (fun path => items.flatMap (issues · path))
      fun place cause => ∃ item ∈ items, wrong item place cause := by
  induction items with
  | nil => exact reportsOnce_nothing (fun _ => rfl) fun _ _ ⟨_, hnone, _⟩ => List.not_mem_nil hnone
  | cons item rest ih =>
    obtain ⟨hnew, hrest⟩ := List.nodup_cons.1 hkeys
    obtain ⟨hitem, hitems⟩ := List.forall_mem_cons.1 h
    refine (hitem.append (ih hrest hitems) ?_).congr (fun path => List.flatMap_cons) ?_
    · rintro place cause other hwrong ⟨another, hanother, hother⟩
      -- A place below two items would lie below one key twice.
      have hkey : key item = key another :=
        Option.some.inj ((hbelow _ _ _ hwrong).symm.trans (hbelow _ _ _ hother))
      exact hnew (hkey ▸ List.mem_map_of_mem hanother)
    · intro place cause
      simp only [List.mem_cons, exists_eq_or_imp]

theorem ReportsOnce.issues_eq_nil_iff (h : ReportsOnce issues wrong) (path : String) :
    issues path = [] ↔ ∀ place cause, ¬ wrong place cause := by
  obtain ⟨spots, -, hspots, hreported⟩ := h
  rw [hreported, List.map_eq_nil_iff, List.eq_nil_iff_forall_not_mem]
  simp only [Prod.forall, hspots]

end

end Modulation

import Mathlib.Data.List.Forall2
import Modulation.Config.Layout

set_option autoImplicit false

/-! # What a page keeps

Writing a section on a page and reading the page may change the order of the values in a table, at
every level, and changes nothing else. `Keeps page rows` says so of a way `page` to lay out values
and of the way `rows` to lay out tables that goes with it. The order of the page is such a way
(`keeps_arranged`), and so is leaving everything as it stands (`keeps_id`). -/

namespace Modulation.Config

variable {α β γ : Type}

/-! ## What stands in front -/

section Front

variable {p : β → Bool}

/-- The items that `p` picks in front of the others, and each of the two groups in its order. -/
def front (p : β → Bool) (items : List β) : List β :=
  items.filter p ++ items.filter fun item => !p item

/-- No item that `p` picks stands behind one that it does not pick. -/
def InFront (p : β → Bool) (items : List β) : Prop :=
  items.Pairwise fun earlier later => p later = true → p earlier = true

theorem front_perm (p : β → Bool) (items : List β) : (front p items).Perm items :=
  List.filter_append_perm p items

theorem inFront_front (p : β → Bool) (items : List β) : InFront p (front p items) := by
  refine List.pairwise_append.2 ⟨?_, ?_, ?_⟩
  · refine List.pairwise_of_forall_mem_list fun earlier hearlier _ _ _ => ?_
    exact (List.mem_filter.1 hearlier).2
  · refine List.pairwise_of_forall_mem_list fun _ _ later hlater hpicked => ?_
    have hother := (List.mem_filter.1 hlater).2
    rw [hpicked] at hother
    cases hother
  · intro earlier hearlier _ _ _
    exact (List.mem_filter.1 hearlier).2

theorem front_of_inFront {items : List β} (h : InFront p items) : front p items = items := by
  induction items with
  | nil => rfl
  | cons first rest ih =>
    obtain ⟨hfirst, hrest⟩ := List.pairwise_cons.1 h
    have hall := ih hrest
    unfold front at hall ⊢
    cases hpicked : p first with
    | true => simp [hpicked, hall]
    | false =>
      -- Behind a first item that is not picked there can be none that is.
      have hnone : rest.filter p = [] := by
        refine List.filter_eq_nil_iff.2 fun item hmem hitem => ?_
        rw [hfirst item hmem hitem] at hpicked
        cases hpicked
      rw [hnone, List.nil_append] at hall
      simp [hpicked, hnone, hall]

theorem front_eq_self_iff {items : List β} : front p items = items ↔ InFront p items := by
  refine ⟨fun h => ?_, front_of_inFront⟩
  rw [← h]
  exact inFront_front p items

theorem front_map (p : γ → Bool) (f : β → γ) (items : List β) :
    front p (items.map f) = (front (fun item => p (f item)) items).map f := by
  simp [front, List.filter_map, Function.comp_def]

/-- Items that correspond still do when those are in front that are picked on both sides. -/
theorem forall₂_front {R : β → γ → Prop} {q : γ → Bool} {items : List β} {others : List γ}
    (h : List.Forall₂ R items others) (hpick : ∀ item other, R item other → p item = q other) :
    List.Forall₂ R (front p items) (front q others) := by
  refine List.rel_append (List.rel_filter (fun item other hrel => ?_) h)
    (List.rel_filter (fun item other hrel => ?_) h)
  all_goals simp [hpick item other hrel]

end Front

/-! ## Ways to lay out a section -/

/-- A page keeps floats, keeps what stands in a table under its name, and keeps the order of a table
    whose values all have blocks of their own. -/
structure Keeps (page : Value α → Value α) (rows : Section α → Section α) : Prop where
  float : ∀ x, page (.float x) = .float x
  table : ∀ entries, page (.table entries) = .table (rows entries)
  perm : ∀ entries : Section α,
    (entries.map fun entry => (entry.1, page entry.2)).Perm (rows entries)
  branches : ∀ entries : Section α, (∀ entry ∈ entries, entry.2.isBranch = true) →
    rows entries = entries.map fun entry => (entry.1, page entry.2)

section Keeps

variable {page : Value α → Value α} {rows : Section α → Section α}

theorem Keeps.single (h : Keeps page rows) (key : String) (value : Value α) :
    rows [(key, value)] = [(key, page value)] :=
  (List.singleton_perm.1 (h.perm [(key, value)])).symm

theorem Keeps.get? (h : Keeps page rows) {entries : Section α} (distinct : entries.Distinct)
    (key : String) : (rows entries).get? key = (entries.get? key).map page := by
  -- Under different names, what is found does not depend on the order.
  have hmap : Entries.Distinct (entries.map fun entry => (entry.1, page entry.2)) := by
    unfold Entries.Distinct Entries.keys
    rw [List.map_map]
    exact distinct
  rw [Entries.get?_perm hmap (h.perm entries), Entries.get?_map]

end Keeps

theorem keeps_id : Keeps (id : Value α → Value α) id where
  float _ := rfl
  table _ := rfl
  perm entries := .of_eq (List.map_id' entries)
  branches entries _ := (List.map_id' entries).symm

/-! ## The order of a page -/

theorem arrangedEntries_eq_map (entries : List (String × Value α)) :
    arrangedEntries entries = entries.map fun entry => (entry.1, entry.2.arranged) := by
  induction entries with
  | nil => rfl
  | cons entry rest ih => rw [arrangedEntries, ih]; rfl

theorem arrangedItems_eq_map (items : List (Value α)) :
    arrangedItems items = items.map Value.arranged := by
  induction items with
  | nil => rfl
  | cons value rest ih => rw [arrangedItems, ih, List.map_cons]

/-- A section in the order of the page has its values in that order, those that stand on a line in
    front. -/
theorem arranged_eq_front (entries : Section α) :
    Section.arranged entries
      = front (fun entry => !entry.2.isBranch)
          (entries.map fun entry => (entry.1, entry.2.arranged)) := by
  rw [Section.arranged, arrangedEntries_eq_map, Section.leavesFirst, Section.leaves,
    Section.branches, front]
  simp

theorem arranged_perm (entries : Section α) :
    (entries.map fun entry => (entry.1, entry.2.arranged)).Perm (Section.arranged entries) := by
  rw [arranged_eq_front]
  exact (front_perm _ _).symm

theorem isTable_arranged (value : Value α) : value.arranged.isTable = value.isTable := by
  cases value with
  | list items =>
    unfold Value.arranged
    split <;> rfl
  | _ => rfl

/-- A value has blocks of its own in the order of the page just when it had them before. -/
theorem isBranch_arranged (value : Value α) : value.arranged.isBranch = value.isBranch := by
  cases value with
  | list items =>
    unfold Value.arranged
    split
    · simp [Value.isBranch, arrangedItems_eq_map, List.all_map, Function.comp_def, isTable_arranged]
    · rfl
  | _ => rfl

theorem keeps_arranged : Keeps (Value.arranged : Value α → Value α) Section.arranged where
  float _ := rfl
  table _ := rfl
  perm := arranged_perm
  branches entries h := by
    have hnone : InFront (fun entry => !entry.2.isBranch)
        (entries.map fun entry => (entry.1, entry.2.arranged)) := by
      refine List.pairwise_of_forall_mem_list fun _ _ later hlater hpicked => ?_
      obtain ⟨written, hmem, rfl⟩ := List.mem_map.1 hlater
      simp only [isBranch_arranged, h written hmem] at hpicked
      cases hpicked
    rw [arranged_eq_front, front_of_inFront hnone]

/-- The values of a table on a page: those that stand on a line, and then the branches. -/
theorem arranged_values (entries : Section α) :
    (Section.arranged entries).map Prod.snd
      = front (fun value => !value.isBranch) ((entries.map Prod.snd).map Value.arranged) := by
  have hfront := front_map (fun value : Value α => !value.isBranch) Prod.snd
    (entries.map fun entry => (entry.1, entry.2.arranged))
  rw [arranged_eq_front, ← hfront, List.map_map, List.map_map]
  rfl

end Modulation.Config

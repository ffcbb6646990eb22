import Modulation.Toml.Reader

set_option autoImplicit false

/-! # Configuration texts name nothing twice

A table under construction takes each name once, and a table that is opened late keeps the names it
has. No table of a finished text therefore mentions a name twice, at any depth (`proper_parse`).

`Yields P scan` says that whatever a scan reads has the property `P`. -/

namespace Modulation.Toml

open Modulation.Config

variable {β γ : Type}

/-! ## Tables under construction -/

/-- No table in a draft, however deep, mentions a name twice. -/
inductive Draft.Proper : Draft → Prop where
  | value {v : Value Float} (h : v.Proper) : Proper (.value v)
  | table {origin : Origin} {entries : List (String × Draft)} (distinct : Entries.Distinct entries)
      (h : ∀ entry ∈ entries, Proper entry.2) : Proper (.table origin entries)
  | tables {items : List (List (String × Draft))}
      (distinct : ∀ entries ∈ items, Entries.Distinct entries)
      (h : ∀ entries ∈ items, ∀ entry ∈ entries, Proper entry.2) : Proper (.tables items)

/-- A table of drafts mentions no name twice, and neither does any draft in it. -/
def ProperTable (entries : Entries Draft) : Prop :=
  entries.Distinct ∧ ∀ entry ∈ entries, entry.2.Proper

theorem ProperTable.set {entries : Entries Draft} (h : ProperTable entries) (key : String)
    {draft : Draft} (hdraft : draft.Proper) : ProperTable (entries.set key draft) :=
  ⟨h.1.set key draft, Entries.forall_mem_set h.2 key hdraft⟩

theorem ProperTable.erase {entries : Entries Draft} (h : ProperTable entries) (key : String) :
    ProperTable (entries.erase key) :=
  ⟨h.1.erase key, fun entry hentry => h.2 entry ((Entries.erase_sublist entries key).mem hentry)⟩

theorem properTable_nil : ProperTable [] :=
  ⟨List.nodup_nil, fun _ hnone => absurd hnone List.not_mem_nil⟩

theorem ProperTable.get? {entries : Entries Draft} (h : ProperTable entries) {key : String}
    {draft : Draft} (hdraft : entries.get? key = some draft) : draft.Proper :=
  h.2 _ (Entries.mem_of_get? hdraft)

theorem properTable_of_table {origin : Origin} {entries : List (String × Draft)}
    (h : (Draft.table origin entries).Proper) : ProperTable entries := by
  cases h with
  | table distinct h => exact ⟨distinct, h⟩

theorem proper_tables_iff (items : List (List (String × Draft))) :
    (Draft.tables items).Proper ↔ ∀ entries ∈ items, ProperTable entries := by
  constructor
  · intro h
    cases h with
    | tables distinct h => exact fun entries hmem => ⟨distinct entries hmem, h entries hmem⟩
  · exact fun h => .tables (fun entries hmem => (h entries hmem).1) fun entries hmem => (h entries hmem).2

namespace Draft

theorem toSection_eq_map (entries : List (String × Draft)) :
    toSection entries = entries.map fun entry => (entry.1, entry.2.toValue) := by
  induction entries with
  | nil => rfl
  | cons entry rest ih => rw [toSection, ih]; rfl

theorem toTables_eq_map (items : List (List (String × Draft))) :
    toTables items = items.map fun entries => .table (toSection entries) := by
  induction items with
  | nil => rfl
  | cons entries rest ih => rw [toTables, ih]; rfl

/-- Finishing a table keeps its names. -/
theorem proper_table_toSection {entries : Entries Draft} (distinct : entries.Distinct)
    (h : ∀ entry ∈ entries, entry.2.toValue.Proper) : (Value.table (toSection entries)).Proper := by
  rw [toSection_eq_map]
  refine .table ?_ ?_
  · unfold Entries.Distinct Entries.keys
    rw [List.map_map]
    exact distinct
  · intro entry hentry
    obtain ⟨draft, hdraft, rfl⟩ := List.mem_map.1 hentry
    exact h draft hdraft

theorem Proper.toValue {draft : Draft} (h : draft.Proper) : draft.toValue.Proper := by
  induction h with
  | value h => exact h
  | table distinct _ ih => exact proper_table_toSection distinct ih
  | @tables items distinct _ ih =>
    rw [Draft.toValue, toTables_eq_map]
    refine .list fun item hitem => ?_
    obtain ⟨entries, hentries, rfl⟩ := List.mem_map.1 hitem
    exact proper_table_toSection (distinct entries hentries) (ih entries hentries)

end Draft

theorem ProperTable.toSection {entries : Entries Draft} (h : ProperTable entries) :
    (Value.table (Draft.toSection entries)).Proper :=
  Draft.proper_table_toSection h.1 fun entry hentry => (h.2 entry hentry).toValue

/-- A change leads from proper tables to proper tables. -/
def KeepsProper (change : Draft.Change) : Prop :=
  ∀ origin entries changed, ProperTable entries → change origin entries = some changed →
    ProperTable changed

theorem properTable_within {byKey : Bool} {change : Draft.Change} (hchange : KeepsProper change) :
    ∀ (path : List String) (origin : Origin) (entries changed : Entries Draft),
      ProperTable entries → Draft.within byKey change origin path entries = some changed →
      ProperTable changed := by
  intro path
  induction path with
  | nil => exact hchange
  | cons key path ih =>
    intro origin entries changed hentries hwithin
    rw [Draft.within] at hwithin
    split at hwithin
    · obtain ⟨inner, hinner, rfl⟩ := Option.map_eq_some_iff.1 hwithin
      obtain ⟨hdistinct, hproper⟩ := ih _ _ _ properTable_nil hinner
      exact hentries.set key (.table hdistinct hproper)
    · cases hwithin
    · next inner hfound =>
      split at hwithin
      · cases hwithin
      · obtain ⟨later, hlater, rfl⟩ := Option.map_eq_some_iff.1 hwithin
        obtain ⟨hdistinct, hproper⟩ :=
          ih _ _ _ (properTable_of_table (hentries.get? hfound)) hlater
        exact hentries.set key (.table hdistinct hproper)
    · next items hfound =>
      have hitems := (proper_tables_iff items).1 (hentries.get? hfound)
      split at hwithin
      · cases hwithin
      · next last hlast =>
        obtain ⟨later, hlater, rfl⟩ := Option.map_eq_some_iff.1 hwithin
        -- Of several tables, the last one is changed and the others stay.
        refine hentries.set key ((proper_tables_iff _).2 fun item hitem => ?_)
        rcases List.mem_append.1 hitem with hkept | hnew
        · exact hitems item (List.dropLast_subset items hkept)
        · rw [List.mem_singleton.1 hnew]
          exact ih _ _ _ (hitems last (List.mem_of_getLast? hlast)) hlater

theorem properTable_assign {entries changed : Entries Draft} (hentries : ProperTable entries)
    {assignment : Draft.Assignment} (hvalue : assignment.value.Proper)
    (h : Draft.assign entries assignment = some changed) : ProperTable changed := by
  refine properTable_within (fun origin table result htable hresult => ?_) assignment.path .header
    entries changed hentries h
  split at hresult
  · cases hresult
  · cases hresult
    exact htable.set assignment.key (.value hvalue)

/-- All assignments of a list have proper values. -/
def ProperAssignments (assignments : List Draft.Assignment) : Prop :=
  ∀ assignment ∈ assignments, assignment.value.Proper

theorem properTable_assignAll {entries changed : Entries Draft} (hentries : ProperTable entries)
    {assignments : List Draft.Assignment} (hvalues : ProperAssignments assignments)
    (h : Draft.assignAll entries assignments = some changed) : ProperTable changed := by
  induction assignments generalizing entries with
  | nil =>
    cases h
    exact hentries
  | cons assignment rest ih =>
    obtain ⟨hvalue, hrest⟩ := List.forall_mem_cons.1 hvalues
    obtain ⟨next, hnext, hlater⟩ := Option.bind_eq_some_iff.1 h
    exact ih (properTable_assign hentries hvalue hnext) hrest hlater

theorem keepsProper_openTable (key : String) {assignments : List Draft.Assignment}
    (hvalues : ProperAssignments assignments) : KeepsProper (Draft.openTable key assignments) := by
  intro origin table changed htable h
  unfold Draft.openTable at h
  split at h
  · obtain ⟨inner, hinner, rfl⟩ := Option.map_eq_some_iff.1 h
    obtain ⟨hdistinct, hproper⟩ := properTable_assignAll properTable_nil hvalues hinner
    exact htable.set key (.table hdistinct hproper)
  · next inner hfound =>
    obtain ⟨later, hlater, rfl⟩ := Option.map_eq_some_iff.1 h
    obtain ⟨hdistinct, hproper⟩ :=
      properTable_assignAll (properTable_of_table (htable.get? hfound)) hvalues hlater
    exact (htable.erase key).set key (.table hdistinct hproper)
  · cases h

theorem keepsProper_addTable (key : String) {assignments : List Draft.Assignment}
    (hvalues : ProperAssignments assignments) : KeepsProper (Draft.addTable key assignments) := by
  intro origin table changed htable h
  unfold Draft.addTable at h
  split at h
  · obtain ⟨inner, hinner, rfl⟩ := Option.map_eq_some_iff.1 h
    have hitem := properTable_assignAll properTable_nil hvalues hinner
    exact htable.set key ((proper_tables_iff _).2 (List.forall_mem_singleton.2 hitem))
  · next items hfound =>
    have hitems := (proper_tables_iff items).1 (htable.get? hfound)
    obtain ⟨inner, hinner, rfl⟩ := Option.map_eq_some_iff.1 h
    have hitem := properTable_assignAll properTable_nil hvalues hinner
    refine htable.set key ((proper_tables_iff _).2 ?_)
    exact List.forall_mem_append.2 ⟨hitems, List.forall_mem_singleton.2 hitem⟩
  · cases h

/-! ## Values -/

/-- Whatever a scan reads has a property. -/
def Yields (P : β → Prop) (scan : Scan β) : Prop :=
  ∀ text x rest, scan text = some (x, rest) → P x

theorem yields_based? (base : Nat) : Yields Value.Proper (based? base) := by
  intro text value rest h
  simp only [based?, Option.bind_eq_bind, Option.bind_eq_some_iff] at h
  obtain ⟨⟨digits, later⟩, -, hvalue⟩ := h
  split at hvalue
  · cases hvalue
    exact .integer _
  · cases hvalue

theorem proper_float? {negative : Bool} {digits : List Char} {exponent : Int} {value : Value Float}
    (h : float? negative digits exponent = some value) : value.Proper := by
  simp only [float?] at h
  split at h
  · cases h
  · cases h
    exact .float _

theorem proper_decimal?_integer {negative : Bool} {digits rest later : List Char}
    {value : Value Float} (h : decimal?.integer negative digits rest = some (value, later)) :
    value.Proper := by
  simp only [decimal?.integer, Option.ite_none_right_eq_some] at h
  obtain ⟨-, heq⟩ := h
  cases heq
  exact .integer _

theorem yields_decimal? (negative : Bool) : Yields Value.Proper (decimal? negative) := by
  intro text value rest h
  simp only [decimal?, Option.bind_eq_bind, Option.bind_eq_some_iff] at h
  obtain ⟨⟨digits, later⟩, -, h⟩ := h
  dsimp only at h
  split at h
  · obtain ⟨⟨fraction, following⟩, -, h⟩ := Option.bind_eq_some_iff.1 h
    dsimp only at h
    -- The exponent may be missing, and a float stands here in either case.
    have hfloat : ∃ exponent, float? negative (digits ++ fraction) exponent = some value := by
      split at h
      · split at h
        · obtain ⟨exponent, -, h⟩ := Option.bind_eq_some_iff.1 h
          obtain ⟨x, hx, heq⟩ := Option.bind_eq_some_iff.1 h
          cases heq
          exact ⟨_, hx⟩
        · obtain ⟨exponent, -, h⟩ := Option.bind_eq_some_iff.1 h
          obtain ⟨x, hx, heq⟩ := Option.bind_eq_some_iff.1 h
          cases heq
          exact ⟨_, hx⟩
      · obtain ⟨exponent, -, h⟩ := Option.bind_eq_some_iff.1 h
        obtain ⟨x, hx, heq⟩ := Option.bind_eq_some_iff.1 h
        cases heq
        exact ⟨_, hx⟩
    obtain ⟨exponent, hx⟩ := hfloat
    exact proper_float? hx
  · split at h
    · obtain ⟨exponent, -, h⟩ := Option.bind_eq_some_iff.1 h
      obtain ⟨x, hx, heq⟩ := Option.bind_eq_some_iff.1 h
      cases heq
      exact proper_float? hx
    · exact proper_decimal?_integer h
  · exact proper_decimal?_integer h

theorem yields_number? : Yields Value.Proper number? := by
  intro text value rest h
  unfold number? at h
  split at h
  · exact yields_based? 16 _ _ _ h
  · exact yields_based? 8 _ _ _ h
  · exact yields_based? 2 _ _ _ h
  · dsimp only at h
    split at h
    · cases h
      exact .float _
    · cases h
      exact .float _
    · exact yields_decimal? _ _ _ _ h

theorem yields_simple? : Yields Value.Proper simple? := by
  intro text value rest h
  unfold simple? at h
  split at h
  · obtain ⟨_, -, heq⟩ := Option.map_eq_some_iff.1 h
    cases heq
    exact .text _
  · obtain ⟨_, -, heq⟩ := Option.map_eq_some_iff.1 h
    cases heq
    exact .text _
  · obtain ⟨_, -, heq⟩ := Option.map_eq_some_iff.1 h
    cases heq
    exact .boolean _
  · obtain ⟨_, -, heq⟩ := Option.map_eq_some_iff.1 h
    cases heq
    exact .boolean _
  · split at h
    · obtain ⟨_, -, heq⟩ := Option.map_eq_some_iff.1 h
      cases heq
      exact .datetime _
    · exact yields_number? _ _ _ h

section Nested

variable {value : Scan (Value Float)}

theorem yields_assignment? (hvalue : Yields Value.Proper value) :
    Yields (fun assignment => assignment.value.Proper) (assignment? value) := by
  intro text assignment rest h
  simp only [assignment?, Option.bind_eq_bind, Option.bind_eq_some_iff] at h
  obtain ⟨_, -, _, -, ⟨v, later⟩, hv, heq⟩ := h
  cases heq
  exact hvalue _ _ _ hv

theorem yields_listFrom (hvalue : Yields Value.Proper value) (fuel : Nat) :
    Yields (fun items => ∀ item ∈ items, item.Proper) (listFrom value fuel) := by
  induction fuel with
  | zero => exact fun _ _ _ h => nomatch h
  | succ fuel ih =>
    intro text items rest h
    rw [listFrom] at h
    split at h
    · cases h
      exact fun _ hnone => absurd hnone List.not_mem_nil
    · obtain ⟨⟨item, later⟩, hitem, h⟩ := Option.bind_eq_some_iff.1 h
      have hproper := hvalue _ _ _ hitem
      dsimp only at h
      split at h
      · cases h
        exact List.forall_mem_singleton.2 hproper
      · obtain ⟨⟨others, last⟩, hothers, heq⟩ := Option.bind_eq_some_iff.1 h
        cases heq
        exact List.forall_mem_cons.2 ⟨hproper, ih _ _ _ hothers⟩
      · cases h

theorem yields_assignmentsFrom (hvalue : Yields Value.Proper value) (fuel : Nat) :
    Yields ProperAssignments (assignmentsFrom value fuel) := by
  induction fuel with
  | zero => exact fun _ _ _ h => nomatch h
  | succ fuel ih =>
    intro text assignments rest h
    rw [assignmentsFrom] at h
    obtain ⟨⟨assignment, later⟩, hassignment, h⟩ := Option.bind_eq_some_iff.1 h
    have hproper := yields_assignment? hvalue _ _ _ hassignment
    dsimp only at h
    split at h
    · cases h
      exact List.forall_mem_singleton.2 hproper
    · obtain ⟨⟨others, last⟩, hothers, heq⟩ := Option.bind_eq_some_iff.1 h
      cases heq
      exact List.forall_mem_cons.2 ⟨hproper, ih _ _ _ hothers⟩
    · cases h

end Nested

theorem yields_value? (levels : Nat) : Yields Value.Proper (value? levels) := by
  induction levels with
  | zero =>
    intro text value rest h
    unfold value? at h
    split at h
    · cases h
    · cases h
    · next heq => exact absurd heq (Nat.succ_ne_zero _).symm
    · next heq => exact absurd heq (Nat.succ_ne_zero _).symm
    · exact yields_simple? _ _ _ h
  | succ levels ih =>
    intro text value rest h
    unfold value? at h
    split at h
    · next heq => exact absurd heq (Nat.succ_ne_zero _)
    · next heq => exact absurd heq (Nat.succ_ne_zero _)
    · next heq =>
      cases heq
      obtain ⟨⟨items, later⟩, hitems, heq⟩ := Option.bind_eq_some_iff.1 h
      cases heq
      exact .list (yields_listFrom ih _ _ _ _ hitems)
    · next heq =>
      cases heq
      split at h
      · cases h
        exact properTable_nil.toSection
      · obtain ⟨⟨assignments, later⟩, hassignments, h⟩ := Option.bind_eq_some_iff.1 h
        obtain ⟨entries, hentries, heq⟩ := Option.bind_eq_some_iff.1 h
        cases heq
        have hvalues := yields_assignmentsFrom ih _ _ _ _ hassignments
        exact (properTable_assignAll properTable_nil hvalues hentries).toSection
    · exact yields_simple? _ _ _ h

/-! ## Texts -/

/-- The assignments among statements have proper values. -/
def ProperStatements (statements : List Statement) : Prop :=
  ∀ assignment, .assignment assignment ∈ statements → assignment.value.Proper

theorem yields_header? : Yields (fun statement => ∀ a, statement ≠ .assignment a) header? := by
  intro text statement rest h
  unfold header? at h
  split at h
  all_goals
    obtain ⟨_, -, h⟩ := Option.bind_eq_some_iff.1 h
    obtain ⟨_, -, heq⟩ := Option.bind_eq_some_iff.1 h
    cases heq
    exact fun _ hassignment => nomatch hassignment

theorem yields_statement? :
    Yields (fun statement => ∀ a, statement = .assignment a → a.value.Proper) statement? := by
  intro text statement rest h
  unfold statement? at h
  split at h
  · exact fun a ha => absurd ha (yields_header? _ _ _ h a)
  · obtain ⟨⟨assignment, later⟩, hassignment, heq⟩ := Option.map_eq_some_iff.1 h
    cases heq
    intro a ha
    cases ha
    exact yields_assignment? (yields_value? _) _ _ _ hassignment

theorem properStatements_statements (fuel : Nat) :
    ∀ text found, statements fuel text = some found → ProperStatements found := by
  induction fuel with
  | zero => exact fun _ _ h => nomatch h
  | succ fuel ih =>
    intro text found h
    rw [statements] at h
    split at h
    · cases h
      exact fun _ hnone => absurd hnone List.not_mem_nil
    · obtain ⟨_, -, h⟩ := Option.bind_eq_some_iff.1 h
      exact ih _ _ h
    · exact ih _ _ h
    · obtain ⟨_, -, h⟩ := Option.bind_eq_some_iff.1 h
      exact ih _ _ h
    · obtain ⟨⟨statement, later⟩, hstatement, h⟩ := Option.bind_eq_some_iff.1 h
      obtain ⟨_, -, h⟩ := Option.bind_eq_some_iff.1 h
      obtain ⟨following, hfollowing, heq⟩ := Option.bind_eq_some_iff.1 h
      cases heq
      intro assignment hmem
      rcases List.mem_cons.1 hmem with hfirst | hrest
      · exact yields_statement? _ _ _ hstatement _ hfirst.symm
      · exact ih _ _ hfollowing _ hrest

/-- A block and what follows it are the statements, in order. -/
theorem block_append (found : List Statement) :
    (block found).1.map .assignment ++ (block found).2 = found := by
  induction found with
  | nil => rfl
  | cons statement rest ih =>
    cases statement with
    | assignment a => exact congrArg (Statement.assignment a :: ·) ih
    | tableHeader path key => rfl
    | itemHeader path key => rfl

theorem ProperStatements.block {found : List Statement} (h : ProperStatements found) :
    ProperAssignments (block found).1 ∧ ProperStatements (block found).2 := by
  rw [← block_append found] at h
  have hassignments : ProperAssignments (Toml.block found).1 := fun a ha =>
    h a (List.mem_append_left _ (List.mem_map_of_mem ha))
  have hfollowing : ProperStatements (Toml.block found).2 := fun a ha =>
    h a (List.mem_append_right _ ha)
  exact ⟨hassignments, hfollowing⟩

theorem properTable_addBlocks (fuel : Nat) :
    ∀ root found changed, ProperTable root → ProperStatements found →
      addBlocks fuel root found = some changed → ProperTable changed := by
  induction fuel with
  | zero => exact fun _ _ _ _ _ h => nomatch h
  | succ fuel ih =>
    intro root found changed hroot hfound h
    cases found with
    | nil =>
      cases h
      exact hroot
    | cons statement rest =>
      have hrest : ProperStatements rest := fun a ha => hfound a (List.mem_cons_of_mem _ ha)
      obtain ⟨hvalues, hfollowing⟩ := hrest.block
      cases statement with
      | assignment a => cases h
      | tableHeader path key =>
        obtain ⟨opened, hopened, h⟩ := Option.bind_eq_some_iff.1 h
        have hproper := properTable_within (keepsProper_openTable key hvalues) _ _ _ _ hroot hopened
        exact ih _ _ _ hproper hfollowing h
      | itemHeader path key =>
        obtain ⟨opened, hopened, h⟩ := Option.bind_eq_some_iff.1 h
        have hproper := properTable_within (keepsProper_addTable key hvalues) _ _ _ _ hroot hopened
        exact ih _ _ _ hproper hfollowing h

theorem proper_tables? {text : String} {root : Section Float} (h : tables? text = some root) :
    (Value.table root).Proper := by
  obtain ⟨found, hfound, h⟩ := Option.bind_eq_some_iff.1 h
  obtain ⟨hvalues, hfollowing⟩ := (properStatements_statements _ _ _ hfound).block
  obtain ⟨first, hfirst, h⟩ := Option.bind_eq_some_iff.1 h
  obtain ⟨last, hlast, heq⟩ := Option.bind_eq_some_iff.1 h
  cases heq
  have hproper := properTable_assignAll properTable_nil hvalues hfirst
  exact (properTable_addBlocks _ _ _ _ hproper hfollowing hlast).toSection

/-! ## Dates and times -/

/-- Replacing tables that stand for dates and times keeps the names of a table, and the values in
    it proper. -/
theorem entriesWithMoments?_keeps {entries changed : Section Float}
    (hvalues : ∀ entry ∈ entries, ∀ value, withMoments? entry.2 = some value → value.Proper)
    (h : entriesWithMoments? entries = some changed) :
    changed.keys = entries.keys ∧ ∀ entry ∈ changed, entry.2.Proper := by
  induction entries generalizing changed with
  | nil =>
    cases h
    exact ⟨rfl, fun _ hnone => absurd hnone List.not_mem_nil⟩
  | cons entry rest ih =>
    obtain ⟨hvalue, hrest⟩ := List.forall_mem_cons.1 hvalues
    obtain ⟨value, hchanged, h⟩ := Option.bind_eq_some_iff.1 h
    obtain ⟨later, hlater, heq⟩ := Option.bind_eq_some_iff.1 h
    cases heq
    obtain ⟨hkeys, hproper⟩ := ih hrest hlater
    exact ⟨congrArg (entry.1 :: ·) hkeys, List.forall_mem_cons.2 ⟨hvalue value hchanged, hproper⟩⟩

theorem itemsWithMoments?_keeps {items changed : List (Value Float)}
    (hvalues : ∀ item ∈ items, ∀ value, withMoments? item = some value → value.Proper)
    (h : itemsWithMoments? items = some changed) : ∀ item ∈ changed, item.Proper := by
  induction items generalizing changed with
  | nil =>
    cases h
    exact fun _ hnone => absurd hnone List.not_mem_nil
  | cons item rest ih =>
    obtain ⟨hvalue, hrest⟩ := List.forall_mem_cons.1 hvalues
    obtain ⟨value, hchanged, h⟩ := Option.bind_eq_some_iff.1 h
    obtain ⟨later, hlater, heq⟩ := Option.bind_eq_some_iff.1 h
    cases heq
    exact List.forall_mem_cons.2 ⟨hvalue value hchanged, ih hrest hlater⟩

theorem proper_table_entriesWithMoments? {entries changed : Section Float}
    (distinct : entries.Distinct)
    (hvalues : ∀ entry ∈ entries, ∀ value, withMoments? entry.2 = some value → value.Proper)
    (h : entriesWithMoments? entries = some changed) : (Value.table changed).Proper := by
  obtain ⟨hkeys, hproper⟩ := entriesWithMoments?_keeps hvalues h
  refine .table ?_ hproper
  unfold Entries.Distinct
  rw [hkeys]
  exact distinct

theorem proper_withMoments? {value : Value Float} (h : value.Proper) :
    ∀ changed, withMoments? value = some changed → changed.Proper := by
  induction h with
  | @list items _ ih =>
    intro changed hchanged
    obtain ⟨later, hlater, rfl⟩ := Option.map_eq_some_iff.1 hchanged
    exact .list (itemsWithMoments?_keeps ih hlater)
  | @table entries distinct _ ih =>
    intro changed hchanged
    rw [withMoments?] at hchanged
    split at hchanged
    · obtain ⟨moment, -, rfl⟩ := Option.map_eq_some_iff.1 hchanged
      exact .datetime moment
    · obtain ⟨later, hlater, rfl⟩ := Option.map_eq_some_iff.1 hchanged
      exact proper_table_entriesWithMoments? distinct ih hlater
  | text content => rintro _ ⟨⟩; exact .text content
  | integer n => rintro _ ⟨⟩; exact .integer n
  | float x => rintro _ ⟨⟩; exact .float x
  | boolean b => rintro _ ⟨⟩; exact .boolean b
  | datetime moment => rintro _ ⟨⟩; exact .datetime moment

/-- No table of a configuration text mentions a name twice. -/
theorem proper_parse {text : String} {root : Section Float} (h : parse text = some root) :
    (Value.table root).Proper := by
  obtain ⟨written, hwritten, h⟩ := Option.bind_eq_some_iff.1 h
  have hproper := proper_tables? hwritten
  exact proper_table_entriesWithMoments? hproper.distinct
    (fun entry hentry => proper_withMoments? (hproper.entries entry hentry)) h

end Modulation.Toml

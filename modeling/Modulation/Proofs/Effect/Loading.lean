import Mathlib.Data.List.Perm.Subperm
import Modulation.Proofs.Effect.Reachable

set_option autoImplicit false

/-! # Loading field by field

An effect is loaded by one pass over each of its tables. The same is said here one field at a time:
every name of a table has a reading of its own, and the effect has the fields of which the readings
succeed, with the issues of all of them in order (`loadOn_eq`).

Two configurations that differ in one field alone are therefore loaded the same but for that field
(`AgreeBut.loadSameBut`), and there are no issues exactly when every name has a field
(`issues_eq_nil_iff`). -/

namespace Modulation.Effect

open Modulation.Config

variable {α β : Type}

/-! ## Readings -/

/-- What is read of a field: by the section it stands in, its name and the path of the section. -/
abbrev FieldReader (α β : Type) := Section α → String → Reader β

/-- Every name of the table under a key, with its reading. What is no section has no names. -/
def tableReadings (readAt : FieldReader α β) (root : Section α) (key path : String) :
    Entries (Reading β) :=
  match root.get? key with
  | some (.table table) =>
    table.map fun entry => (entry.1, readAt table entry.1 (joinPath path key))
  | _ => []

/-- The fields of the readings that succeed, in order. -/
def readable (readings : Entries (Reading β)) : Entries β :=
  readings.filterMap fun entry => entry.2.result.toOption.map fun field => (entry.1, field)

/-- The issues of all readings, in order. -/
def issuesOf (readings : Entries (Reading β)) : IssueLog :=
  readings.flatMap fun entry => entry.2.issues

/-- The issues of a table itself: there is one if something stands in its place that is no
    section. -/
def tableIssues [Numeric α] (root : Section α) (key path : String) : IssueLog :=
  match root.get? key with
  | none | some (.table _) => []
  | some value => [Fault.issue ⟨.notSection key value.typeName, joinPath path key⟩]

/-- The readings of the signals of a configuration. -/
def scalarReadings [Numeric α] (root : Section α) (path : String) : Entries (Reading (Signal α)) :=
  tableReadings (fun table name path => Signal.read table name path none) root scalarsKey path

/-- The readings of the vector signals of a configuration. -/
def vectorReadings [Numeric α] (root : Section α) (path : String) :
    Entries (Reading (VectorSignal α)) :=
  tableReadings (fun table name path => VectorSignal.read table name path none) root vectorsKey path

/-- Loads an effect when there is a log already: the effect, and the log in which the issues are
    entered one after the other. -/
def loadOn [Numeric α] (root : Section α) (path : String) (log : IssueLog) : Effect α × IssueLog :=
  let (effect, issues) := ofSection root path
  (effect, issues.foldl (fun log issue => log.add issue.message issue.path) log)

/-- No table of a configuration mentions a name twice. -/
def TablesDistinct (root : Section α) : Prop :=
  ∀ key table, root.get? key = some (.table table) → Entries.Distinct table

theorem tablesDistinct_of_proper {root : Section α} (h : (Value.table root).Proper) :
    TablesDistinct root :=
  fun _ _ htable => (h.entries _ (Entries.mem_of_get? htable)).distinct

theorem readable_cons (name : String) (reading : Reading β) (rest : Entries (Reading β)) :
    readable ((name, reading) :: rest)
      = match reading.result with
        | .ok field => (name, field) :: readable rest
        | .error _ => readable rest := by
  rw [readable, List.filterMap_cons]
  cases reading.result <;> rfl

theorem mem_keys_of_mem_keys_readable {readings : Entries (Reading β)} {name : String}
    (h : name ∈ (readable readings).keys) : name ∈ readings.keys := by
  obtain ⟨field, hfield, rfl⟩ := List.mem_map.1 h
  obtain ⟨entry, hentry, hread⟩ := List.mem_filterMap.1 hfield
  obtain ⟨_, -, rfl⟩ := Option.map_eq_some_iff.1 hread
  exact List.mem_map_of_mem hentry

/-- The other fields are those of the other readings. -/
theorem erase_readable {readings : Entries (Reading β)} (distinct : readings.Distinct)
    (name : String) : (readable readings).erase name = readable (readings.erase name) := by
  induction readings with
  | nil => rfl
  | cons entry rest ih =>
    obtain ⟨key, reading⟩ := entry
    obtain ⟨hnew, hdistinct⟩ := List.nodup_cons.1 distinct
    have hrest := ih hdistinct
    rw [readable_cons]
    by_cases hkey : key = name
    · -- The name stands nowhere else, so that nothing is left to remove if its reading fails.
      subst hkey
      have hgone : (readable rest).erase key = readable rest :=
        Entries.erase_eq_self fun h => hnew (mem_keys_of_mem_keys_readable h)
      rw [Entries.erase, if_pos rfl]
      cases reading.result with
      | ok field => exact if_pos rfl
      | error fault => exact hgone
    · rw [Entries.erase, if_neg hkey, readable_cons]
      cases reading.result with
      | ok field =>
        show Entries.erase ((key, field) :: readable rest) name = _
        rw [Entries.erase, if_neg hkey, hrest]
      | error fault => exact hrest

/-! ## One pass and single readings -/

section Pass

variable {read : Value α → Reader β} {readAt : FieldReader α β} {root : Section α}

/-- A field is read from the value under its name. -/
def ReadsValues (readAt : FieldReader α β) (read : Value α → Reader β) : Prop :=
  ∀ (table : Section α) (name path : String) (value : Value α), table.get? name = some value →
    readAt table name path = read value (joinPath path name)

/-- Each name stands for one value, and its reading is that of the value. -/
theorem tableReadings_eq (hread : ReadsValues readAt read) (hroot : TablesDistinct root)
    {key : String} {table : Section α} (htable : root.get? key = some (.table table))
    (path : String) :
    tableReadings readAt root key path
      = table.map fun entry => (entry.1, read entry.2 (joinPath (joinPath path key) entry.1)) := by
  unfold tableReadings
  rw [htable]
  refine List.map_congr_left fun entry hentry => ?_
  have hvalue : table.get? entry.1 = some entry.2 :=
    (Entries.get?_eq_some_iff (hroot key table htable) _ _).2 hentry
  rw [hread table entry.1 _ entry.2 hvalue]

theorem readFields_eq (path : String) (entries : Section α) :
    readFields read path entries
      = (readable (entries.map fun entry => (entry.1, read entry.2 (joinPath path entry.1))),
        issuesOf (entries.map fun entry => (entry.1, read entry.2 (joinPath path entry.1)))) := by
  induction entries with
  | nil => rfl
  | cons entry rest ih =>
    obtain ⟨name, value⟩ := entry
    rw [readFields_cons, ih, List.map_cons, readable_cons]
    rfl

theorem readTable_eq [Numeric α] (hread : ReadsValues readAt read) (hroot : TablesDistinct root)
    (key path : String) :
    readTable read root key path
      = (readable (tableReadings readAt root key path),
        tableIssues root key path ++ issuesOf (tableReadings readAt root key path)) := by
  cases hvalue : root.get? key with
  | none => simp [readTable, tableReadings, tableIssues, readable, issuesOf, hvalue]
  | some value =>
    cases value with
    | table table =>
      rw [tableReadings_eq hread hroot hvalue]
      simp [readTable, tableIssues, hvalue, readFields_eq]
    | _ => simp [readTable, tableReadings, tableIssues, readable, issuesOf, hvalue]

theorem tableReadings_distinct (hroot : TablesDistinct root) (key path : String) :
    (tableReadings readAt root key path).Distinct := by
  unfold tableReadings
  split
  · next table htable =>
    have hkeys : Entries.keys (table.map fun entry =>
        (entry.1, readAt table entry.1 (joinPath path key))) = Entries.keys table := by
      simp [Entries.keys]
    unfold Entries.Distinct
    rw [hkeys]
    exact hroot key table htable
  · exact List.nodup_nil

end Pass

theorem scalars_readValues [Numeric α] :
    ReadsValues (fun (table : Section α) name path => Signal.read table name path none)
      Signal.ofValue := by
  intro table name path value hvalue
  simp only [Signal.read, hvalue]

theorem vectors_readValues [Numeric α] :
    ReadsValues (fun (table : Section α) name path => VectorSignal.read table name path none)
      VectorSignal.ofValue := by
  intro table name path value hvalue
  simp only [VectorSignal.read, hvalue]

/-- A configuration is loaded by reading each of its fields by itself. -/
theorem ofSection_eq [Numeric α] {root : Section α} (hroot : TablesDistinct root) (path : String) :
    ofSection root path
      = (⟨readable (scalarReadings root path), readable (vectorReadings root path), 0⟩,
        tableIssues root scalarsKey path ++ issuesOf (scalarReadings root path)
          ++ (tableIssues root vectorsKey path ++ issuesOf (vectorReadings root path))) := by
  unfold ofSection
  rw [readTable_eq scalars_readValues hroot, readTable_eq vectors_readValues hroot]
  rfl

theorem loadOn_eq [Numeric α] {root : Section α} (hroot : TablesDistinct root) (path : String)
    (log : IssueLog) :
    loadOn root path log
      = (⟨readable (scalarReadings root path), readable (vectorReadings root path), 0⟩,
        log ++ (tableIssues root scalarsKey path ++ issuesOf (scalarReadings root path)
          ++ (tableIssues root vectorsKey path ++ issuesOf (vectorReadings root path)))) := by
  rw [loadOn, ofSection_eq hroot]
  exact congrArg (Prod.mk _) (Reading.foldl_add _ _)

/-! ## Configurations that differ in one field -/

/-- The table under a key; an absent one is empty. -/
def tableAt (root : Section α) (key : String) : Option (Section α) :=
  match root.get? key with
  | none => some []
  | some value => value.section?

/-- Two configurations differ at most in the field of one name in the table under a key: it may be
    there in one of them only, or hold another value, or stand in another place. -/
structure AgreeBut (key name : String) (root other : Section α) : Prop where
  tables : ∃ table otherTable, tableAt root key = some table ∧ tableAt other key = some otherTable
    ∧ table.erase name = otherTable.erase name
  elsewhere : ∀ otherKey, otherKey ≠ key → root.get? otherKey = other.get? otherKey

/-- What belongs to the table under `tableKey`, without the field of a name in the table under
    `key`. -/
def others (key name tableKey : String) (entries : Entries β) : Entries β :=
  if tableKey = key then entries.erase name else entries

/-- Loading two configurations gives the same but for the field of a name in the table under a key:
    all other fields have the same readings, and so the same issues, and are the same in the effects,
    in the same order; and so are the issues of the tables themselves. -/
structure LoadSameBut [Numeric α] (key name path : String) (root other : Section α) : Prop where
  readScalars : others key name scalarsKey (scalarReadings root path)
    = others key name scalarsKey (scalarReadings other path)
  readVectors : others key name vectorsKey (vectorReadings root path)
    = others key name vectorsKey (vectorReadings other path)
  scalars : others key name scalarsKey (ofSection root path).1.scalars
    = others key name scalarsKey (ofSection other path).1.scalars
  vectors : others key name vectorsKey (ofSection root path).1.vectors
    = others key name vectorsKey (ofSection other path).1.vectors
  tables : ∀ tableKey, tableIssues root tableKey path = tableIssues other tableKey path

theorem tableAt_setSection (root : Section α) (key : String) (table : Section α) :
    tableAt (root.setSection key table) key = some table := by
  simp [tableAt, Section.setSection, Entries.get?_set, Value.section?]

/-- Entering a field, new or in the place of the old one, leaves the others as they are. -/
theorem agreeBut_set {root : Section α} {key : String} {table : Section α}
    (htable : tableAt root key = some table) (name : String) (value : Value α) :
    AgreeBut key name root (root.setSection key (table.set name value)) where
  tables := ⟨table, table.set name value, htable, tableAt_setSection root key _,
    (Entries.erase_set table name value).symm⟩
  elsewhere otherKey hother := by
    rw [Section.setSection, Entries.get?_set, if_neg hother.symm]

section TwoRuns

variable {read : Value α → Reader β} {readAt : FieldReader α β} {root other : Section α}
  {key name : String}

theorem tableReadings_of_tableAt (hread : ReadsValues readAt read) (hroot : TablesDistinct root)
    {table : Section α} (htable : tableAt root key = some table) (path : String) :
    tableReadings readAt root key path
      = table.map fun entry => (entry.1, read entry.2 (joinPath (joinPath path key) entry.1)) := by
  unfold tableAt at htable
  cases hvalue : root.get? key with
  | none =>
    rw [hvalue] at htable
    cases htable
    simp [tableReadings, hvalue]
  | some value =>
    rw [hvalue] at htable
    cases value with
    | table entries =>
      cases htable
      exact tableReadings_eq hread hroot hvalue path
    | _ => cases htable

/-- The readings of the other fields of the table are the same. -/
theorem AgreeBut.readings_erase (h : AgreeBut key name root other)
    (hread : ReadsValues readAt read) (hroot : TablesDistinct root) (hother : TablesDistinct other)
    (path : String) :
    (tableReadings readAt root key path).erase name
      = (tableReadings readAt other key path).erase name := by
  obtain ⟨table, otherTable, htable, hotherTable, herase⟩ := h.tables
  have hcommute := fun entries => Entries.erase_map
    (fun fieldName value => read value (joinPath (joinPath path key) fieldName)) entries name
  rw [tableReadings_of_tableAt hread hroot htable, tableReadings_of_tableAt hread hother hotherTable,
    hcommute, hcommute, herase]

/-- The readings of another table are the same. -/
theorem AgreeBut.readings_elsewhere (h : AgreeBut key name root other) {tableKey : String}
    (hkey : tableKey ≠ key) (path : String) :
    tableReadings readAt root tableKey path = tableReadings readAt other tableKey path := by
  unfold tableReadings
  rw [h.elsewhere tableKey hkey]

theorem AgreeBut.readings (h : AgreeBut key name root other) (hread : ReadsValues readAt read)
    (hroot : TablesDistinct root) (hother : TablesDistinct other) (tableKey path : String) :
    others key name tableKey (tableReadings readAt root tableKey path)
      = others key name tableKey (tableReadings readAt other tableKey path) := by
  unfold others
  split
  · next hkey =>
    subst hkey
    exact h.readings_erase hread hroot hother path
  · next hkey => exact h.readings_elsewhere hkey path

theorem others_readable {readings : Entries (Reading β)} (distinct : readings.Distinct)
    (key name tableKey : String) :
    others key name tableKey (readable readings) = readable (others key name tableKey readings) := by
  unfold others
  split
  · exact erase_readable distinct name
  · rfl

theorem AgreeBut.fields (h : AgreeBut key name root other) (hread : ReadsValues readAt read)
    (hroot : TablesDistinct root) (hother : TablesDistinct other) (tableKey path : String) :
    others key name tableKey (readable (tableReadings readAt root tableKey path))
      = others key name tableKey (readable (tableReadings readAt other tableKey path)) := by
  rw [others_readable (tableReadings_distinct hroot tableKey path),
    others_readable (tableReadings_distinct hother tableKey path), h.readings hread hroot hother]

theorem tableIssues_of_tableAt [Numeric α] {table : Section α}
    (htable : tableAt root key = some table) (path : String) :
    tableIssues root key path = [] := by
  unfold tableAt at htable
  unfold tableIssues
  cases hvalue : root.get? key with
  | none => rfl
  | some value =>
    rw [hvalue] at htable
    cases value with
    | table entries => rfl
    | _ => cases htable

/-- The issues of the tables themselves are the same. -/
theorem AgreeBut.tableIssues_eq [Numeric α] (h : AgreeBut key name root other) (anyKey : String)
    (path : String) : tableIssues root anyKey path = tableIssues other anyKey path := by
  by_cases hkey : anyKey = key
  · obtain ⟨table, otherTable, htable, hotherTable, -⟩ := h.tables
    rw [hkey, tableIssues_of_tableAt htable, tableIssues_of_tableAt hotherTable]
  · unfold tableIssues
    rw [h.elsewhere anyKey hkey]

end TwoRuns

/-- Configurations that differ in one field are loaded the same but for that field. -/
theorem AgreeBut.loadSameBut [Numeric α] {root other : Section α} {key name : String}
    (h : AgreeBut key name root other) (hroot : TablesDistinct root)
    (hother : TablesDistinct other) (path : String) : LoadSameBut key name path root other where
  readScalars := h.readings scalars_readValues hroot hother scalarsKey path
  readVectors := h.readings vectors_readValues hroot hother vectorsKey path
  scalars := by
    rw [ofSection_eq hroot, ofSection_eq hother]
    exact h.fields scalars_readValues hroot hother scalarsKey path
  vectors := by
    rw [ofSection_eq hroot, ofSection_eq hother]
    exact h.fields vectors_readValues hroot hother vectorsKey path
  tables tableKey := h.tableIssues_eq tableKey path

/-! ## Loading without an issue -/

/-- The table under a key is absent or a section, and every name in it has a field. -/
def AllRead (root : Section α) (key : String) (fields : Entries β) : Prop :=
  ∃ table, tableAt root key = some table ∧ ∀ name ∈ table.keys, name ∈ fields.keys

section Complete

variable {read : Value α → Reader β}

/-- A part of a list without repetitions is all of it if it has every item. -/
theorem eq_of_sublist_of_subset {names others : List String} (hsublist : List.Sublist names others)
    (hnodup : others.Nodup) (hsubset : ∀ name ∈ others, name ∈ names) : names = others :=
  hsublist.eq_of_length_le (List.subperm_of_subset hnodup hsubset).length_le

/-- The fields have all the names, or one of them has an issue. -/
theorem readFields_issues_eq_nil_iff
    (hgives : ∀ value path, (read value path).Gives fun _ => True) (path : String)
    (entries : Section α) :
    (readFields read path entries).2 = []
      ↔ Entries.keys (readFields read path entries).1 = entries.keys := by
  induction entries with
  | nil => exact ⟨fun _ => rfl, fun _ => rfl⟩
  | cons entry rest ih =>
    obtain ⟨name, value⟩ := entry
    rw [readFields_cons]
    have hreading := hgives value (joinPath path name)
    generalize read value (joinPath path name) = reading at hreading
    cases hreading with
    | value _ =>
      show (readFields read path rest).2 = [] ↔ name :: Entries.keys _ = name :: Entries.keys rest
      rw [List.cons_inj_right, ih]
    | fault fault later =>
      -- There is a name too few, however many of the others have fields.
      refine iff_of_false (List.cons_ne_nil _ _) fun hkeys => ?_
      have hsublist : List.Sublist (Entries.keys (readFields read path rest).1)
          (Entries.keys rest) := readFields_keys_sublist path rest
      have hfewer := hsublist.length_le
      have hlength := congrArg List.length hkeys
      simp only [Entries.keys, List.map_cons, List.length_cons, List.length_map] at hfewer hlength
      omega

variable [Numeric α] {root : Section α}

/-- The names of the fields of a table that has a field for every name are the names of the table,
    in order. -/
theorem AllRead.keys_eq (hroot : TablesDistinct root) {key path : String} {table : Section α}
    (h : AllRead root key (readTable read root key path).1)
    (htable : tableAt root key = some table) :
    Entries.keys (readTable read root key path).1 = table.keys := by
  obtain ⟨found, hfound, hsubset⟩ := h
  cases htable.symm.trans hfound
  unfold tableAt at htable
  unfold readTable at hsubset ⊢
  cases hvalue : root.get? key with
  | none =>
    rw [hvalue] at htable
    cases htable
    rfl
  | some value =>
    rw [hvalue] at htable
    cases value with
    | table entries =>
      cases htable
      rw [hvalue] at hsubset
      exact eq_of_sublist_of_subset (readFields_keys_sublist _ _) (hroot key table hvalue) hsubset
    | _ => cases htable

theorem readTable_issues_eq_nil_iff
    (hgives : ∀ value path, (read value path).Gives fun _ => True) (hroot : TablesDistinct root)
    (key path : String) :
    (readTable read root key path).2 = [] ↔ AllRead root key (readTable read root key path).1 := by
  cases hvalue : root.get? key with
  | none =>
    refine iff_of_true ?_ ⟨[], ?_, fun _ hnone => absurd hnone List.not_mem_nil⟩
    · simp [readTable, hvalue]
    · simp [tableAt, hvalue]
  | some value =>
    cases value with
    | table table =>
      have htable : tableAt root key = some table := by simp [tableAt, hvalue, Value.section?]
      have hread : readTable read root key path = readFields read (joinPath path key) table := by
        simp [readTable, hvalue]
      have hissues := readFields_issues_eq_nil_iff hgives (joinPath path key) table
      rw [← hread] at hissues
      rw [hissues]
      exact ⟨fun hkeys => ⟨table, htable, fun name hname => hkeys ▸ hname⟩,
        fun h => h.keys_eq hroot htable⟩
    | _ =>
      refine iff_of_false ?_ ?_
      · simp [readTable, hvalue]
      · rintro ⟨_, hnone, -⟩
        simp [tableAt, hvalue, Value.section?] at hnone

end Complete

/-- Both tables of a configuration are absent or sections, and every name in them is that of a
    field. -/
def Complete (root : Section α) (effect : Effect α) : Prop :=
  AllRead root scalarsKey effect.scalars ∧ AllRead root vectorsKey effect.vectors

section Whole

variable [Numeric α] {root : Section α}

/-- There are no issues exactly when every name has a field. -/
theorem issues_eq_nil_iff (hroot : TablesDistinct root) (path : String) :
    (ofSection root path).2 = [] ↔ Complete root (ofSection root path).1 := by
  have hscalars := readTable_issues_eq_nil_iff
    (Signal.gives_ofValue Signal.closed_true.composes) hroot scalarsKey path
  have hvectors := readTable_issues_eq_nil_iff
    (VectorSignal.gives_ofValue (VectorSignal.closed_true.composes Signal.closed_true))
    hroot vectorsKey path
  show (readTable Signal.ofValue root scalarsKey path).2
    ++ (readTable VectorSignal.ofValue root vectorsKey path).2 = [] ↔ _
  rw [List.append_eq_nil_iff, hscalars, hvectors]
  rfl

/-- Nothing is logged exactly when every name has a field. -/
theorem log_eq_iff (hroot : TablesDistinct root) (path : String) (log : IssueLog) :
    (loadOn root path log).2 = log ↔ Complete root (loadOn root path log).1 := by
  show (ofSection root path).2.foldl (fun log issue => log.add issue.message issue.path) log = log
    ↔ Complete root (ofSection root path).1
  rw [Reading.foldl_add, List.append_right_eq_self, issues_eq_nil_iff hroot]

/-- An effect that has a field for every name has as many fields as there are names. -/
theorem Complete.size_eq (hroot : TablesDistinct root) {path : String}
    (h : Complete root (ofSection root path).1) {scalars vectors : Section α}
    (hscalars : tableAt root scalarsKey = some scalars)
    (hvectors : tableAt root vectorsKey = some vectors) :
    (ofSection root path).1.size = scalars.keys.length + vectors.keys.length := by
  have hscalarKeys := congrArg List.length (AllRead.keys_eq hroot h.1 hscalars)
  have hvectorKeys := congrArg List.length (AllRead.keys_eq hroot h.2 hvectors)
  rw [← hscalarKeys, ← hvectorKeys]
  unfold Entries.keys
  rw [List.length_map, List.length_map]
  rfl

end Whole

end Modulation.Effect

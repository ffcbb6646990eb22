set_option autoImplicit false

/-! # Ordered entries

`Entries β` is a finite map from names to values that keeps its names in order of first mention.
Configuration sections, the fields of an effect and the files of a directory are all such maps.

The order is part of the value: `set` replaces the value under a name in place and puts a new name
last, `erase` keeps the order of the names that stay. The view of a map is `get?`; the lemmas below
say what each operation does to `get?` and to `keys`. -/

namespace Modulation

/-- A list of named values, looked up by first match. -/
abbrev Entries (β : Type) := List (String × β)

namespace Entries

variable {β γ : Type}

/-- The names, in order. -/
def keys (entries : Entries β) : List String :=
  entries.map Prod.fst

/-- The value under a name. -/
def get? : Entries β → String → Option β
  | [], _ => none
  | (name, value) :: rest, key => if name = key then some value else get? rest key

/-- Whether some value stands under the name. -/
def has (entries : Entries β) (key : String) : Bool :=
  (entries.get? key).isSome

/-- Replaces the value under a name that is present, and puts a new name last. -/
def set : Entries β → String → β → Entries β
  | [], key, value => [(key, value)]
  | (name, old) :: rest, key, value =>
    if name = key then (name, value) :: rest else (name, old) :: set rest key value

/-- Removes a name; the others keep their order. -/
def erase : Entries β → String → Entries β
  | [], _ => []
  | (name, value) :: rest, key =>
    if name = key then rest else (name, value) :: erase rest key

/-- Enters all pairs of a list in turn, so that a repeated name keeps its first place and takes its
    last value. -/
def ofList (pairs : List (String × β)) : Entries β :=
  pairs.foldl (fun entries pair => entries.set pair.1 pair.2) []

/-- No name stands twice. -/
def Distinct (entries : Entries β) : Prop :=
  entries.keys.Nodup

/-! ## Lookup after a change -/

@[simp] theorem get?_nil (key : String) : get? ([] : Entries β) key = none := rfl

theorem get?_cons (name key : String) (value : β) (rest : Entries β) :
    get? ((name, value) :: rest) key = if name = key then some value else get? rest key := rfl

theorem get?_set (entries : Entries β) (key other : String) (value : β) :
    (entries.set key value).get? other
      = if key = other then some value else entries.get? other := by
  induction entries with
  | nil => rfl
  | cons pair rest ih =>
    obtain ⟨name, old⟩ := pair
    by_cases h : name = key
    · subst h
      by_cases h' : name = other <;> simp [set, get?, h']
    · by_cases h' : key = other
      · subst h'
        simpa [set, get?, h] using ih
      · simp [set, get?, h, h', ih]

/-- Of two values entered under a name the later one stands. -/
theorem set_set (entries : Entries β) (key : String) (old new : β) :
    (entries.set key old).set key new = entries.set key new := by
  induction entries with
  | nil => simp [set]
  | cons pair rest ih =>
    obtain ⟨name, value⟩ := pair
    by_cases h : name = key <;> simp [set, h, ih]

theorem get?_eq_none_iff (entries : Entries β) (key : String) :
    entries.get? key = none ↔ key ∉ entries.keys := by
  induction entries with
  | nil => simp [keys]
  | cons pair rest ih =>
    obtain ⟨name, value⟩ := pair
    by_cases h : name = key
    · simp [get?, keys, h]
    · have h' : ¬ key = name := fun e => h e.symm
      simp only [get?, if_neg h, ih]
      simp [keys, h']

theorem mem_of_get? {entries : Entries β} {key : String} {value : β}
    (h : entries.get? key = some value) : (key, value) ∈ entries := by
  induction entries with
  | nil => simp at h
  | cons pair rest ih =>
    obtain ⟨name, old⟩ := pair
    by_cases hk : name = key
    · simp [get?, hk] at h
      simp [hk, h]
    · simp [get?, hk] at h
      exact List.mem_cons_of_mem _ (ih h)

theorem get?_map (f : β → γ) (entries : Entries β) (key : String) :
    get? (entries.map fun entry => (entry.1, f entry.2)) key = (entries.get? key).map f := by
  induction entries with
  | nil => rfl
  | cons pair rest ih =>
    obtain ⟨name, value⟩ := pair
    by_cases h : name = key
    · simp [get?, h]
    · simpa [get?, h] using ih

theorem map_eq_self {f : β → β} {entries : Entries β} (h : ∀ entry ∈ entries, f entry.2 = entry.2) :
    (entries.map fun entry => (entry.1, f entry.2)) = entries := by
  induction entries with
  | nil => rfl
  | cons pair rest ih =>
    obtain ⟨hpair, hrest⟩ := List.forall_mem_cons.1 h
    rw [List.map_cons, hpair, ih hrest]

theorem get?_eq_some_iff {entries : Entries β} (distinct : entries.Distinct) (key : String)
    (value : β) : entries.get? key = some value ↔ (key, value) ∈ entries := by
  refine ⟨mem_of_get?, fun hmem => ?_⟩
  induction entries with
  | nil => exact absurd hmem List.not_mem_nil
  | cons pair rest ih =>
    obtain ⟨name, old⟩ := pair
    have hnodup : name ∉ rest.map Prod.fst ∧ (rest.map Prod.fst).Nodup := List.nodup_cons.1 distinct
    rcases List.mem_cons.1 hmem with h | h
    · cases h
      exact if_pos rfl
    · have hne : ¬ name = key := fun he => hnodup.1 (he ▸ List.mem_map_of_mem (f := Prod.fst) h)
      rw [get?_cons, if_neg hne]
      exact ih hnodup.2 h

theorem get?_append (earlier later : Entries β) (key : String) :
    get? (earlier ++ later) key = (earlier.get? key).or (later.get? key) := by
  induction earlier with
  | nil => rfl
  | cons pair rest ih =>
    obtain ⟨name, value⟩ := pair
    by_cases h : name = key
    · simp [get?, h]
    · simpa [get?, h] using ih

/-- Where no name stands twice, the order of the entries does not matter to a lookup. -/
theorem get?_perm {entries others : Entries β} (distinct : entries.Distinct)
    (h : entries.Perm others) (key : String) : others.get? key = entries.get? key := by
  have hothers : others.Distinct := (h.map Prod.fst).nodup_iff.1 distinct
  refine Option.ext fun value => ?_
  rw [get?_eq_some_iff hothers, get?_eq_some_iff distinct, h.mem_iff]

/-- Under different names, entries are in the order of their names. -/
theorem eq_of_perm_of_keys_eq {entries others : Entries β} (distinct : entries.Distinct)
    (h : entries.Perm others) (hkeys : entries.keys = others.keys) : entries = others := by
  induction entries generalizing others with
  | nil => exact h.nil_eq
  | cons pair rest ih =>
    cases others with
    | nil => cases hkeys
    | cons other later =>
      obtain ⟨hname, hrest⟩ := List.cons.inj hkeys
      obtain ⟨hnew, hdistinct⟩ := List.nodup_cons.1 distinct
      -- The first name stands nowhere else, so the value under it is the first one on both sides.
      have hfirst : other = pair := by
        rcases List.mem_cons.1 (h.mem_iff.2 List.mem_cons_self) with heq | hmem
        · exact heq
        · refine absurd ?_ hnew
          rw [hname]
          exact List.mem_map_of_mem hmem
      subst hfirst
      rw [ih hdistinct (h.cons_inv) hrest]

/-- A value entered under a name that is there takes the place of the old one. -/
theorem exists_place_of_get? {entries : Entries β} {key : String} {old : β}
    (h : entries.get? key = some old) :
    ∃ before after, entries = before ++ (key, old) :: after
      ∧ ∀ value, entries.set key value = before ++ (key, value) :: after := by
  induction entries with
  | nil => simp at h
  | cons pair rest ih =>
    obtain ⟨name, first⟩ := pair
    by_cases hname : name = key
    · subst hname
      simp only [get?_cons, if_true, Option.some.injEq] at h
      subst h
      exact ⟨[], rest, rfl, fun value => if_pos rfl⟩
    · rw [get?_cons, if_neg hname] at h
      obtain ⟨before, after, hrest, hset⟩ := ih h
      refine ⟨(name, first) :: before, after, by rw [hrest, List.cons_append], fun value => ?_⟩
      rw [set, if_neg hname, hset, List.cons_append]

/-- Of values that are entered in turn, the last one under a name stands. -/
theorem get?_foldl_set (pairs : List (String × β)) (entries : Entries β) (key : String) :
    get? (pairs.foldl (fun entries pair => entries.set pair.1 pair.2) entries) key
      = (get? pairs.reverse key).or (entries.get? key) := by
  induction pairs generalizing entries with
  | nil => rfl
  | cons pair rest ih =>
    rw [List.foldl_cons, ih, get?_set, List.reverse_cons, get?_append]
    cases get? rest.reverse key with
    | some value => rfl
    | none => by_cases h : pair.1 = key <;> simp [get?, h]

theorem get?_ofList (pairs : List (String × β)) (key : String) :
    (ofList pairs).get? key = get? pairs.reverse key := by
  rw [ofList, get?_foldl_set, get?_nil, Option.or_none]

/-! ## Names after a change -/

theorem keys_set (entries : Entries β) (key : String) (value : β) :
    (entries.set key value).keys
      = if key ∈ entries.keys then entries.keys else entries.keys ++ [key] := by
  induction entries with
  | nil => simp [set, keys]
  | cons pair rest ih =>
    obtain ⟨name, old⟩ := pair
    by_cases h : name = key
    · simp [set, keys, h]
    · have h' : ¬ key = name := fun e => h e.symm
      simp only [keys] at ih
      by_cases hm : key ∈ rest.map Prod.fst <;> simp [set, keys, h, h', ih, hm]

theorem Distinct.set {entries : Entries β} (h : entries.Distinct) (key : String) (value : β) :
    (entries.set key value).Distinct := by
  unfold Distinct at h ⊢
  rw [keys_set]
  split
  · exact h
  · next hm =>
      refine List.nodup_append.2 ⟨h, by simp, ?_⟩
      intro a ha b hb
      simp only [List.mem_singleton] at hb
      subst hb
      exact fun e => hm (e ▸ ha)

theorem forall_mem_set {P : β → Prop} {entries : Entries β} (h : ∀ entry ∈ entries, P entry.2)
    (key : String) {value : β} (hvalue : P value) :
    ∀ entry ∈ entries.set key value, P entry.2 := by
  induction entries with
  | nil => exact List.forall_mem_singleton.2 hvalue
  | cons pair rest ih =>
    obtain ⟨hpair, hrest⟩ := List.forall_mem_cons.1 h
    rw [set]
    split
    · exact List.forall_mem_cons.2 ⟨hvalue, hrest⟩
    · exact List.forall_mem_cons.2 ⟨hpair, ih hrest⟩

/-! ## Names in the order of their first mention -/

theorem eraseDups_eq_self {names : List String} (h : names.Nodup) : names.eraseDups = names := by
  induction names with
  | nil => rfl
  | cons name rest ih =>
    obtain ⟨hnew, hrest⟩ := List.nodup_cons.1 h
    have hothers : rest.filter (fun other => !other == name) = rest := by
      refine List.filter_eq_self.2 fun other hmem => ?_
      have hne : other ≠ name := fun heq => hnew (heq ▸ hmem)
      simpa using hne
    rw [List.eraseDups_cons, hothers, ih hrest]

/-- A name that is mentioned again is not mentioned for the first time. -/
theorem eraseDups_append_cons {names : List String} {name : String} (h : name ∈ names)
    (later : List String) : (names ++ name :: later).eraseDups = (names ++ later).eraseDups := by
  rw [List.eraseDups_append, List.eraseDups_append, List.cons_removeAll,
    if_neg (by simpa using h)]

/-- A value that is entered mentions its name after those that are there. -/
theorem eraseDups_keys_set (entries : Entries β) (key : String) (value : β)
    (later : List String) :
    ((entries.set key value).keys ++ later).eraseDups
      = (entries.keys ++ key :: later).eraseDups := by
  rw [keys_set]
  split
  · next h => rw [eraseDups_append_cons h]
  · rw [List.append_assoc, List.singleton_append]

theorem eraseDups_keys_foldl_set (pairs : List (String × β)) (entries : Entries β) :
    (pairs.foldl (fun entries pair => entries.set pair.1 pair.2) entries).keys.eraseDups
      = (entries.keys ++ keys pairs).eraseDups := by
  induction pairs generalizing entries with
  | nil => simp [keys]
  | cons pair rest ih => rw [List.foldl_cons, ih, eraseDups_keys_set]; rfl

theorem distinct_ofList (pairs : List (String × β)) : (ofList pairs).Distinct := by
  have hkept : ∀ entries : Entries β, entries.Distinct →
      (pairs.foldl (fun entries pair => entries.set pair.1 pair.2) entries).Distinct := by
    induction pairs with
    | nil => exact fun _ h => h
    | cons pair rest ih => exact fun entries h => ih _ (h.set pair.1 pair.2)
  exact hkept [] List.nodup_nil

theorem keys_ofList (pairs : List (String × β)) :
    (ofList pairs).keys = (keys pairs).eraseDups := by
  rw [← eraseDups_eq_self (distinct_ofList pairs), ofList, eraseDups_keys_foldl_set]
  rfl

/-! ## Entering new names -/

theorem set_eq_append {entries : Entries β} {key : String} (h : key ∉ entries.keys) (value : β) :
    entries.set key value = entries ++ [(key, value)] := by
  induction entries with
  | nil => rfl
  | cons pair rest ih =>
    obtain ⟨name, old⟩ := pair
    simp only [keys, List.map_cons, List.mem_cons, not_or] at h
    rw [set, if_neg (fun e => h.1 e.symm), ih h.2, List.cons_append]

theorem foldl_set_eq_append (pairs : List (String × β)) (entries : Entries β)
    (distinct : (entries ++ pairs).Distinct) :
    pairs.foldl (fun entries pair => entries.set pair.1 pair.2) entries = entries ++ pairs := by
  induction pairs generalizing entries with
  | nil => simp
  | cons pair rest ih =>
    have hnew : pair.1 ∉ entries.keys := by
      unfold Distinct keys at distinct
      rw [List.map_append, List.nodup_append] at distinct
      intro hold
      exact distinct.2.2 pair.1 hold pair.1 (by simp) rfl
    rw [List.foldl_cons, set_eq_append hnew, ih _ (by simpa using distinct), List.append_assoc]
    rfl

/-- Pairs whose names are all different are entered as they stand. -/
theorem ofList_eq_self {pairs : List (String × β)} (distinct : Distinct pairs) :
    ofList pairs = pairs :=
  foldl_set_eq_append pairs [] distinct

/-! ## Removing a name -/

theorem erase_eq_self {entries : Entries β} {key : String} (h : key ∉ entries.keys) :
    entries.erase key = entries := by
  induction entries with
  | nil => rfl
  | cons pair rest ih =>
    obtain ⟨name, value⟩ := pair
    simp only [keys, List.map_cons, List.mem_cons, not_or] at h
    rw [erase, if_neg (fun e => h.1 e.symm), ih h.2]

/-- Entering a value under a name changes nothing but what stands under that name. -/
theorem erase_set (entries : Entries β) (key : String) (value : β) :
    (entries.set key value).erase key = entries.erase key := by
  induction entries with
  | nil => simp [set, erase]
  | cons pair rest ih =>
    obtain ⟨name, old⟩ := pair
    by_cases h : name = key
    · simp [set, erase, h]
    · simp [set, erase, h, ih]

theorem erase_sublist (entries : Entries β) (key : String) :
    List.Sublist (entries.erase key) entries := by
  induction entries with
  | nil => exact .slnil
  | cons pair rest ih =>
    rw [erase]
    split
    · exact List.sublist_cons_self _ _
    · exact ih.cons_cons _

theorem Distinct.erase {entries : Entries β} (h : entries.Distinct) (key : String) :
    (entries.erase key).Distinct :=
  ((erase_sublist entries key).map Prod.fst).nodup h

theorem erase_map (f : String → β → γ) (entries : Entries β) (key : String) :
    erase (entries.map fun entry => (entry.1, f entry.1 entry.2)) key
      = (entries.erase key).map fun entry => (entry.1, f entry.1 entry.2) := by
  induction entries with
  | nil => rfl
  | cons pair rest ih =>
    obtain ⟨name, value⟩ := pair
    by_cases h : name = key
    · simp [erase, h]
    · simpa [erase, h] using ih

end Entries

end Modulation

import Modulation.Proofs.Provider.Agreement

set_option autoImplicit false

/-! # What a section says

The grammar of fields is written without the readers. This file has the words that the grammars of
signals and of vector signals share: a section chooses a kind by its tag (`Chooses`) or chooses
nothing (`Refuses`), a key holds a part (`PartAt`), or a value of some sort unless it is absent
(`AtKey`), and so for numbers (`OptionalNumber`).

Each is what a reader looks for. A tag is chosen just when the section chooses it, and otherwise the
section refuses for the cause that is reported (`chooseTag_eq_ok_iff`, `chooseTag_eq_error_iff`);
the readers of the parts of a section give what the values there give (`gives_operand`,
`gives_allOperands`, `gives_readNumber?`). -/

namespace Modulation

open Modulation.Config

variable {α β γ κ : Type}

/-! ## Tags -/

/-- One entry of a section alone has a tag for its key, up to the case of ASCII letters, and it is
    the tag of `kind`. -/
def Chooses (tagOf : κ → String) (entries : Entries β) (kind : κ) (tag : String) (value : β) :
    Prop :=
  sameTag (tagOf kind) tag = true
    ∧ ∃ earlier later, entries = earlier ++ (tag, value) :: later
      ∧ ∀ entry ∈ earlier ++ later, ∀ other, sameTag (tagOf other) entry.1 = false

/-- The reader takes a tag just when the section chooses it. -/
theorem chooseTag_eq_ok_iff {ofTag? : String → Option κ} {tagOf : κ → String}
    (htags : ∀ tag kind, ofTag? tag = some kind ↔ sameTag (tagOf kind) tag = true)
    {entries : Entries β} {kind : κ} {tag : String} {value : β} :
    chooseTag ofTag? entries = .ok (kind, tag, value) ↔ Chooses tagOf entries kind tag value := by
  have hnone : ∀ key, ofTag? key = none ↔ ∀ other, sameTag (tagOf other) key = false := by
    intro key
    simp [Option.eq_none_iff_forall_ne_some, htags]
  rw [chooseTag_eq_ok_iff_tagged, taggedEntries, List.filterMap_eq_cons_iff]
  constructor
  · rintro ⟨earlier, ⟨key, held⟩, later, rfl, hearlier, hchosen, hlater⟩
    obtain ⟨found, hfound, heq⟩ := Option.map_eq_some_iff.1 hchosen
    cases heq
    refine ⟨(htags tag kind).1 hfound, earlier, later, rfl, fun entry hentry => ?_⟩
    rw [List.filterMap_eq_nil_iff] at hlater
    rcases List.mem_append.1 hentry with h | h
    · exact (hnone _).1 (Option.map_eq_none_iff.1 (hearlier entry h))
    · exact (hnone _).1 (Option.map_eq_none_iff.1 (hlater entry h))
  · rintro ⟨htag, earlier, later, rfl, hothers⟩
    have hkey : ofTag? tag = some kind := (htags tag kind).2 htag
    refine ⟨earlier, (tag, value), later, rfl, fun entry hentry => ?_, by simp [hkey], ?_⟩
    · exact Option.map_eq_none_iff.2 ((hnone _).2 (hothers entry (List.mem_append_left _ hentry)))
    · refine List.filterMap_eq_nil_iff.2 fun entry hentry => ?_
      exact Option.map_eq_none_iff.2 ((hnone _).2 (hothers entry (List.mem_append_right _ hentry)))

/-! ## Sections that choose the same -/

/-- The tag is the only key of its section that is a tag. -/
theorem Chooses.not_tag {tagOf : κ → String} {entries : Entries β} {kind : κ} {tag : String}
    {value : β} (h : Chooses tagOf entries kind tag value) {key : String} {held : β}
    (hentry : (key, held) ∈ entries) (hkey : key ≠ tag) (other : κ) :
    sameTag (tagOf other) key = false := by
  obtain ⟨-, earlier, later, rfl, hothers⟩ := h
  refine hothers (key, held) ?_ other
  rcases List.mem_append.1 hentry with hmem | hmem
  · exact List.mem_append_left _ hmem
  · rcases List.mem_cons.1 hmem with heq | hmem
    · exact absurd (congrArg Prod.fst heq) hkey
    · exact List.mem_append_right _ hmem

theorem Chooses.mem {tagOf : κ → String} {entries : Entries β} {kind : κ} {tag : String}
    {value : β} (h : Chooses tagOf entries kind tag value) : (tag, value) ∈ entries := by
  obtain ⟨-, earlier, later, rfl, -⟩ := h
  exact List.mem_append_right _ List.mem_cons_self

section SameChoice

variable {ofTag? : String → Option κ} {tagOf : κ → String}
  (htags : ∀ tag kind, ofTag? tag = some kind ↔ sameTag (tagOf kind) tag = true)

include htags

theorem chooses_iff_tagged {entries : Entries β} {kind : κ} {tag : String} {value : β} :
    Chooses tagOf entries kind tag value ↔ taggedEntries ofTag? entries = [(kind, tag, value)] :=
  (chooseTag_eq_ok_iff htags).symm.trans chooseTag_eq_ok_iff_tagged

/-- The order of a section does not matter to what it chooses. -/
theorem Chooses.perm {entries others : Entries β} {kind : κ} {tag : String} {value : β}
    (h : Chooses tagOf entries kind tag value) (hperm : entries.Perm others) :
    Chooses tagOf others kind tag value := by
  rw [chooses_iff_tagged htags] at h ⊢
  have htagged : (taggedEntries ofTag? others).Perm [(kind, tag, value)] := by
    rw [← h]
    exact (hperm.filterMap _).symm
  exact List.perm_singleton.1 htagged

/-- An entry that has no tag does not matter to what a section chooses. -/
theorem chooses_insert_iff {earlier later : Entries β} {key : String} {held : β}
    (hkey : ∀ kind, sameTag (tagOf kind) key = false) {kind : κ} {tag : String} {value : β} :
    Chooses tagOf (earlier ++ (key, held) :: later) kind tag value
      ↔ Chooses tagOf (earlier ++ later) kind tag value := by
  have hnone : ofTag? key = none := by
    simp [Option.eq_none_iff_forall_ne_some, htags, hkey]
  simp [chooses_iff_tagged htags, taggedEntries, hnone]

/-- An entry that is replaced by one of the same kind stays what a section chooses, and the section
    chooses what it chose if that is another entry. -/
theorem Chooses.replace {earlier later : Entries β} {key other : String} {held : β} (renewed : β)
    (hother : sameTag key other = true) {kind : κ} {tag : String} {value : β}
    (h : Chooses tagOf (earlier ++ (key, held) :: later) kind tag value) :
    (tag = key ∧ value = held
        ∧ Chooses tagOf (earlier ++ (other, renewed) :: later) kind other renewed)
      ∨ Chooses tagOf (earlier ++ (other, renewed) :: later) kind tag value := by
  have hsame : ofTag? other = ofTag? key := by
    refine Option.ext fun found => ?_
    rw [htags, htags, sameTag_iff, sameTag_iff, (sameTag_iff key other).1 hother]
  simp only [chooses_iff_tagged htags] at h ⊢
  cases hkey : ofTag? key with
  | none =>
    rw [hkey] at hsame
    refine Or.inr ?_
    simpa [taggedEntries, hkey, hsame] using h
  | some found =>
    rw [hkey] at hsame
    refine Or.inl ?_
    simp only [taggedEntries, List.filterMap_append, List.filterMap_cons, hkey, hsame,
      Option.map_some] at h ⊢
    obtain ⟨hearlier, hrest⟩ := (List.append_eq_singleton_iff.1 h).resolve_right (by simp)
    obtain ⟨hchosen, hlater⟩ := List.cons.inj hrest
    cases hchosen
    simp [hearlier, hlater]

end SameChoice

/-- A section chooses nothing: none of its keys is a tag, or more than one is. -/
inductive Refuses (tagOf : κ → String) : Entries β → Cause → Prop where
  | none {entries : Entries β} (hcount : entries.length ≠ 1)
      (hkeys : ∀ entry ∈ entries, ∀ kind, sameTag (tagOf kind) entry.1 = false) :
      Refuses tagOf entries .noProvider
  | unknown {key : String} {value : β} (hkey : ∀ kind, sameTag (tagOf kind) key = false) :
      Refuses tagOf [(key, value)] (.unknownProvider key)
  | several {earlier between later : Entries β} {first second : String × β} {kind other : κ}
      (hfirst : sameTag (tagOf kind) first.1 = true)
      (hsecond : sameTag (tagOf other) second.1 = true) :
      Refuses tagOf (earlier ++ first :: between ++ second :: later) .severalProviders

theorem taggedEntries_eq_nil_iff {ofTag? : String → Option κ} {tagOf : κ → String}
    (htags : ∀ tag kind, ofTag? tag = some kind ↔ sameTag (tagOf kind) tag = true)
    (entries : Entries β) :
    taggedEntries ofTag? entries = []
      ↔ ∀ entry ∈ entries, ∀ kind, sameTag (tagOf kind) entry.1 = false := by
  simp [taggedEntries, List.filterMap_eq_nil_iff, Option.eq_none_iff_forall_ne_some, htags]

/-- The reader takes no tag just when the section chooses nothing. -/
theorem chooseTag_eq_error_iff {ofTag? : String → Option κ} {tagOf : κ → String}
    (htags : ∀ tag kind, ofTag? tag = some kind ↔ sameTag (tagOf kind) tag = true)
    {entries : Entries β} {cause : Cause} :
    chooseTag ofTag? entries = .error cause ↔ Refuses tagOf entries cause := by
  rw [chooseTag_eq]
  constructor
  · intro h
    cases htagged : taggedEntries ofTag? entries with
    | nil =>
      rw [htagged] at h
      have hkeys := (taggedEntries_eq_nil_iff htags entries).1 htagged
      match entries, h, hkeys with
      | [], h, hkeys =>
        cases h
        exact .none (by simp) hkeys
      | [(key, value)], h, hkeys =>
        cases h
        exact .unknown (hkeys (key, value) (by simp))
      | _ :: _ :: _, h, hkeys =>
        cases h
        exact .none (by simp) hkeys
    | cons chosen rest =>
      cases rest with
      | nil =>
        rw [htagged] at h
        cases h
      | cons another rest =>
        rw [htagged] at h
        cases h
        obtain ⟨earlier, first, others, rfl, -, hfirst, hothers⟩ :=
          List.filterMap_eq_cons_iff.1 htagged
        obtain ⟨between, second, later, rfl, -, hsecond, -⟩ := List.filterMap_eq_cons_iff.1 hothers
        obtain ⟨kind, hkind, -⟩ := Option.map_eq_some_iff.1 hfirst
        obtain ⟨other, hother, -⟩ := Option.map_eq_some_iff.1 hsecond
        have hseveral : Refuses tagOf (earlier ++ first :: between ++ second :: later)
            .severalProviders :=
          .several ((htags _ _).1 hkind) ((htags _ _).1 hother)
        simpa using hseveral
  · intro h
    cases h with
    | none hcount hkeys =>
      rw [(taggedEntries_eq_nil_iff htags entries).2 hkeys]
      match entries, hcount with
      | [], _ => rfl
      | _ :: _ :: _, _ => rfl
    | @unknown key value hkey =>
      have hnone := (taggedEntries_eq_nil_iff htags [(key, value)]).2 (by simpa using hkey)
      rw [hnone]
    | @several earlier between later first second kind other hfirst hsecond =>
      have htagged : taggedEntries ofTag? (earlier ++ first :: between ++ second :: later)
          = taggedEntries ofTag? earlier ++ (kind, first)
            :: (taggedEntries ofTag? between ++ (other, second) :: taggedEntries ofTag? later) := by
        simp [taggedEntries, (htags first.1 kind).2 hfirst, (htags second.1 other).2 hsecond]
      rw [htagged]
      cases taggedEntries ofTag? earlier with
      | nil => cases taggedEntries ofTag? between <;> rfl
      | cons chosen rest => cases rest <;> rfl

/-! ## Values under keys -/

/-- `P` holds of the value under a key, or the key is absent and `absent` holds. -/
def AtKey (entries : Section α) (key : String) (P : Value α → Prop) (absent : Prop) : Prop :=
  match entries.get? key with
  | some value => P value
  | none => absent

/-- A key holds a value to which `R` relates `x`. -/
def PartAt (R : Value α → β → Prop) (entries : Section α) (key : String) (x : β) : Prop :=
  ∃ value, entries.get? key = some value ∧ R value x

/-- A key holds a number or is absent. -/
def OptionalNumber [Numeric α] (entries : Section α) (key : String) : Prop :=
  AtKey entries key (fun value => value.number?.isSome = true) True

section SameKey

variable {entries others : Section α} {key : String} {S : Value α → Value α → Prop}

theorem AtKey.of_rel {P : Value α → Prop} {absent : Prop} (hentries : AtKey entries key P absent)
    (h : Option.Rel S (entries.get? key) (others.get? key))
    (hkeeps : ∀ value other, S value other → P value → P other) : AtKey others key P absent := by
  unfold AtKey at hentries ⊢
  revert hentries
  generalize entries.get? key = value?, others.get? key = other? at h ⊢
  cases h with
  | none => exact id
  | some hvalue => exact hkeeps _ _ hvalue

theorem PartAt.of_rel {R : Value α → β → Prop} {x : β} (hentries : PartAt R entries key x)
    (h : Option.Rel S (entries.get? key) (others.get? key))
    (hkeeps : ∀ value other, S value other → R value x → R other x) : PartAt R others key x := by
  obtain ⟨value, hvalue, hx⟩ := hentries
  rw [hvalue] at h
  generalize hother : others.get? key = other? at h
  cases h with
  | some hrel => exact ⟨_, hother, hkeeps _ _ hrel hx⟩

end SameKey

section Parts

variable {read : Value α → Reader β} {entries : Section α} {R : Value α → β → Prop}

theorem gives_operand (h : ∀ entry ∈ entries, ∀ path, (read entry.2 path).Gives (R entry.2))
    (key path : String) :
    ((bodyBy read entries).operand key path).Gives (PartAt R entries key) := by
  rw [bodyBy_operand]
  cases hvalue : entries.get? key with
  | none => exact Reading.gives_fail _ _
  | some value =>
    have hgives := h (key, value) (Entries.mem_of_get? hvalue) (joinPath path key)
    exact hgives.mono fun x hx => ⟨value, hvalue, hx⟩

theorem gives_allOperands
    (h : ∀ entry ∈ entries, ∀ path, (read entry.2 path).Gives (R entry.2)) (path : String) :
    ((bodyBy read entries).allOperands path).Gives
      (List.Forall₂ (fun entry x => R entry.2 x) entries) := by
  rw [bodyBy_allOperands]
  induction entries with
  | nil => exact .value .nil
  | cons entry rest ih =>
    obtain ⟨hentry, hrest⟩ := List.forall_mem_cons.1 h
    exact ((hentry _).pair (ih hrest)).map fun _ hparts => .cons hparts.1 hparts.2

end Parts

theorem gives_readNumber? [Numeric α] (entries : Section α) (key path : String) :
    (readNumber? entries key path).Gives
      fun x => OptionalNumber entries key ∧ x = Section.number? entries key := by
  unfold readNumber? OptionalNumber AtKey Section.number?
  cases entries.get? key with
  | none => exact .value ⟨trivial, rfl⟩
  | some value =>
    simp only [Option.bind_some]
    cases hnumber : value.number? with
    | none => exact Reading.gives_fail _ _
    | some x => exact .value ⟨rfl, rfl⟩

theorem readNumber?_of_optionalNumber [Numeric α] {entries : Section α} {key : String}
    (h : OptionalNumber entries key) (path : String) :
    readNumber? entries key path = .ok (Section.number? entries key) := by
  unfold OptionalNumber AtKey at h
  unfold readNumber? Section.number?
  cases hvalue : entries.get? key with
  | none => rfl
  | some value =>
    simp only [hvalue] at h
    obtain ⟨x, hx⟩ := Option.isSome_iff_exists.1 h
    simp [hx]

/-- The number at which a phase starts, as it is read. -/
def initialProgress [Numeric α] (entries : Section α) : α :=
  ((Section.number? entries "initialProgress").map Numeric.abs).getD 0.0

theorem gives_readInitialProgress [Numeric α] (entries : Section α) (path : String) :
    (readInitialProgress entries path).Gives
      fun x => OptionalNumber entries "initialProgress" ∧ x = initialProgress entries := by
  refine (gives_readNumber? entries "initialProgress" path).map ?_
  rintro x ⟨hnumber, rfl⟩
  exact ⟨hnumber, rfl⟩

theorem readInitialProgress_of_optionalNumber [Numeric α] {entries : Section α}
    (h : OptionalNumber entries "initialProgress") (path : String) :
    readInitialProgress entries path = .ok (initialProgress entries) := by
  rw [readInitialProgress, readNumber?_of_optionalNumber h]
  rfl

/-! ## Lists and their partners -/

/-- Every item of a list has a partner if each has one by itself. -/
theorem exists_forall₂ {R : β → γ → Prop} {items : List β} (h : ∀ item ∈ items, ∃ x, R item x) :
    ∃ others, List.Forall₂ R items others := by
  induction items with
  | nil => exact ⟨[], .nil⟩
  | cons item rest ih =>
    obtain ⟨⟨x, hx⟩, hrest⟩ := List.forall_mem_cons.1 h
    obtain ⟨others, hothers⟩ := ih hrest
    exact ⟨x :: others, .cons hx hothers⟩

theorem forall_of_forall₂ {P : γ → Prop} {items : List β} {others : List γ}
    (h : List.Forall₂ (fun _ other => P other) items others) : ∀ other ∈ others, P other := by
  induction h with
  | nil => exact fun _ hnone => absurd hnone List.not_mem_nil
  | cons hfirst _ ih => exact List.forall_mem_cons.2 ⟨hfirst, ih⟩

/-- A list has the partners of another list if its items have. -/
theorem forall₂_of_forall₂ {δ : Type} {R : β → γ → Prop} {S : β → δ → Prop} {T : γ → δ → Prop}
    (h : ∀ item other x, R item other → S item x → T other x) {items : List β} {others : List γ}
    {xs : List δ} (hothers : List.Forall₂ R items others)
    (hitems : List.Forall₂ S items xs) : List.Forall₂ T others xs := by
  induction hothers generalizing xs with
  | nil =>
    cases hitems
    exact .nil
  | cons hfirst _ ih =>
    cases hitems with
    | cons hitem hrest => exact .cons (h _ _ _ hfirst hitem) (ih hrest)

/-- What holds of an item with any partner holds of all items, if there are as many partners. -/
theorem forall_of_forall_zip {P : β → Prop} {items : List β} {others : List γ}
    (hlength : items.length = others.length)
    (h : ∀ {item other}, (item, other) ∈ items.zip others → P item) : ∀ item ∈ items, P item := by
  intro item hitem
  rw [← List.map_fst_zip (Nat.le_of_eq hlength)] at hitem
  obtain ⟨⟨_, other⟩, hmem, rfl⟩ := List.mem_map.1 hitem
  exact h hmem

end Modulation

import Modulation.Proofs.Rewording.Keeps

set_option autoImplicit false

/-! # Other words are read as the same field

Every single edit keeps what is read of a value (`Rewords.keeps`). Any number of edits, at any depth,
therefore leads to a section from which the same field is read, and without an issue
(`reworded_read`). -/

namespace Modulation

open Modulation.Config

variable {α κ : Type} [Numeric α]

/-! ## Sections that are read as fields -/

namespace FollowsTag

variable {ofTag? : String → Option κ} {tagOf : κ → String} {use : κ → Use α}
  {entries others earlier later : Section α}
  (htags : ∀ tag kind, ofTag? tag = some kind ↔ sameTag (tagOf kind) tag = true)

include htags

theorem perm (hperm : entries.Perm others) : FollowsTag tagOf use entries others :=
  fun _ tag value htag => ⟨tag, value, htag.perm htags hperm, .refl _ value⟩

/-- An entry can be replaced by one of the same kind that keeps what is read of it. -/
theorem replace {key other : String} {value renewed : Value α} (hother : sameTag key other = true)
    (hvalue : ∀ kind, Chooses tagOf (earlier ++ (key, value) :: later) kind key value →
      (use kind).Keeps value renewed) :
    FollowsTag tagOf use (earlier ++ (key, value) :: later)
      (earlier ++ (other, renewed) :: later) := by
  intro kind tag held htag
  rcases htag.replace htags renewed hother with ⟨rfl, rfl, hchosen⟩ | hchosen
  · exact ⟨other, renewed, hchosen, hvalue kind htag⟩
  · exact ⟨tag, held, hchosen, .refl _ _⟩

theorem insert {key : String} (hkey : ∀ kind, sameTag (tagOf kind) key = false)
    (value : Value α) :
    FollowsTag tagOf use (earlier ++ later) (earlier ++ (key, value) :: later) :=
  fun _ tag held htag => ⟨tag, held, (chooses_insert_iff htags hkey).2 htag, .refl _ held⟩

end FollowsTag

/-- The second section chooses what the first one chooses, or it holds the same components, and it
    keeps what is read there. -/
def FieldType.Follows (type : FieldType) (entries others : Section α) : Prop :=
  match type with
  | signal => FollowsTag SignalKind.tag (fun kind => kind.form.use .signal) entries others
  | vector => FollowsTag VectorKind.tag (fun kind => kind.form.use .vector) entries others
    ∧ (VectorSignal.HasComponents entries →
      VectorSignal.HasComponents others ∧ KeepsParts componentParts entries others)

namespace FieldType

variable {type : FieldType} {entries others earlier later : Section α}

theorem keeps_table (h : type.Follows entries others) :
    type.Keeps (.table entries) (.table others) := by
  cases type with
  | signal => exact fun _ hfield => hfield.follow h
  | vector => exact fun _ hfield => hfield.follow h.1 h.2

theorem follows_of_perm (distinct : entries.Distinct) (hperm : entries.Perm others) :
    type.Follows entries others := by
  cases type with
  | signal => exact FollowsTag.perm Signal.ofTag?_eq_some_iff hperm
  | vector =>
    refine ⟨.perm VectorSignal.ofTag?_eq_some_iff hperm, fun hcomponents => ?_⟩
    exact ⟨hcomponents.perm hperm, .of_get?_eq fun _ _ => Entries.get?_perm distinct hperm _⟩

/-- An entry of a section that holds no components can be replaced by one of the same kind that
    keeps what is read of it. -/
theorem follows_replace {key other : String} {value renewed : Value α}
    (hother : sameTag key other = true)
    (htagged : type = vector → ¬ VectorSignal.HasComponents (earlier ++ (key, value) :: later))
    (hvalue : ∀ form, type.Offers (earlier ++ (key, value) :: later) key form value →
      (form.use type).Keeps value renewed) :
    type.Follows (earlier ++ (key, value) :: later) (earlier ++ (other, renewed) :: later) := by
  cases type with
  | signal =>
    exact FollowsTag.replace Signal.ofTag?_eq_some_iff hother fun kind hchosen =>
      hvalue _ ⟨kind, hchosen, rfl⟩
  | vector =>
    refine ⟨.replace VectorSignal.ofTag?_eq_some_iff hother fun kind hchosen => ?_,
      fun hcomponents => absurd hcomponents (htagged rfl)⟩
    exact hvalue _ ⟨htagged rfl, kind, hchosen, rfl⟩

/-- An entry beside the tag can be added. -/
theorem follows_insert {key tag : String} {value held : Value α} {form : Form α}
    (hoffer : type.Offers (earlier ++ (key, value) :: later) tag form held) (hkey : key ≠ tag) :
    type.Follows (earlier ++ later) (earlier ++ (key, value) :: later) := by
  have hentry : (key, value) ∈ earlier ++ (key, value) :: later := by simp
  cases type with
  | signal =>
    obtain ⟨kind, hchosen, -⟩ := hoffer
    exact FollowsTag.insert Signal.ofTag?_eq_some_iff (hchosen.not_tag hentry hkey) value
  | vector =>
    obtain ⟨-, kind, hchosen, -⟩ := hoffer
    have hnone := hchosen.not_tag hentry hkey
    refine ⟨.insert VectorSignal.ofTag?_eq_some_iff hnone value, fun hcomponents => ?_⟩
    -- What is chosen beside the entry is chosen without it, and then there are no components.
    have hwithout := (chooses_insert_iff VectorSignal.ofTag?_eq_some_iff hnone).1 hchosen
    exact absurd hcomponents (VectorSignal.not_hasComponents_of_chooses hwithout)

/-- What stands under a component can be replaced by what is read as the same signal. -/
theorem follows_component {key : String} {value other : Value α}
    (hcomponents : VectorSignal.HasComponents (earlier ++ (key, value) :: later))
    (hvalue : signal.Keeps value other) :
    vector.Follows (earlier ++ (key, value) :: later) (earlier ++ (key, other) :: later) := by
  constructor
  · exact fun _ _ _ htag => absurd hcomponents (VectorSignal.not_hasComponents_of_chooses htag)
  · refine fun _ => ⟨hcomponents.replace other, .replace fun part hpart _ => ?_⟩
    simp only [componentParts, List.mem_cons, List.not_mem_nil, or_false] at hpart
    rcases hpart with rfl | rfl | rfl <;> exact hvalue

/-- An entry of a section that is read as a field can be replaced by what its value is used for. -/
theorem follows_within {key : String} {value other : Value α} {inner : Use α}
    (hkey : Use.Under (.field type) (earlier ++ (key, value) :: later) key inner)
    (hvalue : inner.Keeps value other) :
    type.Follows (earlier ++ (key, value) :: later) (earlier ++ (key, other) :: later) := by
  cases hkey with
  | tag hoffer =>
    refine follows_replace (sameTag_self key) (offers_iff.1 hoffer).1 fun form hform => ?_
    obtain ⟨-, rfl, -⟩ := hoffer.unique hform
    exact hvalue
  | beside hoffer hother =>
    refine follows_replace (sameTag_self key) (offers_iff.1 hoffer).1 fun form hform => ?_
    exact absurd (hoffer.unique hform).1 hother
  | component _ hcomponents => exact follows_component hcomponents hvalue

end FieldType

/-! ## Single edits -/

theorem KeepsParts.insert {parts : List (Part α)} {key : String}
    (hkey : ∀ part ∈ parts, part.key ≠ key) (earlier later : Section α) (value : Value α) :
    KeepsParts parts (earlier ++ later) (earlier ++ (key, value) :: later) := by
  refine .of_get?_eq fun part hpart => ?_
  simp only [Entries.get?_append, Entries.get?_cons, if_neg (hkey part hpart).symm]

omit [Numeric α] in
theorem Part.use_ne_nothing (part : Part α) : part.use ≠ .nothing := by
  cases part <;> simp [use]

omit [Numeric α] in
theorem Form.use_ne_nothing (type : FieldType) (form : Form α) : form.use type ≠ .nothing := by
  rcases form with _ | ⟨parts, _ | arity⟩ <;> simp [use]

/-- A number is written for a constant and for no other signal. -/
theorem Signal.Describes.eq_constant {value : Value α} {field : Signal α} {x : α}
    (h : Describes value field) (hnumber : value.number? = some x) : field = constant x := by
  cases h with
  | number h =>
    cases h.symm.trans hnumber
    rfl
  | _ => cases hnumber

/-- Three numbers under the keys of components are written for the vector signal of the numbers, and
    for no other. -/
theorem VectorSignal.describes_components_iff {x y z : Value α} {a b c : α}
    (hx : x.number? = some a) (hy : y.number? = some b) (hz : z.number? = some c)
    (field : VectorSignal α) :
    Describes (.table [("x", x), ("y", y), ("z", z)]) field ↔ field = constant ⟨a, b, c⟩ := by
  have hcomponents : HasComponents [("x", x), ("y", y), ("z", z)] := by simp [HasComponents]
  constructor
  · intro h
    cases h with
    | untagged _ hx' hy' hz' =>
      rw [Signal.Describes.eq_constant hx' hx, Signal.Describes.eq_constant hy' hy,
        Signal.Describes.eq_constant hz' hz]
      rfl
    | normalize hother | combine hother | scale hother | rotate hother | components hother =>
      exact absurd hcomponents hother
  · rintro rfl
    exact .untagged (x := .constant a) (y := .constant b) (z := .constant c) hcomponents
      (.number hx) (.number hy) (.number hz)

namespace FieldType

theorem keeps_widen (type : FieldType) (n : Int) :
    type.Keeps (.integer n : Value α) (.float (Numeric.ofInt n)) := by
  cases type with
  | signal =>
    intro field hfield
    cases hfield with
    | number hnumber => exact .number hnumber
  | vector =>
    intro field hfield
    cases hfield

theorem keeps_widenItem (earlier later : List (Value α)) (n : Int) :
    vector.Keeps (.list (earlier ++ .integer n :: later))
      (.list (earlier ++ .float (Numeric.ofInt n) :: later)) := by
  intro field hfield
  cases hfield with
  | numbers hitems =>
    refine .numbers (Eq.trans ?_ hitems)
    simp [Value.number?]

theorem keeps_name (x y z : Value α) :
    vector.Keeps (.list [x, y, z]) (.table [("x", x), ("y", y), ("z", z)]) := by
  intro field hfield
  cases hfield with
  | @numbers _ a b c hitems =>
    simp only [List.map_cons, List.map_nil, List.cons.injEq, and_true] at hitems
    obtain ⟨ha, hb, hc⟩ := hitems
    exact (VectorSignal.describes_components_iff ha hb hc _).2 rfl

theorem keeps_unname {x y z : Value α} (hnumbers : ∀ item ∈ [x, y, z], item.number?.isSome = true) :
    vector.Keeps (.table [("x", x), ("y", y), ("z", z)]) (.list [x, y, z]) := by
  simp only [List.forall_mem_cons, Option.isSome_iff_exists] at hnumbers
  obtain ⟨⟨a, ha⟩, ⟨b, hb⟩, ⟨c, hc⟩, -⟩ := hnumbers
  intro field hfield
  rw [VectorSignal.describes_components_iff ha hb hc] at hfield
  subst hfield
  exact .numbers (by simp [ha, hb, hc])

end FieldType

/-- An entry that is not read can be added. -/
theorem keeps_add {use : Use α} {earlier later : Section α} {key : String} {value : Value α}
    (hkey : use.Under (earlier ++ (key, value) :: later) key .nothing) :
    use.Keeps (.table (earlier ++ later)) (.table (earlier ++ (key, value) :: later)) := by
  generalize hnothing : Use.nothing = inner at hkey
  cases hkey with
  | tag hoffer => exact absurd hnothing.symm (Form.use_ne_nothing _ _)
  | beside hoffer hother => exact FieldType.keeps_table (FieldType.follows_insert hoffer hother)
  | component _ hcomponents => cases hnothing
  | argument type => cases hnothing
  | part _ _ hpart honly => exact absurd hnothing.symm (Part.use_ne_nothing _)
  | rest _ hrest =>
    intro body hbody
    cases hbody
    exact ⟨_, rfl, .insert hrest earlier later value⟩

/-- The value of an entry can be replaced by what it is used for. -/
theorem keeps_within {use inner : Use α} {earlier later : Section α} {key : String}
    {value other : Value α} (hkey : use.Under (earlier ++ (key, value) :: later) key inner)
    (hvalue : inner.Keeps value other) :
    use.Keeps (.table (earlier ++ (key, value) :: later))
      (.table (earlier ++ (key, other) :: later)) := by
  cases use with
  | field type => exact FieldType.keeps_table (FieldType.follows_within hkey hvalue)
  | arguments type =>
    cases hkey
    intro body hbody
    cases hbody
    refine ⟨_, rfl, List.rel_append ?_ (.cons hvalue ?_)⟩
    all_goals exact List.forall₂_same.2 fun entry _ => FieldType.Keeps.refl type entry.2
  | parts named =>
    intro body hbody
    cases hbody
    refine ⟨_, rfl, .replace fun part hpart hsame => ?_⟩
    cases hkey with
    | part _ _ hread honly =>
      rw [honly part hpart hsame]
      exact (Part.keeps_iff _ _ _).2 hvalue
    | rest _ hrest => exact absurd hsame (hrest part hpart)
  | number | nothing => cases hkey

/-- A single edit keeps what is read. -/
theorem Rewords.keeps {use : Use α} {value other : Value α} (h : Rewords use value other) :
    use.Keeps value other := by
  induction h with
  | unread => trivial
  | widen use n =>
    cases use with
    | field type => exact type.keeps_widen n
    | number => exact fun _ hnumber => hnumber
    | arguments | parts => exact fun _ hbody => nomatch hbody
    | nothing => trivial
  | widenItem earlier later n => exact FieldType.keeps_widenItem earlier later n
  | name => exact FieldType.keeps_name _ _ _
  | unname hnumbers => exact FieldType.keeps_unname hnumbers
  | @reorder use entries others huse distinct hperm =>
    cases use with
    | field type => exact FieldType.keeps_table (FieldType.follows_of_perm distinct hperm)
    | number => exact fun _ hnumber => nomatch hnumber
    | arguments type => exact absurd rfl (huse type)
    | parts named =>
      intro body hbody
      cases hbody
      exact ⟨_, rfl, .of_get?_eq fun _ _ => Entries.get?_perm distinct hperm _⟩
    | nothing => trivial
  | @retag type tag other earlier later value htag hother =>
    refine FieldType.keeps_table (FieldType.follows_replace hother ?_ fun _ _ => .refl _ _)
    rintro rfl hcomponents
    obtain ⟨kind, hkind⟩ := htag
    exact VectorSignal.not_component_of_tag hkind (hcomponents.2 (tag, value) (by simp))
  | add _ _ hkey => exact keeps_add hkey
  | within _ _ hkey _ ih => exact keeps_within hkey ih

/-! ## Any number of edits -/

/-- What holds of a section, and of every section that keeps a part of one of which it holds, holds
    of every section that says the same of the part in other words. -/
theorem Reworded.induct {part : Part α} {P : Section α → Prop} {entries others : Section α}
    (h : Reworded part entries others) (hentries : P entries)
    (hstep : ∀ before after, KeepsParts [part] before after → P before → P after) : P others := by
  have hbetween : ∀ value, Relation.ReflTransGen (Rewords (.parts [part])) (.table entries) value →
      ∃ between, value = .table between ∧ P between := by
    intro value hvalue
    induction hvalue with
    | refl => exact ⟨entries, rfl, hentries⟩
    | tail _ hedit ih =>
      obtain ⟨before, rfl, hbefore⟩ := ih
      obtain ⟨after, rfl, hkeeps⟩ := hedit.keeps before rfl
      exact ⟨after, rfl, hstep before after hkeeps hbefore⟩
  obtain ⟨between, hothers, hbetween⟩ := hbetween _ h
  cases hothers
  exact hbetween

/-- A field that is read is read as the same tree, and without an issue, from every section that
    says the same of it in other words. -/
theorem reworded_read {entries others : Section Float} {key : String} :
    (∀ {default : Option Float} {signal : Signal Float} (path : String),
        Reworded (.signal key default) entries others →
        (Signal.read entries key path default).result = .ok signal →
          ∀ path', Signal.read others key path' default = .ok signal)
      ∧ ∀ {default : Option (Vec3 Float)} {signal : VectorSignal Float} (path : String),
        Reworded (.vector key) entries others →
        (VectorSignal.read entries key path default).result = .ok signal →
          ∀ path', VectorSignal.read others key path' default = .ok signal := by
  constructor
  · intro default signal path hreworded hread path'
    have hothers := hreworded.induct ((Signal.read_eq_ok_iff _ _ path _ _).1 hread)
      fun _ _ hkeeps hbefore => hkeeps.signalAt (List.mem_singleton_self _) hbefore
    exact hothers.reads path'
  · intro default signal path hreworded hread path'
    have hothers := hreworded.induct ((VectorSignal.read_eq_ok_iff _ _ path _ _).1 hread)
      fun _ _ hkeeps hbefore => hkeeps.vectorAt (List.mem_singleton_self _) hbefore
    exact hothers.reads path'

/-- A field with bounds in two ways. -/
theorem clamp_reworded :
    Reworded (α := Float) (.signal "gain" none)
      [("gain", .table [("clamp", .table
        [("min", .integer 0), ("max", .float 2.0), ("value", .integer 1)])])]
      [("gain", .table [("note", .text "loud"), ("CLAMP", .table
        [("unit", .text "dB"), ("value", .float (Numeric.ofInt 1)), ("max", .float 2.0),
          ("min", .integer 0)])])] := by
  have hgain : ∀ value other : Value Float, Rewords (.field .signal) value other →
      Reworded (.signal "gain" none) [("gain", value)] [("gain", other)] :=
    fun value other h => .single (.within [] [] (.part _ _ (List.mem_singleton_self _) (by simp)) h)
  have hbody : ∀ value other : Value Float,
      Rewords (SignalKind.clamp.form.use .signal) value other →
      Reworded (.signal "gain" none) [("gain", .table [("clamp", value)])]
        [("gain", .table [("clamp", other)])] :=
    fun value other h => hgain _ _
      (.within [] [] (.tag ⟨.clamp, ⟨by decide, [], [], rfl, by simp⟩, rfl⟩) h)
  have hreordered : Rewords (SignalKind.clamp.form.use .signal)
      (.table [("min", .integer 0), ("max", .float 2.0), ("value", .integer 1)])
      (.table [("value", .integer 1), ("max", .float 2.0), ("min", .integer 0)]) :=
    .reorder nofun (by simp [Entries.Distinct, Entries.keys]) (List.reverse_perm _).symm
  have hwidened : Rewords (SignalKind.clamp.form.use .signal)
      (.table [("value", .integer 1), ("max", .float 2.0), ("min", .integer 0)])
      (.table [("value", .float (Numeric.ofInt 1)), ("max", .float 2.0), ("min", .integer 0)]) :=
    .within [] _ (.part (.signal "value" none) _ (by simp) (by simp [Part.key]))
      (.widen _ 1)
  have hunit : ∀ rest : Section Float,
      Rewords (SignalKind.clamp.form.use .signal) (.table rest)
        (.table (("unit", .text "dB") :: rest)) :=
    fun rest => .add [] rest (.rest _ (by simp [Part.key]))
  have hretagged : ∀ body : Value Float,
      Rewords (.field .signal) (.table [("clamp", body)]) (.table [("CLAMP", body)]) :=
    fun body => .retag [] [] body ⟨.clamp, by decide⟩ (by decide)
  have hnote : ∀ body : Value Float, Rewords (.field .signal) (.table [("CLAMP", body)])
      (.table [("note", .text "loud"), ("CLAMP", body)]) := by
    intro body
    have hoffer : FieldType.signal.Offers [("note", .text "loud"), ("CLAMP", body)] "CLAMP"
        SignalKind.clamp.form body := by
      refine ⟨.clamp, ⟨by decide, [_], [], rfl, ?_⟩, rfl⟩
      simp only [List.append_nil, List.forall_mem_singleton]
      rintro (op | _ | _ | form | _)
      · cases op <;> decide
      · decide
      · decide
      · cases form <;> decide
      · decide
    exact .add [] _ (.beside hoffer (by decide))
  exact (hbody _ _ hreordered).trans <| (hbody _ _ hwidened).trans <|
    (hbody _ _ (hunit _)).trans <| (hgain _ _ (hretagged _)).trans <| hgain _ _ (hnote _)

/-- A place as a list of numbers and as a section of components. -/
theorem place_reworded :
    Reworded (α := Float) (.vector "at")
      [("at", .list [.integer 1, .float 2.0, .float 3.0])]
      [("at", .table [("z", .float 3.0), ("y", .float 2.0),
        ("x", .float (Numeric.ofInt 1))])] := by
  have hat : ∀ value other : Value Float, Rewords (.field .vector) value other →
      Reworded (.vector "at") [("at", value)] [("at", other)] :=
    fun value other h => .single (.within [] [] (.part _ _ (List.mem_singleton_self _) (by simp)) h)
  refine .trans (hat _ _ (.widenItem [] _ 1)) ?_
  refine .trans (hat _ _ (.name (by simp [Value.number?]))) ?_
  refine hat _ _ (.reorder nofun (by simp [Entries.Distinct, Entries.keys]) ?_)
  exact (List.reverse_perm _).symm

/-- What is read of the other ways to write the field with bounds and the place. -/
theorem respelled_read :
    (∀ path, Signal.read [("gain", .table [("note", .text "loud"), ("CLAMP", .table
        [("unit", .text "dB"), ("value", .float (Numeric.ofInt 1)), ("max", .float 2.0),
          ("min", .integer 0)])])] "gain" path none
        = .ok (.clamp (.constant (Numeric.ofInt 0)) (.constant (2.0 : Float))
            (.constant (Numeric.ofInt 1))))
      ∧ ∀ path, VectorSignal.read [("at", .table [("z", .float 3.0), ("y", .float 2.0),
        ("x", .float (Numeric.ofInt 1))])] "at" path none
        = .ok (.constant ⟨Numeric.ofInt 1, (2.0 : Float), 3.0⟩) :=
  ⟨reworded_read.1 "" clamp_reworded rfl, reworded_read.2 "" place_reworded rfl⟩

end Modulation

import Modulation.Proofs.Signal.Resumption
import Modulation.Toml.Writer

set_option autoImplicit false

/-! # Pair lists

A pair list gives the parts of a provider flat, as keys and numbers in turn. It is read as a section
whose only key is the tag, with the numbers under their keys: a key that is repeated keeps its first
place and takes its last number (`pairBody`). A list that ends with a key, or that has a text that is
no number, is refused with a single issue.

Conversely, a signal whose parts are all constants is written in one such section, and its keys and
numbers in turn are read as the signal it is (`Flat.ofPairs_eq`). `pairs_read_as_section` puts both
together. -/

namespace Modulation.Signal

open Modulation.Config

variable {α : Type}

/-! ## Keys and texts -/

/-- The keys of a pair list with their texts. -/
def pairsOf : List String → List (String × String)
  | key :: text :: rest => (key, text) :: pairsOf rest
  | _ => []

/-- Keys and numbers in turn, each number as its text. -/
def pairList (print : α → String) (numbers : Entries α) : List String :=
  numbers.flatMap fun number => [number.1, print number.2]

/-- The texts of pairs are those of numbers, under the same keys. -/
def Numbered (number? : String → Option α) : List (String × String) → Entries α → Prop :=
  List.Forall₂ fun pair number => pair.1 = number.1 ∧ number? pair.2 = some number.2

/-- Numbers as the values of a section. -/
def numberSection (numbers : Entries α) : Section α :=
  numbers.map fun number => (number.1, .float number.2)

/-- The section that numbers are entered into, one after the other. -/
def pairBody (numbers : Entries α) : Section α :=
  Entries.ofList (numberSection numbers)

theorem pairsOf_pairList (print : α → String) (numbers : Entries α) :
    pairsOf (pairList print numbers) = numbers.map fun number => (number.1, print number.2) := by
  induction numbers with
  | nil => rfl
  | cons number rest ih => exact congrArg (_ :: ·) ih

theorem length_pairList (print : α → String) (numbers : Entries α) :
    (pairList print numbers).length % 2 = 0 := by
  simp [pairList]

theorem numbered_pairList {number? : String → Option α} {print : α → String}
    {numbers : Entries α} (h : ∀ number ∈ numbers, number? (print number.2) = some number.2) :
    Numbered number? (pairsOf (pairList print numbers)) numbers := by
  rw [pairsOf_pairList, Numbered, List.forall₂_map_left_iff, List.forall₂_same]
  exact fun number hmem => ⟨rfl, h number hmem⟩

theorem keys_pairBody (numbers : Entries α) :
    (pairBody numbers).keys = numbers.keys.eraseDups := by
  rw [pairBody, Entries.keys_ofList, numberSection, Entries.keys, List.map_map]
  rfl

theorem get?_pairBody (numbers : Entries α) (key : String) :
    (pairBody numbers).get? key = (Entries.get? numbers.reverse key).map .float := by
  rw [pairBody, Entries.get?_ofList, numberSection, ← List.map_reverse, Entries.get?_map]

/-! ## Entering the numbers -/

section Entering

variable {number? : String → Option α} {path : String}

theorem pairSection_of_numbered {texts : List String} {numbers : Entries α}
    (h : Numbered number? (pairsOf texts) numbers) (entries : Section α) :
    pairSection number? path texts entries
      = .ok ((numberSection numbers).foldl (fun body number => body.set number.1 number.2)
          entries) := by
  -- By the cases of the reader: a pair with a number, a pair without one, and no pair.
  induction texts, entries using pairSection.induct number? generalizing numbers with
  | case1 key text rest entries x hx ih =>
    rw [pairsOf] at h
    cases h with
    | @cons _ number _ later hfirst hrest =>
      obtain ⟨hkey, hnumber⟩ := hfirst
      cases hx.symm.trans hnumber
      rw [pairSection, hnumber]
      refine (ih hrest).trans ?_
      simp only at hkey
      simp [numberSection, Section.setNumber, hkey]
  | case2 key text rest entries hx =>
    rw [pairsOf] at h
    cases h with
    | cons hfirst _ => cases hx.symm.trans hfirst.2
  | case3 texts entries hshort =>
    rw [pairSection, pairsOf] at *
    · cases h
      rfl
    all_goals exact hshort

/-- The first text that is no number ends the reading. -/
theorem pairSection_of_not_number {texts : List String} {before after : List (String × String)}
    {key text : String} (h : pairsOf texts = before ++ (key, text) :: after)
    (hbefore : ∀ pair ∈ before, (number? pair.2).isSome) (htext : number? text = none)
    (entries : Section α) :
    pairSection number? path texts entries
      = .error ⟨.pairNotNumber key text, joinPath path key⟩ := by
  induction texts, entries using pairSection.induct number? generalizing before with
  | case1 first value rest entries x hx ih =>
    rw [pairsOf] at h
    rw [pairSection, hx]
    cases before with
    | nil =>
      cases h
      cases hx.symm.trans htext
    | cons pair later =>
      obtain ⟨rfl, hrest⟩ := List.cons.inj h
      exact ih hrest (List.forall_mem_cons.1 hbefore).2
  | case2 first value rest entries hx =>
    rw [pairsOf] at h
    rw [pairSection, hx]
    cases before with
    | nil =>
      cases h
      rfl
    | cons pair later =>
      obtain ⟨rfl, -⟩ := List.cons.inj h
      have hfirst : (number? value).isSome := (List.forall_mem_cons.1 hbefore).1
      simp [hx] at hfirst
  | case3 texts entries hshort =>
    rw [pairsOf] at h
    · cases before <;> cases h
    · exact hshort

/-- Pairs have numbers throughout, or there is a first one that has none. -/
theorem numbered_or_first (number? : String → Option α) (pairs : List (String × String)) :
    (∃ numbers, Numbered number? pairs numbers)
      ∨ ∃ before key text after, pairs = before ++ (key, text) :: after
          ∧ (∀ pair ∈ before, (number? pair.2).isSome) ∧ number? text = none := by
  induction pairs with
  | nil => exact .inl ⟨[], .nil⟩
  | cons pair rest ih =>
    obtain ⟨key, text⟩ := pair
    cases htext : number? text with
    | none => exact .inr ⟨[], key, text, rest, rfl, by simp, htext⟩
    | some x =>
      rcases ih with ⟨numbers, hrest⟩ | ⟨before, badKey, bad, after, rfl, hbefore, hbad⟩
      · exact .inl ⟨(key, x) :: numbers, .cons ⟨rfl, htext⟩ hrest⟩
      · refine .inr ⟨(key, text) :: before, badKey, bad, after, rfl, ?_, hbad⟩
        exact List.forall_mem_cons.2 ⟨by simp [htext], hbefore⟩

end Entering

variable [Numeric α]

/-! ## Reading a pair list -/

/-- What remains of a reading that meets a single fault when there is a log already. -/
def refused (fault : Fault) (log : IssueLog) : Except Fault (Signal α) × IssueLog :=
  (.error fault, log ++ [fault.issue])

/-- A pair list is read as the section of its numbers is under any key. If it is not one of pairs,
    or else a text in it is no number, it is refused with one issue, for the first such text. -/
structure ReadsPairs (number? : String → Option α) : Prop where
  nested : ∀ {texts : List String} {numbers : Entries α}, texts.length % 2 = 0 →
    Numbered number? (pairsOf texts) numbers →
      ∀ (tag parent key : String) (entries : Section α) (default : Option α) (log : IssueLog),
        entries.get? key = some (.table [(tag, .table (pairBody numbers))]) →
          (ofPairs number? tag texts (joinPath parent key)).on log
            = (read entries key parent default).on log
  unpaired : ∀ {texts : List String}, texts.length % 2 ≠ 0 →
    ∀ (tag path : String) (log : IssueLog),
      (ofPairs number? tag texts path).on log
        = refused ⟨.unpairedKey (texts.getLast?.getD ""), path⟩ log
  unnumbered : ∀ {texts : List String}, texts.length % 2 = 0 →
    (¬ ∃ numbers, Numbered number? (pairsOf texts) numbers) →
      ∃ before key text after, pairsOf texts = before ++ (key, text) :: after
        ∧ (∀ pair ∈ before, (number? pair.2).isSome) ∧ number? text = none
        ∧ ∀ (tag path : String) (log : IssueLog),
          (ofPairs number? tag texts path).on log
            = refused ⟨.pairNotNumber key text, joinPath path key⟩ log

theorem ofPairs_of_numbered {number? : String → Option α} {texts : List String}
    {numbers : Entries α} (heven : texts.length % 2 = 0)
    (h : Numbered number? (pairsOf texts) numbers) (tag path : String) :
    ofPairs number? tag texts path = ofSection [(tag, .table (pairBody numbers))] path := by
  have hbody : pairSection number? path texts [] = .ok (pairBody numbers) :=
    pairSection_of_numbered h []
  rw [ofPairs, if_pos heven, hbody]
  rfl

theorem readsPairs (number? : String → Option α) : ReadsPairs number? where
  nested := by
    intro texts numbers heven h tag parent key entries default log hvalue
    rw [ofPairs_of_numbered heven h]
    unfold Signal.read
    rw [hvalue, ofSection]
  unpaired := by
    intro texts hodd tag path log
    rw [ofPairs, if_neg hodd]
    exact Reading.on_fail _ _ log
  unnumbered := by
    intro texts heven h
    rcases numbered_or_first number? (pairsOf texts) with hall | hfirst
    · exact absurd hall h
    · obtain ⟨before, key, text, after, hpairs, hbefore, htext⟩ := hfirst
      refine ⟨before, key, text, after, hpairs, hbefore, htext, fun tag path log => ?_⟩
      rw [ofPairs, if_pos heven, pairSection_of_not_number hpairs hbefore htext]
      rfl

/-! ## Signals of constants -/

/-- The signals that a signal is made of. -/
def parts : Signal α → List (Signal α)
  | constant _ => []
  | combined _ arguments _ => arguments
  | absolute inner _ => [inner]
  | clamped low high inner _ => [low, high, inner]
  | periodic _ low high period _ _ => [low, high, period]
  | drawn low high _ _ => [low, high]

/-- The numbers that are written of a signal whose parts are constants. -/
def numbers : Signal α → Entries α
  | combined _ arguments _ =>
    arguments.mapIdx fun index argument => (argumentKey index, argument.value)
  | clamped low high inner _ =>
    [("min", low.value), ("max", high.value), ("value", inner.value)]
  | periodic form low high period phase _ =>
    [(form.lowKey, low.value), (form.highKey, high.value), ("period", period.value),
      ("initialProgress", phase)]
  | drawn low high last _ => [("min", low.value), ("max", high.value), ("lastValue", last)]
  | constant _ | absolute _ _ => []

/-- A generated signal of which all parts are constants. An absolute value has no section of parts
    under its tag, but the part itself, and is not meant. -/
structure Flat (signal : Signal α) (kind : SignalKind) : Prop where
  kind_eq : signal.kind? = some kind
  not_abs : kind ≠ .abs
  constants : ∀ part ∈ signal.parts, part.isConstant

omit [Numeric α] in
theorem toValue_of_isConstant {signal : Signal α} (h : signal.isConstant) :
    signal.toValue = .float signal.value := by
  cases signal with
  | constant value => rfl
  | _ => cases h

theorem everywhere_keepsPhase_of_isConstant {signal : Signal α} (h : signal.isConstant) :
    signal.Everywhere KeepsPhase := by
  cases signal with
  | constant value => exact .constant trivial
  | _ => cases h

omit [Numeric α] in
/-- Constant arguments are written as their numbers. -/
theorem keyedArguments_of_isConstant {arguments : List (Signal α)}
    (h : ∀ argument ∈ arguments, argument.isConstant) :
    keyedArguments (toValues arguments)
      = numberSection (arguments.mapIdx fun index argument =>
          (argumentKey index, argument.value)) := by
  have hvalues : toValues arguments = arguments.map fun argument => .float argument.value := by
    rw [toValues_eq_map]
    exact List.map_congr_left fun argument hmem => toValue_of_isConstant (h argument hmem)
  rw [hvalues, keyedArguments, numberSection]
  apply List.ext_getElem <;> simp

section Flat

variable {signal : Signal α} {kind : SignalKind}

omit [Numeric α] in
/-- A signal of constants is written as its numbers, under keys that are all different. -/
theorem Flat.toValue_eq (h : Flat signal kind) :
    signal.toValue = .table [(kind.tag, .table (numberSection signal.numbers))]
      ∧ Entries.Distinct (numberSection signal.numbers) := by
  obtain ⟨hkind, habs, hconstants⟩ := h
  cases signal with
  | constant _ => cases hkind
  | absolute _ _ =>
    cases hkind
    exact absurd rfl habs
  | combined op arguments _ =>
    cases hkind
    have harguments : ∀ argument ∈ arguments, argument.isConstant := hconstants
    have hsection := keyedArguments_of_isConstant harguments
    refine ⟨?_, hsection ▸ keyedArguments_distinct _⟩
    rw [toValue, argumentSection_eq, hsection]
    rfl
  | clamped low high inner _ =>
    cases hkind
    have hdistinct : List.Nodup ["min", "max", "value"] := by decide
    simp only [parts, List.forall_mem_cons] at hconstants
    obtain ⟨hlow, hhigh, hinner, -⟩ := hconstants
    refine ⟨?_, hdistinct⟩
    rw [toValue, toValue_of_isConstant hlow, toValue_of_isConstant hhigh,
      toValue_of_isConstant hinner]
    rfl
  | periodic form low high period phase _ =>
    cases hkind
    have hdistinct : List.Nodup [form.lowKey, form.highKey, "period", "initialProgress"] := by
      cases form <;> decide
    simp only [parts, List.forall_mem_cons] at hconstants
    obtain ⟨hlow, hhigh, hperiod, -⟩ := hconstants
    refine ⟨?_, hdistinct⟩
    rw [toValue, toValue_of_isConstant hlow, toValue_of_isConstant hhigh,
      toValue_of_isConstant hperiod]
    rfl
  | drawn low high last _ =>
    cases hkind
    have hdistinct : List.Nodup ["min", "max", "lastValue"] := by decide
    simp only [parts, List.forall_mem_cons] at hconstants
    obtain ⟨hlow, hhigh, -⟩ := hconstants
    refine ⟨?_, hdistinct⟩
    rw [toValue, toValue_of_isConstant hlow, toValue_of_isConstant hhigh]
    rfl

/-- The only phase in a signal of constants is its own. -/
theorem Flat.everywhere_keepsPhase (h : Flat signal kind) (hphase : signal.KeepsPhase) :
    signal.Everywhere KeepsPhase := by
  have hparts := fun part hmem => everywhere_keepsPhase_of_isConstant (h.constants part hmem)
  cases signal with
  | constant _ => exact .constant hphase
  | combined _ _ _ => exact .combined hphase hparts
  | absolute _ _ => exact .absolute hphase (hparts _ (by simp [parts]))
  | clamped _ _ _ _ =>
    simp only [parts, List.forall_mem_cons] at hparts
    exact .clamped hphase hparts.1 hparts.2.1 hparts.2.2.1
  | periodic _ _ _ _ _ _ =>
    simp only [parts, List.forall_mem_cons] at hparts
    exact .periodic hphase hparts.1 hparts.2.1 hparts.2.2.1
  | drawn _ _ _ _ =>
    simp only [parts, List.forall_mem_cons] at hparts
    exact .drawn hphase hparts.1 hparts.2.1

/-- The keys and numbers that are written of a signal of constants, in turn, are read as the signal,
    if its numbers are read from their texts. -/
theorem Flat.ofPairs_eq [Numeric.Lawful α] (hflat : Flat signal kind) (h : signal.Reachable)
    (hphase : signal.KeepsPhase) {number? : String → Option α} {print : α → String}
    (hprint : ∀ number ∈ signal.numbers, number? (print number.2) = some number.2)
    (path : String) :
    ofPairs number? kind.tag (pairList print signal.numbers) path = .ok signal := by
  obtain ⟨hvalue, hdistinct⟩ := hflat.toValue_eq
  have hreads := reads_toValue h.coherent (hflat.everywhere_keepsPhase hphase) path
  rw [ofPairs_of_numbered (length_pairList print _) (numbered_pairList hprint),
    pairBody, Entries.ofList_eq_self hdistinct, ofSection, ← hvalue, hreads]

end Flat

/-! ## All together -/

/-- A pair list is read as the nested section of its numbers, whose keys stand in the order of their
    first mention, each with its last number; it is refused with one issue otherwise. A reachable
    signal of constants is written as a section of numbers, and their keys and texts in turn are read
    as the signal under its own tag. -/
theorem pairs_read_as_section [Numeric.Lawful α] :
    (∀ number? : String → Option α, ReadsPairs number?)
      ∧ (∀ numbers : Entries α, (pairBody numbers).keys = numbers.keys.eraseDups
        ∧ ∀ key, (pairBody numbers).get? key = (Entries.get? numbers.reverse key).map .float)
      ∧ ∀ {signal : Signal α} {kind : SignalKind}, signal.Reachable → Flat signal kind →
        signal.KeepsPhase →
          signal.toValue = .table [(kind.tag, .table (numberSection signal.numbers))]
            ∧ ∀ {number? : String → Option α} {print : α → String},
              (∀ number ∈ signal.numbers, number? (print number.2) = some number.2) →
                ∀ path, ofPairs number? kind.tag (pairList print signal.numbers) path
                  = .ok signal :=
  ⟨readsPairs, fun numbers => ⟨keys_pairBody numbers, get?_pairBody numbers⟩,
    fun h hflat hphase => ⟨hflat.toValue_eq.1, fun hprint path =>
      hflat.ofPairs_eq h hphase hprint path⟩⟩

/-- A sine between bounds that are given the other way round, a quarter on its way. -/
def swell : Signal Float :=
  wave .pulse (constant 10.0) (constant 0.0) (constant 4.0) 0.25

theorem swell_flat : Flat swell (.wave .pulse) where
  kind_eq := rfl
  not_abs := by decide
  constants := by decide +kernel

theorem swell_numbers : swell.numbers
    = [("min", 0.0), ("max", 10.0), ("period", 4.0), ("initialProgress", 0.25)] := by
  decide +kernel

theorem swell_printed : ∀ number ∈ swell.numbers,
    Decimal.number? (Toml.floatLayout.render number.2) = some number.2 := by
  rw [swell_numbers]
  decide +kernel

/-- A pair list that gives a bound twice. -/
def overruled : List String :=
  ["min", "1", "max", " 3", "min", "2.0"]

theorem overruled_numbered : Numbered Decimal.number? (pairsOf overruled)
    [("min", 1.0), ("max", 3.0), ("min", 2.0)] := by
  have hone : Decimal.number? "1" = some 1.0 := by decide +kernel
  have hthree : Decimal.number? " 3" = some 3.0 := by decide +kernel
  have htwo : Decimal.number? "2.0" = some 2.0 := by decide +kernel
  exact .cons ⟨rfl, hone⟩ (.cons ⟨rfl, hthree⟩ (.cons ⟨rfl, htwo⟩ .nil))

theorem overruled_read_as_section :
    (swell.Reachable ∧ Flat swell (.wave .pulse) ∧ swell.KeepsPhase)
      ∧ ofPairs Decimal.number? "pulse"
          ["min", "0.0", "max", "10.0", "period", "4.0", "initialProgress", "0.25"] "glow"
        = .ok swell
      ∧ ∃ body : Section Float, body.keys = ["min", "max"]
          ∧ body.get? "min" = some (.float 2.0)
          ∧ (ofPairs Decimal.number? "random" overruled "glow").on []
            = (read [("glow", .table [("random", .table body)])] "glow" "" none).on [] := by
  have hreachable : swell.Reachable := .wave _ (.constant _) (.constant _) (.constant _)
  have hphase : swell.KeepsPhase := by
    show startPhase (startPhase (0.25 : Float) 1.0) 1.0 = startPhase 0.25 1.0
    decide +kernel
  obtain ⟨hreads, hbody, hflat⟩ := pairs_read_as_section (α := Float)
  obtain ⟨hkeys, hvalues⟩ := hbody [("min", 1.0), ("max", 3.0), ("min", 2.0)]
  have hswell := (hflat hreachable swell_flat hphase).2 swell_printed "glow"
  have hlist : pairList Toml.floatLayout.render swell.numbers
      = ["min", "0.0", "max", "10.0", "period", "4.0", "initialProgress", "0.25"] := by
    rw [swell_numbers]
    decide +kernel
  rw [hlist] at hswell
  refine ⟨⟨hreachable, swell_flat, hphase⟩, hswell, _, hkeys.trans (by decide),
    (hvalues "min").trans rfl, ?_⟩
  exact (hreads Decimal.number?).nested (by decide) overruled_numbered "random" "" "glow" _ none [] rfl

end Modulation.Signal

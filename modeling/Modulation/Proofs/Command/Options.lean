import Mathlib.Data.List.Nodup
import Modulation.Command.Options

set_option autoImplicit false

/-! # Giving options

A command line asks for one thing after the other, each time by a flag, a flag with its value, or a
path. `Options.requests` lists what gives some options. Requests with different flags set different
options and can change places (`enter_comm`); what stands between them and asks for nothing is
ignored (`Mixed.take_eq`).

Any options can therefore be given, in any order (`parse_mixed`). -/

namespace Modulation

/-! ## Whole numbers -/

namespace Decimal

theorem digitsValue_toDigits (n : Nat) : digitsValue (Nat.toDigits 10 n) = n := by
  have h := Nat.ofDigitChars_ten_toDigits (n := n)
  rwa [Nat.ofDigitChars_eq_foldl] at h

/-- A text of digits alone is read as the number that they write, if it is a word. -/
theorem word64?_of_digits {text : String} (hsome : text.toList ≠ [])
    (hdigits : ∀ c ∈ text.toList, c.isDigit = true)
    (hsize : digitsValue text.toList < UInt64.size) :
    word64? text = some (UInt64.ofNat (digitsValue text.toList)) := by
  unfold word64?
  split
  · next rest heq =>
    -- A plus sign is no digit.
    have hplus : '+'.isDigit = true := hdigits '+' (heq ▸ List.mem_cons_self)
    simp at hplus
  · simpa [hsome, hsize] using hdigits

/-- A whole number is read as it is written in decimal. -/
theorem word64?_toString (n : UInt64) : word64? (toString n.toNat) = some n := by
  have hchars : (toString n.toNat).toList = Nat.toDigits 10 n.toNat := by simp
  have hvalue : digitsValue (toString n.toNat).toList = n.toNat := by
    rw [hchars, digitsValue_toDigits]
  rw [word64?_of_digits, hvalue, UInt64.ofNat_toNat]
  · rw [hchars]
    exact Nat.toDigits_ne_nil
  · rw [hchars]
    intro c hc
    exact Nat.isDigit_of_mem_toDigits (by decide) (by decide) hc
  · rw [hvalue]
    exact n.toNat_lt

end Decimal

/-! ## Requests -/

/-- One thing that a command line asks for. -/
inductive Request where
  | effect (path : String)
  | ticks (count : UInt64)
  | seed (number : UInt64)
  | check
  | emit (path : String)
  | record (path : String)
  | settings (path : String)
  deriving DecidableEq, Repr

namespace Request

/-- The arguments that make a request. Numbers are written in decimal. -/
def arguments : Request → List String
  | effect path => [path]
  | ticks count => ["--ticks", toString count.toNat]
  | seed number => ["--seed", toString number.toNat]
  | check => ["--check"]
  | emit path => ["--emit", path]
  | record path => ["--record", path]
  | settings path => ["--settings", path]

/-- The flag of a request; the path of an effect has none. -/
def flag? : Request → Option Flag
  | effect _ => none
  | ticks _ => some .ticks
  | seed _ => some .seed
  | check => some .check
  | emit _ => some .emit
  | record _ => some .record
  | settings _ => some .settings

end Request

/-- An argument that is a flag looks like one. -/
theorem looksLikeFlag_of_ofArgument? {argument : String} {flag : Flag}
    (h : Flag.ofArgument? argument = some flag) : looksLikeFlag argument = true := by
  unfold Flag.ofArgument? at h
  split at h
  all_goals first | decide | cases h

theorem ofArgument?_eq_none {argument : String} (h : looksLikeFlag argument = false) :
    Flag.ofArgument? argument = none := by
  cases hflag : Flag.ofArgument? argument with
  | none => rfl
  | some flag => simp [looksLikeFlag_of_ofArgument? hflag] at h

namespace Options

/-- The options with one thing more asked for. -/
def enter (options : Options) : Request → Options
  | .effect path => { options with effect := some path }
  | .ticks count => { options with ticks := some count }
  | .seed number => { options with seed := some number }
  | .check => { options with check := true }
  | .emit path => { options with emit := some path }
  | .record path => { options with record := some path }
  | .settings path => { options with settings := some path }

/-- The requests that give options. -/
def requests (options : Options) : List Request :=
  (options.effect.map .effect).toList ++ (options.ticks.map .ticks).toList
    ++ (options.seed.map .seed).toList ++ (if options.check then [.check] else [])
    ++ (options.emit.map .emit).toList ++ (options.record.map .record).toList
    ++ (options.settings.map .settings).toList

theorem isSome_effect_enter (options : Options) (request : Request) :
    (options.enter request).effect.isSome = (options.effect.isSome || request.flag?.isNone) := by
  cases request <;> simp [enter, Request.flag?]

/-- Requests with different flags can change places. -/
theorem enter_comm {a b : Request} (h : a.flag? ≠ b.flag?) (options : Options) :
    (options.enter a).enter b = (options.enter b).enter a := by
  cases a <;> cases b <;> first | rfl | exact absurd rfl h

theorem foldl_enter_requests (options : Options) :
    options.requests.foldl enter empty = options := by
  obtain ⟨effect, ticks, seed, check, emit, record, settings⟩ := options
  cases effect <;> cases ticks <;> cases seed <;> cases check <;> cases emit <;> cases record
    <;> cases settings <;> rfl

/-- Options are given by at most one request with each flag. -/
theorem nodup_flags_requests (options : Options) : (options.requests.map Request.flag?).Nodup := by
  have hpart : ∀ {β : Type} (request : β → Request) (flag : Option Flag),
      (∀ x, (request x).flag? = flag) → ∀ value : Option β,
        List.Sublist ((value.map request).toList.map Request.flag?) [flag] := by
    intro β request flag hflag value
    cases value <;> simp [hflag]
  have hcheck : List.Sublist ((if options.check then [Request.check] else []).map Request.flag?)
      [some .check] := by
    split <;> simp [Request.flag?]
  have hall : List.Nodup [none, some Flag.ticks, some .seed, some .check, some .emit, some .record,
      some .settings] := by decide
  refine List.Sublist.nodup ?_ hall
  simp only [requests, List.map_append]
  exact ((((((hpart .effect _ (fun _ => rfl) _).append (hpart .ticks _ (fun _ => rfl) _)).append
    (hpart .seed _ (fun _ => rfl) _)).append hcheck).append (hpart .emit _ (fun _ => rfl) _)).append
    (hpart .record _ (fun _ => rfl) _)).append (hpart .settings _ (fun _ => rfl) _)

/-- The order of requests does not matter, if no two of them have the same flag. -/
theorem foldl_enter_perm {requests others : List Request} (h : requests.Perm others)
    (distinct : (requests.map Request.flag?).Nodup) (options : Options) :
    requests.foldl enter options = others.foldl enter options := by
  refine h.foldl_eq' (fun a ha b hb options => ?_) options
  by_cases hflag : a.flag? = b.flag?
  · rw [List.inj_on_of_nodup_map distinct ha hb hflag]
  · exact enter_comm hflag options

/-! ## Taking arguments -/

/-- A request is entered when its arguments are taken. A path names the effect only if it looks like
    no flag and no effect is named yet. -/
theorem take_request {options : Options} {request : Request}
    (hpath : ∀ path, request = .effect path → looksLikeFlag path = false ∧ options.effect = none)
    (rest : List String) :
    options.take (request.arguments ++ rest) = (options.enter request).take rest := by
  cases request with
  | effect path =>
    obtain ⟨hplain, hunnamed⟩ := hpath path rfl
    show options.take (path :: rest) = _
    rw [take, ofArgument?_eq_none hplain]
    simp [takePlain, enter, hplain, hunnamed]
  | ticks count =>
    show (options.setValue .ticks (some (toString count.toNat))).take rest = _
    simp only [setValue, enter, Option.bind_some, Decimal.word64?_toString]
  | seed number =>
    show (options.setValue .seed (some (toString number.toNat))).take rest = _
    simp only [setValue, enter, Option.bind_some, Decimal.word64?_toString]
  | _ => rfl

/-- What looks like a flag and is none is ignored, and so is every plain argument after the path of
    the effect. -/
theorem take_ignored {options : Options} {argument : String}
    (hunknown : Flag.ofArgument? argument = none)
    (h : looksLikeFlag argument = true ∨ options.effect.isSome = true) (rest : List String) :
    options.take (argument :: rest) = options.take rest := by
  rw [take, hunknown]
  rcases h with h | h <;> simp [takePlain, h]

/-- The arguments make the requests, one after the other, and hold nothing else but what is ignored:
    unknown flags between any two of them, and further plain arguments when the effect is named. -/
inductive Mixed : (named : Bool) → List Request → List String → Prop where
  | done {named : Bool} : Mixed named [] []
  | request {named : Bool} {request : Request} {requests : List Request} {arguments : List String}
      (h : Mixed (named || request.flag?.isNone) requests arguments) :
      Mixed named (request :: requests) (request.arguments ++ arguments)
  | unknown {named : Bool} {flag : String} {requests : List Request} {arguments : List String}
      (hflag : looksLikeFlag flag = true) (hunknown : Flag.ofArgument? flag = none)
      (h : Mixed named requests arguments) : Mixed named requests (flag :: arguments)
  | further {argument : String} {requests : List Request} {arguments : List String}
      (hplain : looksLikeFlag argument = false) (h : Mixed true requests arguments) :
      Mixed true requests (argument :: arguments)

/-- Taking mixed arguments enters the requests and nothing else. -/
theorem Mixed.take_eq {named : Bool} {requests : List Request} {arguments : List String}
    (h : Mixed named requests arguments)
    (hpaths : ∀ path, .effect path ∈ requests → looksLikeFlag path = false)
    (distinct : (requests.map Request.flag?).Nodup)
    (hunnamed : named = true → none ∉ requests.map Request.flag?) {options : Options}
    (hnamed : options.effect.isSome = named) :
    options.take arguments = requests.foldl enter options := by
  induction h generalizing options with
  | done => rfl
  | @request named request requests arguments _ ih =>
    obtain ⟨hnew, hdistinct⟩ := List.nodup_cons.1 distinct
    have hpath : ∀ path, request = .effect path →
        looksLikeFlag path = false ∧ options.effect = none := by
      rintro path rfl
      refine ⟨hpaths path List.mem_cons_self, ?_⟩
      cases named with
      | true => exact absurd List.mem_cons_self (hunnamed rfl)
      | false => simpa using hnamed
    rw [take_request hpath, List.foldl_cons]
    refine ih (fun path hmem => hpaths path (List.mem_cons_of_mem _ hmem)) hdistinct ?_ ?_
    · -- If this request names the effect, none after it does.
      intro h
      rcases Bool.or_eq_true_iff.1 h with h | h
      · exact fun hmem => hunnamed h (List.mem_cons_of_mem _ hmem)
      · rwa [Option.isNone_iff_eq_none.1 h] at hnew
    · rw [isSome_effect_enter, hnamed]
  | unknown hflag hunknown _ ih =>
    rw [take_ignored hunknown (.inl hflag)]
    exact ih hpaths distinct hunnamed hnamed
  | further hplain _ ih =>
    rw [take_ignored (ofArgument?_eq_none hplain) (.inr hnamed)]
    exact ih hpaths distinct hunnamed hnamed

theorem effect_of_mem_requests {options : Options} {path : String}
    (h : .effect path ∈ options.requests) : path ∈ options.effect := by
  simpa [requests] using h

/-- Any options can be given, their requests in any order: whatever their values look like, unknown
    flags may stand between the requests, and further plain arguments after the path of the effect.
    The path itself must not look like a flag. -/
theorem parse_mixed {options : Options} {requests : List Request} {arguments : List String}
    (hpath : ∀ path ∈ options.effect, looksLikeFlag path = false)
    (horder : requests.Perm options.requests) (harguments : Mixed false requests arguments) :
    parse arguments = options := by
  have distinct : (requests.map Request.flag?).Nodup :=
    (horder.map Request.flag?).nodup_iff.2 options.nodup_flags_requests
  have hpaths : ∀ path, .effect path ∈ requests → looksLikeFlag path = false :=
    fun path hmem => hpath path (effect_of_mem_requests (horder.mem_iff.1 hmem))
  calc parse arguments = requests.foldl enter empty :=
        harguments.take_eq hpaths distinct (nomatch ·) rfl
    _ = options.requests.foldl enter empty := foldl_enter_perm horder distinct empty
    _ = options := foldl_enter_requests options

/-- Options with paths that look like flags. -/
def misleading : Options :=
  ⟨some "-fx.toml", some 12, some 18446744073709551615, true, some "--check", some "--ticks",
    some ""⟩

theorem misleading_parsed :
    ((∀ path ∈ misleading.effect, looksLikeFlag path = false)
        ∧ [Request.record "--ticks", .check, .seed 18446744073709551615, .effect "-fx.toml",
            .emit "--check", .settings "", .ticks 12].Perm misleading.requests
        ∧ Mixed false
            [.record "--ticks", .check, .seed 18446744073709551615, .effect "-fx.toml",
              .emit "--check", .settings "", .ticks 12]
            ["--verbose", "--record", "--ticks", "--check", "--seed", "18446744073709551615", "--",
              "-fx.toml", "7", "--emit", "--check", "--settings", "", "--ticks", "12", "other"])
      ∧ parse ["--verbose", "--record", "--ticks", "--check", "--seed", "18446744073709551615",
          "--", "-fx.toml", "7", "--emit", "--check", "--settings", "", "--ticks", "12", "other"]
          = misleading := by
  have hpath : ∀ path ∈ misleading.effect, looksLikeFlag path = false := by
    rintro path ⟨⟩
    decide
  have horder : [Request.record "--ticks", .check, .seed 18446744073709551615,
      .effect "-fx.toml", .emit "--check", .settings "", .ticks 12].Perm misleading.requests := by
    decide
  have harguments : Mixed false
      [.record "--ticks", .check, .seed 18446744073709551615, .effect "-fx.toml",
        .emit "--check", .settings "", .ticks 12]
      ["--verbose", "--record", "--ticks", "--check", "--seed", "18446744073709551615", "--",
        "-fx.toml", "7", "--emit", "--check", "--settings", "", "--ticks", "12", "other"] :=
    .unknown (by decide) rfl <| .request <| .request <| .request <| .unknown (by decide) rfl <|
      .request <| .further (by decide) <| .request <| .request <| .request <|
      .further (by decide) .done
  exact ⟨⟨hpath, horder, harguments⟩, parse_mixed hpath horder harguments⟩

end Options

end Modulation

import Modulation.Proofs.Command.Options

set_option autoImplicit false

/-! # Rejected flags

A number that is no word, and a value that is missing at the end of a command line, are rejected:
the flag sets nothing. What it had set before is lost all the same, since the last use of a flag
counts, but nothing else is (`take_rejected`). A use of a flag after it makes the rejected one
unseen (`foldl_takeGroup_unset`).

A rejected flag does therefore no harm exactly when the flag is used again after it, or had set
nothing before (`parse_rejected`). -/

namespace Modulation

/-! ## Groups of arguments -/

/-- The argument that is a flag. -/
def Flag.argument : Flag → String
  | check => "--check"
  | ticks => "--ticks"
  | seed => "--seed"
  | emit => "--emit"
  | record => "--record"
  | settings => "--settings"

/-- Arguments that are taken together: a flag that needs no value, a flag with its value, whatever
    that is, or an argument that is no known flag. -/
inductive Group where
  | check
  | valued (flag : Flag) (value : String) (takesValue : flag ≠ .check)
  | plain (argument : String) (unknown : Flag.ofArgument? argument = none)

namespace Group

/-- The arguments of a group. -/
def arguments : Group → List String
  | check => [Flag.check.argument]
  | valued flag value _ => [flag.argument, value]
  | plain argument _ => [argument]

/-- The flag that a group uses. -/
def flag? : Group → Option Flag
  | check => some .check
  | valued flag _ _ => some flag
  | plain _ _ => none

end Group

/-- The arguments of groups, one group after the other. -/
def commandLine (groups : List Group) : List String :=
  groups.flatMap Group.arguments

/-- The flags that groups use. -/
def flagsUsed (groups : List Group) : List Flag :=
  groups.filterMap Group.flag?

theorem mem_flagsUsed_cons {flag : Flag} {group : Group} {groups : List Group} :
    flag ∈ flagsUsed (group :: groups) ↔ group.flag? = some flag ∨ flag ∈ flagsUsed groups := by
  simp [flagsUsed]

namespace Options

variable {flag : Flag} {options : Options}

/-- Takes the arguments of a group. -/
def takeGroup (options : Options) : Group → Options
  | .check => { options with check := true }
  | .valued flag value _ => options.setValue flag (some value)
  | .plain argument _ => options.takePlain argument

theorem take_valued (takesValue : flag ≠ .check) (value : String) (rest : List String) :
    options.take (flag.argument :: value :: rest)
      = (options.setValue flag (some value)).take rest := by
  cases flag with
  | check => exact absurd rfl takesValue
  | _ => rfl

theorem take_arguments (group : Group) (rest : List String) :
    options.take (group.arguments ++ rest) = (options.takeGroup group).take rest := by
  cases group with
  | check => rfl
  | valued flag value takesValue => exact take_valued takesValue value rest
  | plain argument unknown =>
    show options.take (argument :: rest) = _
    rw [take, unknown]
    rfl

/-- The groups of a command line are taken one after the other. -/
theorem take_commandLine_append (options : Options) (groups : List Group) (rest : List String) :
    options.take (commandLine groups ++ rest) = (groups.foldl takeGroup options).take rest := by
  induction groups generalizing options with
  | nil => rfl
  | cons group groups ih =>
    rw [commandLine, List.flatMap_cons, List.append_assoc, take_arguments, List.foldl_cons]
    exact ih _

theorem take_commandLine (options : Options) (groups : List Group) :
    options.take (commandLine groups) = groups.foldl takeGroup options := by
  have h := take_commandLine_append options groups []
  rwa [List.append_nil, take] at h

theorem parse_commandLine (groups : List Group) :
    parse (commandLine groups) = groups.foldl takeGroup empty :=
  take_commandLine empty groups

/-! ## What a flag has set -/

/-- Whether a flag has set something. -/
def sets (options : Options) : Flag → Bool
  | .check => options.check
  | .ticks => options.ticks.isSome
  | .seed => options.seed.isSome
  | .emit => options.emit.isSome
  | .record => options.record.isSome
  | .settings => options.settings.isSome

/-- The options without what a flag has set. -/
def unset (options : Options) : Flag → Options
  | .check => { options with check := false }
  | .ticks => { options with ticks := none }
  | .seed => { options with seed := none }
  | .emit => { options with emit := none }
  | .record => { options with record := none }
  | .settings => { options with settings := none }

theorem unset_eq_self_iff : options.unset flag = options ↔ options.sets flag = false := by
  obtain ⟨effect, ticks, seed, check, emit, record, settings⟩ := options
  cases flag <;> simp [unset, sets] <;> exact eq_comm

theorem takePlain_unset (argument : String) :
    (options.unset flag).takePlain argument = (options.takePlain argument).unset flag := by
  have heffect : (options.unset flag).effect = options.effect := by cases flag <;> rfl
  unfold takePlain
  rw [heffect]
  split
  · rfl
  · cases flag <;> rfl

theorem sets_takePlain (argument : String) :
    (options.takePlain argument).sets flag = options.sets flag := by
  unfold takePlain
  split
  · rfl
  · cases flag <;> rfl

/-- A group that does not use the flag does the same when the flag is unset, and keeps what the flag
    has set. -/
theorem takeGroup_other {group : Group} (h : group.flag? ≠ some flag) :
    (options.unset flag).takeGroup group = (options.takeGroup group).unset flag
      ∧ (options.takeGroup group).sets flag = options.sets flag := by
  cases group with
  | check => cases flag <;> first | exact ⟨rfl, rfl⟩ | exact absurd rfl h
  | valued used value _ =>
    cases used <;> cases flag <;> first | exact ⟨rfl, rfl⟩ | exact absurd rfl h
  | plain argument _ => exact ⟨takePlain_unset argument, sets_takePlain argument⟩

/-- A group that uses the flag does not see what the flag had set before. -/
theorem takeGroup_same {group : Group} (h : group.flag? = some flag) :
    (options.unset flag).takeGroup group = options.takeGroup group := by
  cases group with
  | check => cases h; rfl
  | valued _ value takesValue =>
    cases h
    cases flag with
    | check => exact absurd rfl takesValue
    | _ => rfl
  | plain argument _ => cases h

/-- What a flag had set before some groups is seen after them only if they do not use the flag. -/
theorem foldl_takeGroup_unset (groups : List Group) :
    groups.foldl takeGroup (options.unset flag)
      = if flag ∈ flagsUsed groups then groups.foldl takeGroup options
        else (groups.foldl takeGroup options).unset flag := by
  induction groups generalizing options with
  | nil => rfl
  | cons group groups ih =>
    simp only [List.foldl_cons]
    by_cases h : group.flag? = some flag
    · rw [takeGroup_same h, if_pos (mem_flagsUsed_cons.2 (.inl h))]
    · rw [(takeGroup_other h).1, ih]
      simp only [mem_flagsUsed_cons, h, false_or]

theorem sets_foldl_takeGroup {groups : List Group} (h : flag ∉ flagsUsed groups) :
    (groups.foldl takeGroup options).sets flag = options.sets flag := by
  induction groups generalizing options with
  | nil => rfl
  | cons group groups ih =>
    obtain ⟨hother, hrest⟩ := not_or.1 (mem_flagsUsed_cons.not.1 h)
    rw [List.foldl_cons, ih hrest, (takeGroup_other hother).2]

/-! ## Rejected uses of a flag -/

/-- The arguments of a use of the flag that is rejected, where the groups follow it. -/
inductive Rejected (flag : Flag) : (later : List Group) → (arguments : List String) → Prop where
  /-- The value should be a number and is none. -/
  | number {later : List Group} {value : String} (hflag : flag = .ticks ∨ flag = .seed)
      (hvalue : Decimal.word64? value = none) : Rejected flag later [flag.argument, value]
  /-- The command line ends before the value. -/
  | missing (takesValue : flag ≠ .check) : Rejected flag [] [flag.argument]

/-- A rejected use of a flag unsets it, and does nothing else. -/
theorem take_rejected {later : List Group} {arguments : List String}
    (h : Rejected flag later arguments) :
    options.take (arguments ++ commandLine later)
      = (options.unset flag).take (commandLine later) := by
  cases h with
  | @number _ value hflag hvalue =>
    show options.take (flag.argument :: value :: commandLine later) = _
    rcases hflag with rfl | rfl
    all_goals
      rw [take_valued (by decide)]
      simp only [setValue, unset, Option.bind_some, hvalue]
  | missing takesValue =>
    cases flag with
    | check => exact absurd rfl takesValue
    | _ => rfl

/-- A rejected use of a flag leaves the options as they are without it, except that the flag is
    unset if it is not used again. So it does no harm exactly when the flag is used again or had set
    nothing before. -/
theorem parse_rejected (earlier : List Group) {later : List Group} {arguments : List String}
    (h : Rejected flag later arguments) :
    parse (commandLine earlier ++ arguments ++ commandLine later)
        = (if flag ∈ flagsUsed later then parse (commandLine (earlier ++ later))
          else (parse (commandLine (earlier ++ later))).unset flag)
      ∧ (parse (commandLine earlier ++ arguments ++ commandLine later)
            = parse (commandLine (earlier ++ later))
          ↔ flag ∈ flagsUsed later ∨ (parse (commandLine earlier)).sets flag = false) := by
  have hwith : parse (commandLine earlier ++ arguments ++ commandLine later)
      = later.foldl takeGroup ((parse (commandLine earlier)).unset flag) :=
    calc parse (commandLine earlier ++ arguments ++ commandLine later)
        = (earlier.foldl takeGroup empty).take (arguments ++ commandLine later) := by
          rw [List.append_assoc]
          exact take_commandLine_append empty earlier _
      _ = ((parse (commandLine earlier)).unset flag).take (commandLine later) := by
          rw [take_rejected h, parse_commandLine]
      _ = later.foldl takeGroup ((parse (commandLine earlier)).unset flag) :=
          take_commandLine _ later
  have hwithout : parse (commandLine (earlier ++ later))
      = later.foldl takeGroup (parse (commandLine earlier)) := by
    rw [parse_commandLine, List.foldl_append, ← parse_commandLine]
  rw [hwith, hwithout, foldl_takeGroup_unset]
  refine ⟨rfl, ?_⟩
  by_cases hused : flag ∈ flagsUsed later
  · simp [hused]
  · simp only [hused, if_false, false_or, unset_eq_self_iff, sets_foldl_takeGroup hused]

/-- Numbers that are given again after one was rejected, and a path that looks like a flag. -/
theorem retried_rejected :
    Rejected .ticks [.valued .seed "7" (by decide), .valued .ticks "+6" (by decide), .check]
        ["--ticks", "lots"]
      ∧ parse ["fx.toml", "--ticks", "5", "--emit", "--ticks", "--ticks", "lots", "--seed", "7",
            "--ticks", "+6", "--check"]
          = parse ["fx.toml", "--ticks", "5", "--emit", "--ticks", "--seed", "7", "--ticks", "+6",
            "--check"] := by
  have hrejected : Rejected .ticks
      [.valued .seed "7" (by decide), .valued .ticks "+6" (by decide), .check]
      ["--ticks", "lots"] := .number (.inl rfl) (by decide)
  refine ⟨hrejected, ?_⟩
  exact (parse_rejected [.plain "fx.toml" rfl, .valued .ticks "5" (by decide),
    .valued .emit "--ticks" (by decide)] hrejected).2.2 (.inl (by decide))

/-- Nothing is given again after the rejected number, and the five ticks are lost. -/
theorem forgotten_rejected :
    Rejected .ticks [] ["--ticks", "lots"]
      ∧ commandLine [.plain "fx.toml" rfl, .valued .ticks "5" (by decide)]
          = ["fx.toml", "--ticks", "5"]
      ∧ parse ["fx.toml", "--ticks", "5"]
          = ⟨some "fx.toml", some 5, none, false, none, none, none⟩
      ∧ parse ["fx.toml", "--ticks", "5", "--ticks", "lots"]
          = ⟨some "fx.toml", none, none, false, none, none, none⟩ :=
  ⟨.number (.inl rfl) (by decide), rfl, by decide, by decide⟩

end Options

end Modulation

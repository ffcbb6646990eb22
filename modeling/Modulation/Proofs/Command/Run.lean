import Mathlib
import Modulation.Command.Basic
import Modulation.Proofs.Command.Storage
import Modulation.Proofs.Effect.Reachable

set_option autoImplicit false

/-! # What a run reports

A run refreshes its effect once in every tick. What it records and prints is read off the effect
after each refresh, and neither is looked at again: `step` says so of one tick, and the lemmas on
`steps` of any number of them.

`Reports` lists what a run leaves behind. Every run of an effect leaves it behind, and the command
prints and writes just that (`run_runEffect`). -/

namespace Modulation

/-! ## The effect at each tick -/

namespace Effect

variable {α σ : Type} [Numeric α] [RandomSource σ α]

/-- The effect a number of ticks later. -/
def later (effect : Effect α) (source : σ) (ticks : Nat) : Effect α :=
  (effect.refreshTimes ticks source).1

theorem later_succ (effect : Effect α) (source : σ) (ticks : Nat) :
    effect.later source (ticks + 1)
      = (effect.refresh source).1.later (effect.refresh source).2 ticks := rfl

@[simp] theorem tick_later (effect : Effect α) (source : σ) (ticks : Nat) :
    (effect.later source ticks).tick = effect.tick + ticks := by
  induction ticks generalizing effect source with
  | zero => rfl
  | succ ticks ih =>
    rw [later_succ, ih]
    show effect.tick + 1 + ticks = effect.tick + (ticks + 1)
    omega

/-- The fields keep their names and their order. -/
theorem keys_later (effect : Effect α) (source : σ) (ticks : Nat) :
    (effect.later source ticks).scalars.keys = effect.scalars.keys
      ∧ (effect.later source ticks).vectors.keys = effect.vectors.keys := by
  induction ticks generalizing effect source with
  | zero => exact ⟨rfl, rfl⟩
  | succ ticks ih =>
    obtain ⟨hscalars, hvectors⟩ := ih (effect.refresh source).1 (effect.refresh source).2
    rw [later_succ, hscalars, hvectors]
    exact ⟨keys_refreshEach _ _ _, keys_refreshEach _ _ _⟩

@[simp] theorem samples_zero (effect : Effect α) (source : σ) :
    (effect.samples 0 source).1 = [] := rfl

@[simp] theorem samples_succ (effect : Effect α) (source : σ) (ticks : Nat) :
    (effect.samples (ticks + 1) source).1
      = (effect.refresh source).1
        :: ((effect.refresh source).1.samples ticks (effect.refresh source).2).1 := rfl

theorem samples_eq (effect : Effect α) (source : σ) (ticks : Nat) :
    (effect.samples ticks source).1
      = (List.range ticks).map fun tick => effect.later source (tick + 1) := by
  induction ticks generalizing effect source with
  | zero => rfl
  | succ ticks ih =>
    rw [samples_succ, ih, List.range_succ_eq_map, List.map_cons, List.map_map]
    rfl

/-! ## Records -/

theorem length_records_later (effect : Effect α) (source : σ) (ticks : Nat) :
    (effect.later source ticks).records.length = effect.size := by
  obtain ⟨hscalars, hvectors⟩ := effect.keys_later source ticks
  have hlength := congrArg List.length (effect.later source ticks).fields_records
  rw [hscalars, hvectors] at hlength
  simpa [Entries.keys, size] using hlength

end Effect

/-- Where each item has a block of the same size, the blocks of a list lie one after the other. -/
theorem take_drop_flatMap {β γ : Type} {block : β → List γ} {size : Nat} {items : List β}
    (hsize : ∀ item ∈ items, (block item).length = size) {i : Nat} {item : β}
    (hitem : items[i]? = some item) :
    ((items.flatMap block).drop (i * size)).take size = block item := by
  induction items generalizing i with
  | nil => simp at hitem
  | cons first rest ih =>
    obtain ⟨hfirst, hrest⟩ := List.forall_mem_cons.1 hsize
    cases i with
    | zero =>
      obtain rfl : first = item := by simpa using hitem
      simp [hfirst]
    | succ i =>
      rw [List.flatMap_cons, Nat.succ_mul, Nat.add_comm, ← List.drop_drop,
        List.drop_left' hfirst]
      exact ih hrest (by simpa using hitem)

namespace Run

variable {σ : Type} [RandomSource σ Float]

/-! ## Ticks -/

/-- A tick refreshes the effect, and then looks at it. -/
theorem step_eq (settings : Settings) (recording : Bool) (run : Run σ) :
    step settings recording run
      = { effect := (run.effect.refresh run.source).1
          source := (run.effect.refresh run.source).2
          records :=
            if recording then run.records ++ (run.effect.refresh run.source).1.records
            else run.records
          printed :=
            if settings.prints (run.effect.refresh run.source).1.tick then
              run.printed.push (run.effect.refresh run.source).1.statusLine
            else run.printed } := rfl

/-- Neither the records nor the lines have a part in the effect. -/
theorem effect_steps (settings : Settings) (recording : Bool) (ticks : Nat) (run : Run σ) :
    (steps settings recording ticks run).effect = run.effect.later run.source ticks := by
  induction ticks generalizing run with
  | zero => rfl
  | succ ticks ih => exact ih (step settings recording run)

theorem records_steps (settings : Settings) (recording : Bool) (ticks : Nat) (run : Run σ) :
    (steps settings recording ticks run).records.toList
      = run.records.toList
        ++ if recording then (run.effect.samples ticks run.source).1.flatMap Effect.records
          else [] := by
  induction ticks generalizing run with
  | zero => simp [steps]
  | succ ticks ih =>
    rw [steps, ih, step_eq]
    cases recording <;> simp

theorem printed_steps (settings : Settings) (recording : Bool) (ticks : Nat) (run : Run σ) :
    (steps settings recording ticks run).printed.toList
      = run.printed.toList
        ++ ((run.effect.samples ticks run.source).1.filter
            fun effect => settings.prints effect.tick).map Effect.statusLine := by
  induction ticks generalizing run with
  | zero => simp [steps]
  | succ ticks ih =>
    rw [steps, ih, step_eq]
    by_cases h : settings.prints (run.effect.refresh run.source).1.tick = true <;> simp [h]

/-! ## Whole runs -/

/-- What a run of an effect over a number of ticks leaves behind. The effect is refreshed once in
    every tick. A recorder gets one record for each field in every tick, with the tick and the value
    after the refresh, signals before vector signals in their order. The status lines are those of
    the ticks that are multiples of `every`, if that is not zero. -/
structure Reports (ticks every : Nat) (recording : Bool) (effect : Effect Float) (source : σ)
    (run : Run σ) : Prop where
  refreshed : run.effect = effect.later source ticks
  unrecorded : recording = false → run.records = #[]
  count : recording = true → run.records.size = ticks * effect.size
  block : recording = true → ∀ tick < ticks, ∀ state, state = effect.later source (tick + 1) →
    (run.records.toList.drop (tick * effect.size)).take effect.size
        = state.scalars.map (fun field => ⟨state.tick, field.1, .scalar field.2.value⟩)
          ++ state.vectors.map (fun field => ⟨state.tick, field.1, .vector field.2.value⟩)
      ∧ state.tick = effect.tick + (tick + 1)
      ∧ state.scalars.keys = effect.scalars.keys ∧ state.vectors.keys = effect.vectors.keys
  printed : run.printed.toList
    = (((List.range ticks).map fun tick => effect.later source (tick + 1)).filter
        fun state => decide (every ≠ 0 ∧ every ∣ state.tick)).map Effect.statusLine

/-- The ticks of a run stay below `2 ^ 64`. -/
theorem tick_complete_lt {effect : Effect Float} (hloaded : effect.tick = 0) (settings : Settings)
    (recording : Bool) (source : σ) :
    (complete settings recording effect source).effect.tick < UInt64.size := by
  rw [complete, effect_steps, Effect.tick_later]
  show effect.tick + settings.ticks.toNat < _
  rw [hloaded, Nat.zero_add]
  exact settings.ticks.toNat_lt

theorem prints_eq (settings : Settings) (tick : Nat) :
    settings.prints tick
      = decide (settings.printEvery.toNat ≠ 0 ∧ settings.printEvery.toNat ∣ tick) := by
  have hzero : settings.printEvery = 0 ↔ settings.printEvery.toNat = 0 := by
    rw [← UInt64.toNat_inj]
    rfl
  rw [Bool.eq_iff_iff]
  simp [Settings.prints, hzero, Nat.dvd_iff_mod_eq_zero]

theorem reports_complete (settings : Settings) (recording : Bool) (effect : Effect Float)
    (source : σ) :
    Reports settings.ticks.toNat settings.printEvery.toNat recording effect source
      (complete settings recording effect source) where
  refreshed := effect_steps settings recording _ _
  unrecorded hnone := by
    have hrecords := records_steps settings recording settings.ticks.toNat (start effect source)
    rw [hnone] at hrecords
    rw [hnone]
    exact Array.toList_inj.1 hrecords
  count hrecording := by
    have hrecords := records_steps settings recording settings.ticks.toNat (start effect source)
    rw [hrecording, if_pos rfl, Effect.samples_eq] at hrecords
    rw [hrecording, complete, ← Array.length_toList, hrecords]
    simp [start, List.length_flatMap, Effect.length_records_later, Function.comp_def]
  block hrecording tick htick state hstate := by
    have hrecords := records_steps settings recording settings.ticks.toNat (start effect source)
    rw [hrecording, if_pos rfl, Effect.samples_eq] at hrecords
    obtain ⟨hscalars, hvectors⟩ := effect.keys_later source (tick + 1)
    refine ⟨?_, ?_, ?_, ?_⟩
    · have hitem : ((List.range settings.ticks.toNat).map
          fun tick => effect.later source (tick + 1))[tick]? = some state := by
        simp [hstate, htick]
      have hsize : ∀ item ∈ (List.range settings.ticks.toNat).map
          fun tick => effect.later source (tick + 1), item.records.length = effect.size := by
        intro item hmem
        obtain ⟨tick, -, rfl⟩ := List.mem_map.1 hmem
        exact effect.length_records_later source _
      rw [hrecording, complete, hrecords]
      exact take_drop_flatMap hsize hitem
    · rw [hstate, Effect.tick_later]
    · rw [hstate, hscalars]
    · rw [hstate, hvectors]
  printed := by
    have hprinted := printed_steps settings recording settings.ticks.toNat (start effect source)
    rw [Effect.samples_eq] at hprinted
    rw [complete, hprinted]
    simp only [prints_eq]
    rfl

end Run

namespace Command

open Modulation.Run

/-- The source from which a run draws: that of its seed, if there is one. -/
def startSource (settings : Settings) (source : SeededSource) : SeededSource :=
  (settings.seed.map SeededSource.ofSeed).getD source

/-- A file that was written can be written again. -/
theorem writeTo_again {path : Option String} {content : String} {directory created : Directory}
    (hcreated : (writeTo path content : StateM Directory Bool).run directory = (true, created))
    (last : String) : ((writeTo path last : StateM Directory Bool).run created).1 = true := by
  cases path with
  | none => rfl
  | some path =>
    have hwrite : directory.write path content = (true, created) := hcreated
    obtain ⟨hlast, hagain⟩ := Directory.write_write (congrArg Prod.fst hwrite) last
    show (created.write path last).1 = true
    rw [hwrite] at hagain
    rw [hagain, hlast]

/-- The command prints the lines of a run, writes its records where they are asked for, and then its
    effect. A recording that was created takes the records. -/
theorem run_runEffect {options : Options} {settings : Settings} {source : SeededSource}
    {effect : Effect Float} {issues : Config.IssueLog} {directory created recorded emitted : Directory}
    {written : Bool}
    (hcreated : (writeTo options.record "" : StateM Directory Bool).run directory = (true, created))
    {run : Run SeededSource}
    (hrun : run = complete settings options.record.isSome effect (startSource settings source))
    (hrecorded : ((writeTo options.record (recordText run.records.toList) :
      StateM Directory Bool).run created).2 = recorded)
    (hemitted : (writeTo options.emit (Toml.render run.effect.toSection) :
      StateM Directory Bool).run recorded = (written, emitted)) :
    (runEffect options settings source effect issues : StateM Directory Outcome).run directory
      = (⟨run.printed.toList, issues, if written then none else options.emit.map .notWritten⟩,
        emitted) := by
  have hkept : (writeTo options.record (recordText run.records.toList) :
      StateM Directory Bool).run created = (true, recorded) :=
    Prod.ext (writeTo_again hcreated _) hrecorded
  -- Once the recording is created, the run is carried out, recorded and then written.
  have hstart : (runEffect options settings source effect issues : StateM Directory Outcome).run
        directory
      = (writeTo options.record (recordText run.records.toList) >>= fun kept =>
          if !kept then pure ⟨[], issues, options.record.map .notRecorded⟩
          else writeTo options.emit (Toml.render run.effect.toSection) >>= fun written =>
            if written then pure ⟨run.printed.toList, issues, none⟩
            else pure ⟨run.printed.toList, issues, options.emit.map .notWritten⟩ :
          StateM Directory Outcome).run created := by
    rw [hrun, runEffect, StateT.run_bind, hcreated]
    rfl
  have hrest : (runEffect options settings source effect issues : StateM Directory Outcome).run
        directory
      = (writeTo options.emit (Toml.render run.effect.toSection) >>= fun written =>
          if written then pure ⟨run.printed.toList, issues, none⟩
          else pure ⟨run.printed.toList, issues, options.emit.map .notWritten⟩ :
          StateM Directory Outcome).run recorded := by
    rw [hstart, StateT.run_bind, hkept]
    rfl
  rw [hrest, StateT.run_bind, hemitted]
  cases written <;> rfl

/-- A run refreshes its effect once in every tick, gives a recorder the values of all fields after
    each refresh, and prints the status lines of the ticks that are multiples of `print_every`. The
    effect in which it ends is the same with and without a recorder, and whichever lines are
    printed. The command prints the lines of such a run, from the source of the seed if one is set,
    records its records, and writes the effect in which it ends. -/
theorem runs_reported :
    (∀ {σ : Type} [RandomSource σ Float] (settings : Settings) (recording : Bool)
        (effect : Effect Float) (source : σ),
      Reports settings.ticks.toNat settings.printEvery.toNat recording effect source
          (complete settings recording effect source)
        ∧ ∀ (other : Settings) (observed : Bool), other.ticks = settings.ticks →
          (complete other observed effect source).effect
            = (complete settings recording effect source).effect)
      ∧ ∀ {options : Options} {settings : Settings} {source : SeededSource} {effect : Effect Float}
          {issues : Config.IssueLog} {directory created recorded emitted : Directory}
          {written : Bool} {run : Run SeededSource},
        (writeTo options.record "" : StateM Directory Bool).run directory = (true, created) →
        run = complete settings options.record.isSome effect (startSource settings source) →
        ((writeTo options.record (recordText run.records.toList) :
          StateM Directory Bool).run created).2 = recorded →
        (writeTo options.emit (Toml.render run.effect.toSection) :
          StateM Directory Bool).run recorded = (written, emitted) →
        (runEffect options settings source effect issues : StateM Directory Outcome).run directory
          = (⟨run.printed.toList, issues, if written then none else options.emit.map .notWritten⟩,
            emitted) := by
  refine ⟨fun settings recording effect source => ⟨?_, ?_⟩,
    fun hcreated hrun hrecorded hemitted => run_runEffect hcreated hrun hrecorded hemitted⟩
  · exact reports_complete settings recording effect source
  · intro other observed hticks
    have hother := (reports_complete other observed effect source).refreshed
    rw [hother, hticks, (reports_complete settings recording effect source).refreshed]

/-- A field that draws beside one that does not. -/
def flashing : Effect Float :=
  ⟨[("noise", Signal.random (.constant 0.0) (.constant 1.0)), ("size", .constant 2.5)], [], 0⟩

/-- Three ticks, of which the even ones are printed. -/
def threeTicks : Settings :=
  ⟨3, some 7, 2⟩

/-- The options that ask for a recording. -/
def recordingOptions : Options :=
  { Options.empty with record := some "log" }

theorem flashing_reported :
    ({ threeTicks with printEvery := 0 }.ticks = threeTicks.ticks
        ∧ (writeTo recordingOptions.record "" : StateM Directory Bool).run Directory.empty
          = (true, (Directory.empty.write "log" "").2))
      ∧ (complete threeTicks true flashing (SeededSource.ofSeed 7)).records.size = 6
      ∧ (complete threeTicks true flashing (SeededSource.ofSeed 7)).printed.toList
          = [(flashing.later (SeededSource.ofSeed 7) 2).statusLine]
      ∧ (complete { threeTicks with printEvery := 0 } false flashing
            (SeededSource.ofSeed 7)).effect
          = (complete threeTicks true flashing (SeededSource.ofSeed 7)).effect
      ∧ ∃ directory, (runEffect recordingOptions threeTicks (SeededSource.ofSeed 0) flashing [] :
            StateM Directory Outcome).run Directory.empty
          = (⟨(complete threeTicks true flashing (SeededSource.ofSeed 7)).printed.toList, [], none⟩,
            directory) := by
  have hcreated : (writeTo recordingOptions.record "" : StateM Directory Bool).run Directory.empty
      = (true, (Directory.empty.write "log" "").2) := by
    have hwritten : (Directory.empty.write "log" "").1 = true := by cbv
    exact Prod.ext hwritten rfl
  obtain ⟨hruns, hcommand⟩ := runs_reported
  obtain ⟨hreports, hsame⟩ := hruns threeTicks true flashing (SeededSource.ofSeed 7)
  refine ⟨⟨rfl, hcreated⟩, hreports.count rfl, ?_, hsame _ _ rfl, _, hcommand hcreated rfl rfl rfl⟩
  rw [hreports.printed]
  simp [threeTicks, flashing, List.range_succ]

end Command

end Modulation

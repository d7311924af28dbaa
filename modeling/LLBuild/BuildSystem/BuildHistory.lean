import LLBuild.BuildSystem.Callbacks

/-!
# Commands over several builds

A command lives as long as the process, and so do the two flags by which it decides whether it
may update its result without being executed: `hasPriorResult` is set when a build provides a
successful result, `canUpdateIfNewer` is cleared when an input is a missing output, and the start
of a build resets neither of them.

What a build does is what it does to a fresh command with these two flags (`afterInputs_eq`), so
over a sequence of builds the flags are the disjunction and the conjunction of what the builds
have contributed (`builds_flags`).
-/

namespace LLBuild

open Option

open BinaryCoding BuildValue

namespace BuildSystem

namespace ExternalCommand

/-- A build in which the task of the command is run: the result recorded for the command
immediately before, with the signature it was made with, the values the command is provided with,
and what the job finds. -/
structure BuildRun where
  recorded : Option (UInt64 × BuildValue)
  provided : List (ℕ × Bytes × BuildValue)
  isCancelled : Bool := false
  shouldCommandStart : Bool := true
  execution : Execution

variable (c : ExternalCommand) (signature : UInt64)

/-- The value that the engine provides as the prior one: the recorded one, if it was made with
the signature of the command. -/
def BuildRun.prior (b : BuildRun) : Option BuildValue :=
  b.recorded.bind (fun (recordedSignature, value) =>
    if recordedSignature = signature then some value else none)

variable (s : State)

/-- The state of the command when its inputs are there. -/
def afterInputs (b : BuildRun) :
    Option State :=
  let s := start s
  let s := match b.prior signature with
    | some value => providePriorValue s value
    | none => s
  c.provideValues s b.provided

/-- A build: the state of the command after it, what is reported and the value of the command. -/
def build (b : BuildRun) :
    Option (State × List Callback × BuildValue) :=
  (c.afterInputs signature s b).bind (fun s =>
    (CommandTask.job b.isCancelled b.shouldCommandStart (c.execute s b.execution)).map
      (fun result => (s, result)))

/-- The state of the command after a sequence of builds. -/
def builds (bs : List BuildRun) :
    Option State :=
  bs.foldlM (fun s b => (c.build signature s b).map Prod.fst) s

namespace BuildRun

/-- The recorded result is a successful command with the same signature. -/
def priorSucceeded (b : BuildRun) : Bool :=
  (b.prior signature).any (fun value => value.isSuccessfulCommand)

/-- No input is a missing output. -/
def noMissingOutput (b : BuildRun) : Bool :=
  b.provided.all (fun (_, _, value) => value.kind ≠ .missingOutput)

end BuildRun

/-! ### The flags -/

namespace State

/-- The state with other flags. -/
def setFlags (canUpdateIfNewer hasPriorResult : Bool) (s : State) : State :=
  { s with canUpdateIfNewer := canUpdateIfNewer, hasPriorResult := hasPriorResult }

end State

variable (s : State)

/-- An input clears a flag if it is a missing output, and what else it does to the command does
not depend on the flags. -/
theorem provideValue_setFlags
    (update prior : Bool) (inputID : ℕ) (key : Bytes) (value : BuildValue) :
  c.provideValue (s.setFlags update prior) inputID key value
    = (c.provideValue s inputID key value).map
      (State.setFlags (update && (value.kind ≠ .missingOutput : Bool)) prior)
  := by
  rw [provideValue, provideValue, getSkipValueForInput]
  cases value.kind <;> simp [State.setFlags]
  -- Only a missing input is left, which may be allowed.
  split_ifs <;> simp [State.setFlags]

open BuildRun

theorem provideValues_setFlags (update prior : Bool) (provided : List (ℕ × Bytes × BuildValue)) :
  c.provideValues (s.setFlags update prior) provided
    = (c.provideValues s provided).map (State.setFlags
      (update && provided.all (fun (_, _, value) => value.kind ≠ .missingOutput)) prior)
  := by
  induction provided generalizing s update with
  | nil => simp [provideValues]
  | cons first provided ih =>
    obtain ⟨inputID, key, value⟩ := first
    have hcons (s : State) : c.provideValues s ((inputID, key, value) :: provided)
        = (c.provideValue s inputID key value).bind (c.provideValues · provided) :=
      List.foldlM_cons
    rw [hcons, hcons, provideValue_setFlags]
    cases c.provideValue s inputID key value with
    | none => rfl
    | some next =>
      rw [map_some, bind_some, bind_some, ih, List.all_cons, Bool.and_assoc]

/-- What a command knows when its inputs are there is what a fresh command does, but for the
flags. -/
theorem afterInputs_eq (b : BuildRun) :
  c.afterInputs signature s b = (c.provideValues {} b.provided).map (State.setFlags
    (s.canUpdateIfNewer && b.noMissingOutput) (s.hasPriorResult || b.priorSucceeded signature))
  := by
  have hstart : start s = State.setFlags s.canUpdateIfNewer s.hasPriorResult {} := rfl
  rw [afterInputs, priorSucceeded, noMissingOutput]
  cases b.prior signature with
  | none =>
    rw [any_none, Bool.or_false, hstart]
    apply provideValues_setFlags
  | some value =>
    have hprior : providePriorValue (start s) value = State.setFlags s.canUpdateIfNewer
        (s.hasPriorResult || (value.isSuccessfulCommand)) {} := by
      rw [providePriorValue, hstart]
      split_ifs with hkind
      · simp [State.setFlags, hkind]
      · simp [hkind]
    rw [any_some, ← provideValues_setFlags, ← hprior]

variable {c : ExternalCommand} {signature : UInt64} {s next : State} {b : BuildRun}
    {result : List Callback × BuildValue}

/-- A build leaves behind the flags and what its own inputs and prior value make of them. -/
theorem build_flags (h : c.build signature s b = some (next, result)) :
  next.canUpdateIfNewer = (s.canUpdateIfNewer && b.noMissingOutput)
    ∧ next.hasPriorResult = (s.hasPriorResult || b.priorSucceeded signature)
  := by
  rw [build, afterInputs_eq] at h
  obtain ⟨state, hstate, hjob⟩ := bind_eq_some_iff.mp h
  obtain ⟨fresh, -, rfl⟩ := map_eq_some_iff.mp hstate
  obtain ⟨_, -, hnext⟩ := map_eq_some_iff.mp hjob
  obtain ⟨rfl, -⟩ := Prod.mk.inj hnext
  exact ⟨rfl, rfl⟩

/-- Over a sequence of builds the flags collect what all of them contribute. -/
theorem builds_flags {bs : List BuildRun} (h : c.builds signature s bs = some next) :
  next.canUpdateIfNewer = (s.canUpdateIfNewer && bs.all noMissingOutput)
    ∧ next.hasPriorResult
      = (s.hasPriorResult || bs.any (priorSucceeded signature))
  := by
  induction bs generalizing s with
  | nil =>
    obtain rfl : s = next := some.inj h
    simp
  | cons b bs ih =>
    obtain ⟨state, hstate, hrest⟩ := bind_eq_some_iff.mp h
    obtain ⟨⟨_, result⟩, hbuild, rfl⟩ := map_eq_some_iff.mp hstate
    obtain ⟨hupdate, hprior⟩ := build_flags hbuild
    obtain ⟨hupdates, hpriors⟩ := ih hrest
    rw [hupdates, hpriors, hupdate, hprior, Bool.and_assoc, Bool.or_assoc]
    exact ⟨rfl, rfl⟩

/-- A build does the same to commands with the same flags. -/
theorem build_congr
    (c : ExternalCommand) (signature : UInt64) {t : State} (b : BuildRun)
    (hupdate : (s.canUpdateIfNewer && b.noMissingOutput)
      = (t.canUpdateIfNewer && b.noMissingOutput))
    (hprior : (s.hasPriorResult || b.priorSucceeded signature)
      = (t.hasPriorResult || b.priorSucceeded signature)) :
  c.build signature s b = c.build signature t b
  := by
  rw [build, build, afterInputs_eq, afterInputs_eq, hupdate, hprior]

/-! ### The shortcut -/

/-- The command is successful without having been executed. -/
def Shortcut (result : List Callback × BuildValue) : Prop :=
  .commandStarted ∉ result.1 ∧ result.2.isSuccessfulCommand

/-- What a command is skipped with is not a success. -/
def SkipsFailed (s : State) : Prop :=
  ∀ skip ∈ s.skipValue, ¬ skip.isSuccessfulCommand

theorem provideValue_skipsFailed
    {inputID : ℕ} {key : Bytes} {value : BuildValue}
    (h : c.provideValue s inputID key value = some next) (hskips : SkipsFailed s) :
  SkipsFailed next
  := by
  by_cases hrejects : c.Rejects value
  · rintro skip hskip
    rw [provideValue_of_rejects hrejects h] at hskip
    cases hskip
    decide
  · rw [SkipsFailed, (provideValue_of_not_rejects hrejects h).1]
    exact hskips

theorem provideValues_skipsFailed
    {provided : List (ℕ × Bytes × BuildValue)}
    (h : c.provideValues s provided = some next) (hskips : SkipsFailed s) :
  SkipsFailed next
  := by
  induction provided generalizing s with
  | nil =>
    obtain rfl : s = next := some.inj h
    exact hskips
  | cons first provided ih =>
    obtain ⟨state, hstate, hrest⟩ := bind_eq_some_iff.mp h
    apply ih hrest
    apply provideValue_skipsFailed hstate hskips

/-- A command that is not skipped is successful without being executed only if both flags say
so. -/
theorem flags_of_execute
    {x : Execution}
    (h : c.execute s x = some result) (hskips : SkipsFailed s) (hshortcut : Shortcut result) :
  s.canUpdateIfNewer = true ∧ s.hasPriorResult = true
  := by
  obtain ⟨hstarted, hkind⟩ := hshortcut
  rw [execute] at h
  cases hskip : s.skipValue with
  | some skip =>
    rw [hskip] at h
    cases h
    exact absurd hkind (hskips skip hskip)
  | none =>
    rw [hskip] at h
    dsimp only at h
    split_ifs at h with hflags
    · rw [Bool.and_eq_true, Bool.and_eq_true] at hflags
      exact hflags.1
    · -- The command was started.
      cases hstatus : x.status <;> rw [hstatus] at h <;> cases h <;> simp at hstarted

theorem shortcut_of_job
    {isCancelled shouldCommandStart : Bool} {execute : Option (List Callback × BuildValue)}
    (h : CommandTask.job isCancelled shouldCommandStart execute = some result)
    (hshortcut : Shortcut result) :
  ∃ executed, execute = some executed ∧ Shortcut executed
  := by
  rw [CommandTask.job] at h
  split_ifs at h
  · cases h
    cases hshortcut.2
  · cases h
    cases hshortcut.2
  · obtain ⟨⟨callbacks, value⟩, hexecute, rfl⟩ := map_eq_some_iff.mp h
    refine ⟨_, hexecute, fun hmem => hshortcut.1 ?_, hshortcut.2⟩
    exact List.mem_append_left _ hmem

/-- A build in which the command is successful without being executed: an earlier build or this
one had a successful prior result, and none had a missing output. -/
theorem flags_of_build
    (h : c.build signature s b = some (next, result)) (hshortcut : Shortcut result) :
  (s.canUpdateIfNewer && b.noMissingOutput) = true
    ∧ (s.hasPriorResult || b.priorSucceeded signature) = true
  := by
  rw [build, afterInputs_eq] at h
  obtain ⟨state, hstate, hjob⟩ := bind_eq_some_iff.mp h
  obtain ⟨fresh, hfresh, rfl⟩ := map_eq_some_iff.mp hstate
  obtain ⟨_, hresult, hnext⟩ := map_eq_some_iff.mp hjob
  obtain ⟨rfl, rfl⟩ := Prod.mk.inj hnext
  obtain ⟨executed, hexecute, hexecuted⟩ := shortcut_of_job hresult hshortcut
  have hskips : SkipsFailed fresh := by
    apply provideValues_skipsFailed hfresh
    rintro skip hskip
    cases hskip
  apply flags_of_execute hexecute hskips hexecuted

theorem BuildRun.priorSucceeded_iff :
  b.priorSucceeded signature = true
    ↔ ∃ value, b.recorded = some (signature, value) ∧ value.isSuccessfulCommand
  := by
  rw [priorSucceeded, prior]
  rcases b.recorded with _ | ⟨recordedSignature, value⟩
  · simp
  · by_cases hsignature : recordedSignature = signature
    · simp [hsignature]
    · simp [hsignature]

theorem BuildRun.noMissingOutput_iff :
  b.noMissingOutput = true ↔ ∀ input ∈ b.provided, input.2.2.kind ≠ .missingOutput
  := by
  simp [noMissingOutput]

/-- After a sequence of builds, none of which had a missing output as an input, and which had no
successful prior result unless this build has one too, a command is successful without being
executed only if the result recorded immediately before is a successful command with the same
signature and no input is a missing output.  The build then is the one of a fresh command. -/
theorem build_of_builds
    {c : ExternalCommand} {signature : UInt64} {earlier : List BuildRun} {s : State}
    (hearlier : c.builds signature {} earlier = some s) (b : BuildRun)
    (hprior : (∃ e ∈ earlier, ∃ value, e.recorded = some (signature, value)
        ∧ value.isSuccessfulCommand) →
      ∃ value, b.recorded = some (signature, value) ∧ value.isSuccessfulCommand)
    (hmissing : ∀ e ∈ earlier, ∀ input ∈ e.provided, input.2.2.kind ≠ .missingOutput) :
  (∀ next result, c.build signature s b = some (next, result) → Shortcut result →
    (∃ value, b.recorded = some (signature, value) ∧ value.isSuccessfulCommand)
      ∧ ∀ input ∈ b.provided, input.2.2.kind ≠ .missingOutput)
    ∧ c.build signature s b = c.build signature {} b
  := by
  obtain ⟨hupdates, hpriors⟩ := builds_flags hearlier
  have hupdate : s.canUpdateIfNewer = true := by
    rw [hupdates, Bool.true_and, List.all_eq_true]
    intro e he
    exact noMissingOutput_iff.mpr (hmissing e he)
  have hleak : s.hasPriorResult = true → b.priorSucceeded signature = true := by
    intro hs
    rw [hpriors, Bool.false_or, List.any_eq_true] at hs
    obtain ⟨e, he, hsucceeded⟩ := hs
    apply priorSucceeded_iff.mpr
    apply hprior
    exact ⟨e, he, priorSucceeded_iff.mp hsucceeded⟩
  constructor
  · intro next result hbuild hshortcut
    obtain ⟨hnoMissing, hflag⟩ := flags_of_build hbuild hshortcut
    rw [Bool.and_eq_true, noMissingOutput_iff] at hnoMissing
    rw [Bool.or_eq_true] at hflag
    refine ⟨priorSucceeded_iff.mp ?_, hnoMissing.2⟩
    obtain hflag | hflag := hflag
    · apply hleak hflag
    · exact hflag
  · apply build_congr
    · rw [hupdate]
    · cases hflag : s.hasPriorResult with
      | false => rfl
      | true => rw [hleak hflag, Bool.or_true, Bool.or_true]

/-! ### A failure that is forgotten -/

namespace HistorySamples

/-- A command with an output that it need not write again if it exists. -/
def generator : ExternalCommand where
  name := ascii "C"
  outputs := [{ name := ascii "a" }]
  allowModifiedOutputs := true

/-- A file, wherever one looks. -/
def present : FileSystem := fun _ => { FileInfo.zero with mode := 1 }

def absent : FileSystem := fun _ => .zero

/-- The output is removed after a successful build, and the command fails when it writes it
again. -/
def failing : BuildRun where
  recorded := some (7, makeSuccessfulCommand [present (ascii "a")])
  provided := []
  execution := { before := absent, after := present, epoch := 2, status := .failed }

/-- The build after the failure. -/
def afterFailure : BuildRun where
  recorded := some (7, makeFailedCommand)
  provided := []
  execution := { before := present, after := present, epoch := 3, status := .succeeded }

/-- The build after another successful one. -/
def afterSuccess : BuildRun where
  recorded := some (7, makeSuccessfulCommand [present (ascii "a")])
  provided := []
  execution := { before := present, after := present, epoch := 3, status := .succeeded }

end HistorySamples

open HistorySamples

theorem build_of_builds_afterSuccess :
  ∃ s, generator.builds 7 {} [failing] = some s
    ∧ generator.build 7 s afterSuccess = generator.build 7 {} afterSuccess
  := by
  have hearlier : generator.builds 7 {} [failing] = some { hasPriorResult := true } := rfl
  refine ⟨_, hearlier, (build_of_builds hearlier afterSuccess ?_ ?_).2⟩
  · intro _
    exact ⟨_, rfl, rfl⟩
  · simp [failing]

/-- The command fails, and in the next build it is successful without being executed. -/
theorem build_afterFailure :
  (generator.build 7 {} failing).map (fun next => next.2.2) = some makeFailedCommand
    ∧ afterFailure.recorded = some (7, makeFailedCommand)
    ∧ ((generator.builds 7 {} [failing]).bind (fun s => generator.build 7 s afterFailure)).map
        Prod.snd
      = some ([], makeSuccessfulCommand [present (ascii "a")])
  := by
  decide

end ExternalCommand

end BuildSystem

end LLBuild

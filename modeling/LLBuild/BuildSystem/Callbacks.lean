import LLBuild.BuildSystem.Failures

/-!
# What the delegate is told about a command

The delegate is promised that a call of `commandPreparing` or `commandStarted` for a command
is followed by one of `commandFinished`.  A command that starts keeps the promise.  A command
that is prepared does if it is vetoed or started (`commandFinished_of_started`); it does not
if the build is cancelled before its job runs, if it is skipped because of an input, if it is
found to be up to date by its outputs, or if it is a symbolic link without an output
(`commandFinished_missing`).
-/

namespace LLBuild

open List

open BinaryCoding BuildValue

namespace BuildSystem

/-! ### Reports about one command -/

namespace Callback

def isFinished : Callback → Bool
  | commandFinished _ => true
  | _ => false

/-- The call is neither the beginning nor the end of a command. -/
def isNeutral : Callback → Bool
  | commandCannotBuildOutputDueToMissingInputs _ | hadCommandFailure => true
  | _ => false

end Callback

/-- What the job of a task reports: nothing of note, that the command was vetoed, or that it
was executed. -/
inductive Reported : List Callback → Prop where
  | silent (callbacks : List Callback) (h : callbacks.all Callback.isNeutral) : Reported callbacks
  | vetoed : Reported [.commandFinished .skipped]
  | executed (status : ProcessStatus) (callbacks : List Callback)
      (h : callbacks.all Callback.isNeutral) :
      Reported (.commandStarted :: .commandFinished status :: callbacks)

/-- The report says that the command finished. -/
def Finished (callbacks : List Callback) : Prop :=
  callbacks.countP Callback.isFinished = 1

/-- Each call of one of the kinds is followed by one that says that the command finished. -/
def Paired (opens : Callback → Bool) : List Callback → Prop
  | [] => True
  | call :: callbacks => (opens call = true → Finished callbacks) ∧ Paired opens callbacks

/-- A neutral report has no call that must be paired, and none that pairs. -/
theorem countP_of_neutral {callbacks : List Callback} (h : callbacks.all Callback.isNeutral) :
  callbacks.countP Callback.isFinished = 0
  := by
  rw [countP_eq_zero]
  intro call hcall
  have hneutral := all_eq_true.mp h call hcall
  cases call <;> simp_all [Callback.isNeutral, Callback.isFinished]

variable (status : ProcessStatus)

theorem finished_of_neutral {callbacks : List Callback} (h : callbacks.all Callback.isNeutral) :
  Finished (.commandFinished status :: callbacks)
  := by
  rw [Finished, countP_cons_of_pos rfl, countP_of_neutral h]

theorem Paired.of_neutral
    {opens : Callback → Bool} {callbacks : List Callback} (h : callbacks.all Callback.isNeutral)
    (hopens : ∀ call, call.isNeutral = true → opens call = false) :
  Paired opens callbacks
  := by
  induction callbacks with
  | nil => trivial
  | cons call callbacks ih =>
    rw [all_cons, Bool.and_eq_true] at h
    refine ⟨?_, ih h.2⟩
    rw [hopens call h.1]
    intro hfalse
    cases hfalse

variable (call : Callback)

/-- The calls that say that a command starts. -/
def isStart : Bool := call = .commandStarted

/-- The calls that say that a command is prepared. -/
def isPreparing : Bool := call = .commandPreparing

theorem isStart_of_neutral (h : call.isNeutral = true) :
  isStart call = false
  := by
  cases call <;> simp_all [Callback.isNeutral, isStart]

theorem isPreparing_of_neutral (h : call.isNeutral = true) :
  isPreparing call = false
  := by
  cases call <;> simp_all [Callback.isNeutral, isPreparing]

/-- A command that starts finishes. -/
theorem Reported.paired_isStart {callbacks : List Callback} (h : Reported callbacks) :
  Paired isStart (.commandPreparing :: callbacks)
  := by
  refine ⟨by simp [isStart], ?_⟩
  cases h with
  | silent callbacks h => exact .of_neutral h isStart_of_neutral
  | vetoed => simp [Paired, isStart]
  | executed status callbacks h =>
    refine ⟨fun _ => finished_of_neutral status h, by simp [isStart], ?_⟩
    apply Paired.of_neutral h isStart_of_neutral

theorem Reported.paired_isPreparing {callbacks : List Callback} (h : Reported callbacks) :
  Paired isPreparing callbacks
  := by
  cases h with
  | silent callbacks h => exact .of_neutral h isPreparing_of_neutral
  | vetoed => simp [Paired, isPreparing]
  | executed status callbacks h =>
    exact ⟨by simp [isPreparing], by simp [isPreparing], .of_neutral h isPreparing_of_neutral⟩

/-! ### Jobs -/

variable {value : BuildValue}

variable {s s' : ExternalCommand.State}

/-- The commands report nothing of note, or that they were executed. -/
theorem execute_reported
    {c : ExternalCommand} {x : Execution} {callbacks : List Callback}
    (h : c.execute s x = some (callbacks, value)) :
  callbacks.all Callback.isNeutral ∨ callbacks = [.commandStarted, .commandFinished x.status]
  := by
  rw [ExternalCommand.execute] at h
  split at h
  · obtain ⟨rfl, -⟩ := Prod.mk.inj (Option.some.inj h)
    left
    split_ifs <;> rfl
  · dsimp only at h
    split_ifs at h
    · obtain ⟨rfl, -⟩ := Prod.mk.inj (Option.some.inj h)
      exact .inl rfl
    · right
      split at h <;> cases h <;> rfl

theorem symlink_reported
    {c : SymlinkCommand} {x : Execution} {callbacks : List Callback}
    (h : c.execute x = some (callbacks, value)) :
  ((c.outputs = [] ∨ c.actualOutputPath = []) ∧ callbacks = [])
    ∨ ∃ status, callbacks = [.commandStarted, .commandFinished status]
  := by
  rw [SymlinkCommand.execute] at h
  split_ifs at h with hempty
  · cases h
    exact .inl ⟨by simpa using hempty, rfl⟩
  · right
    use x.status
    split at h <;> cases h <;> rfl

variable {execute : Option (List Callback × BuildValue)}

variable {isCancelled shouldCommandStart : Bool}

/-- A job that is not cancelled or vetoed reports what the command does, and perhaps a
failure. -/
theorem job_reported
    {callbacks : List Callback}
    (hexecute : ∀ reported result, execute = some (reported, result) →
      reported.all Callback.isNeutral
        ∨ ∃ status, reported = [.commandStarted, .commandFinished status])
    (h : CommandTask.job isCancelled shouldCommandStart execute = some (callbacks, value)) :
  Reported callbacks
  := by
  rw [CommandTask.job] at h
  split_ifs at h
  · cases h
    exact .silent [] rfl
  · cases h
    exact .vetoed
  · obtain ⟨⟨reported, result⟩, hresult, heq⟩ := Option.map_eq_some_iff.mp h
    obtain ⟨rfl, -⟩ := Prod.mk.inj heq
    have hrest : (if result.kind = Kind.failedCommand then [Callback.hadCommandFailure]
        else []).all Callback.isNeutral := by
      split_ifs <;> rfl
    rcases hexecute reported result hresult with hneutral | ⟨status, rfl⟩
    · apply Reported.silent
      rw [all_append, hneutral, hrest]
      rfl
    · exact .executed status _ hrest

/-- A job that is not cancelled reports that the command finished if it is vetoed or
executed. -/
theorem job_finished
    {callbacks : List Callback} (hcancelled : isCancelled = false)
    (hexecute : shouldCommandStart = false ∨ ∀ reported result,
      execute = some (reported, result) →
        ∃ status, reported = [.commandStarted, .commandFinished status])
    (h : CommandTask.job isCancelled shouldCommandStart execute = some (callbacks, value)) :
  Finished callbacks
  := by
  rw [CommandTask.job, hcancelled, if_neg Bool.false_ne_true] at h
  split_ifs at h with hveto
  · cases h
    rfl
  · obtain ⟨⟨reported, result⟩, hresult, heq⟩ := Option.map_eq_some_iff.mp h
    obtain ⟨rfl, -⟩ := Prod.mk.inj heq
    obtain ⟨status, rfl⟩ := hexecute.resolve_left (by simpa using hveto) reported result hresult
    split_ifs <;> rfl

/-! ### Runs -/

/-- The life of the task of a command in a build.  The command may not be asked for, or its
value may still hold; the build may end before the job of the task is run. -/
inductive TaskLife : Command → Type where
  | idle (c : Command) : TaskLife c
  | unfinished (c : Command) : TaskLife c
  | external (c : ExternalCommand) (node : BuildNode → BuildValue) (run : TaskRun c node) :
      TaskLife (.external c)
  | symlink (c : SymlinkCommand) (isCancelled shouldCommandStart : Bool) (x : Execution) :
      TaskLife (.symlink c)
  | staleFileRemoval (c : StaleFileRemovalCommand) (isCancelled shouldCommandStart : Bool) :
      TaskLife (.staleFileRemoval c)

namespace TaskLife

/-- What is reported about the command. -/
def callbacks : {c : Command} → TaskLife c → Option (List Callback)
  | _, idle _ => some []
  | _, unfinished _ => some [.commandPreparing]
  | _, external _ _ run => run.result.map (fun result => .commandPreparing :: result.1)
  | _, symlink c isCancelled shouldCommandStart x =>
      (CommandTask.job isCancelled shouldCommandStart (c.execute x)).map
        (fun result => .commandPreparing :: result.1)
  | _, staleFileRemoval c isCancelled shouldCommandStart =>
      (CommandTask.job isCancelled shouldCommandStart (some c.execute)).map
        (fun result => .commandPreparing :: result.1)

end TaskLife

/-- No result of an earlier build is taken because the outputs exist: the command does not
allow it, there is none, or an output is missing. -/
def TaskRun.MustExecute {c : ExternalCommand} {node : BuildNode → BuildValue}
    (r : TaskRun c node) : Prop :=
  c.allowModifiedOutputs = false
    ∨ (r.initial.hasPriorResult = false ∧ ∀ value ∈ r.prior, ¬ value.isSuccessfulCommand)
    ∨ c.outputs.length < 2 ^ 32 ∧ ∃ n ∈ c.outputs,
      (ExternalCommand.outputInfo r.execution.before r.execution.epoch n).isMissing = true

/-- The job of the task is run and not cancelled, and the command is vetoed, or it has no bad
input and has to be executed; a symbolic link has an output. -/
def TaskLife.Finishes : {c : Command} → TaskLife c → Prop
  | _, idle _ => True
  | _, unfinished _ => False
  | _, external c _ run => run.isCancelled = false
      ∧ (run.shouldCommandStart = false
        ∨ (∀ input ∈ run.provided, ¬c.Rejects input.2.2) ∧ run.MustExecute)
  | _, symlink c isCancelled shouldCommandStart _ => isCancelled = false
      ∧ (shouldCommandStart = false ∨ c.outputs ≠ [] ∧ c.actualOutputPath ≠ [])
  | _, staleFileRemoval _ isCancelled _ => isCancelled = false

section Lives

variable {c : ExternalCommand} {node : BuildNode → BuildValue}

/-- The shortcut is not taken. -/
theorem TaskRun.MustExecute.not_shortcut
    {r : TaskRun c node} (hmust : r.MustExecute)
    (hprior : s.hasPriorResult = r.started.hasPriorResult) :
  (s.canUpdateIfNewer && s.hasPriorResult && c.canUpdateIfNewerWithResult
    (c.computeCommandResult r.execution.before r.execution.epoch)) = false
  := by
  rcases hmust with hallow | ⟨hinitial, hvalue⟩ | ⟨hlength, n, hn, hmissing⟩
  · simp [ExternalCommand.canUpdateIfNewerWithResult, hallow]
  · have hnone : s.hasPriorResult = false := by
      rw [hprior, TaskRun.started]
      cases hp : r.prior with
      | none => exact hinitial
      | some value =>
        have hkind := hvalue value hp
        simp [ExternalCommand.providePriorValue, ExternalCommand.start, hkind, hinitial]
    simp [hnone]
  · have hinfos : (c.computeCommandResult r.execution.before r.execution.epoch).outputInfos
        = c.outputs.map
          (ExternalCommand.outputInfo r.execution.before r.execution.epoch) := by
      have hne : c.outputs.isEmpty = false := by
        rw [isEmpty_eq_false_iff]
        exact ne_nil_of_mem hn
      rw [ExternalCommand.computeCommandResult, hne, makeSuccessfulCommand,
        outputInfos_ofOutputInfos, if_neg Bool.false_ne_true, length_map,
        Nat.mod_eq_of_lt hlength]
      apply take_of_length_le
      rw [length_map]
    have hall : (c.outputs.map (ExternalCommand.outputInfo r.execution.before
        r.execution.epoch)).all (!·.isMissing) = false := by
      rw [all_eq_false]
      exact ⟨_, mem_map_of_mem hn, by simp [hmissing]⟩
    simp only [ExternalCommand.canUpdateIfNewerWithResult, hinfos, hall, Bool.and_false]

/-- A run that has to execute the command, without a bad input, reports that it finished. -/
theorem TaskRun.finished
    (r : TaskRun c node) (hcancelled : r.isCancelled = false)
    (hcondition : r.shouldCommandStart = false
      ∨ (∀ input ∈ r.provided, ¬c.Rejects input.2.2) ∧ r.MustExecute)
    {callbacks : List Callback}
    (hresult : r.result = some (callbacks, value)) :
  Finished callbacks
  := by
  obtain ⟨s, hs, hjob⟩ := Option.bind_eq_some_iff.mp hresult
  apply job_finished hcancelled _ hjob
  apply hcondition.imp_right
  rintro ⟨hrejects, hmust⟩ reported result hexecute
  obtain ⟨hskip, hprior⟩ := provideValues_of_not_rejects hrejects hs
  have hnone : s.skipValue = none := by
    rw [hskip, TaskRun.started]
    cases r.prior with
    | none => rfl
    | some value =>
      dsimp only
      rw [ExternalCommand.providePriorValue]
      split_ifs <;> rfl
  rw [ExternalCommand.execute, hnone] at hexecute
  dsimp only at hexecute
  rw [hmust.not_shortcut hprior, if_neg Bool.false_ne_true] at hexecute
  use r.execution.status
  split at hexecute <;> cases hexecute <;> rfl

end Lives

namespace TaskLife

variable {c : Command}

/-- A job reports that the command is prepared, and then what comes of it. -/
theorem reported
    (life : TaskLife c) {callbacks : List Callback} (h : life.callbacks = some callbacks) :
  callbacks = [] ∨ ∃ rest, callbacks = .commandPreparing :: rest ∧ Reported rest
    ∧ (life.Finishes → Finished rest)
  := by
  cases life with
  | idle =>
    cases h
    exact .inl rfl
  | unfinished =>
    cases h
    exact .inr ⟨[], rfl, .silent [] rfl, False.elim⟩
  | external c node run =>
    obtain ⟨⟨rest, value⟩, hresult, rfl⟩ := Option.map_eq_some_iff.mp h
    refine .inr ⟨rest, rfl, ?_, fun hf => run.finished hf.1 hf.2 hresult⟩
    obtain ⟨s, -, hjob⟩ := Option.bind_eq_some_iff.mp hresult
    apply job_reported _ hjob
    intro reported result hexecute
    apply (execute_reported hexecute).imp_right
    exact fun heq => ⟨_, heq⟩
  | symlink c isCancelled shouldCommandStart x =>
    obtain ⟨⟨rest, value⟩, hjob, rfl⟩ := Option.map_eq_some_iff.mp h
    refine .inr ⟨rest, rfl, ?_, ?_⟩
    · apply job_reported _ hjob
      intro reported result hexecute
      apply (symlink_reported hexecute).imp_left
      rintro ⟨-, rfl⟩
      rfl
    · rintro ⟨hcancelled, hcondition⟩
      apply job_finished hcancelled _ hjob
      apply hcondition.imp_right
      rintro ⟨houtputs, hpath⟩ reported result hexecute
      apply (symlink_reported hexecute).resolve_left
      rintro ⟨hempty, -⟩
      rcases hempty with hempty | hempty
      · exact houtputs hempty
      · exact hpath hempty
  | staleFileRemoval c isCancelled shouldCommandStart =>
    obtain ⟨⟨rest, value⟩, hjob, rfl⟩ := Option.map_eq_some_iff.mp h
    have hexecute : ∀ reported result, some c.execute = some (reported, result) →
        ∃ status, reported = [.commandStarted, .commandFinished status] := by
      intro reported result hexecute
      cases hexecute
      exact ⟨.succeeded, rfl⟩
    refine .inr ⟨rest, rfl, ?_, ?_⟩
    · exact job_reported (fun reported result h => .inr (hexecute reported result h)) hjob
    · exact fun hcancelled => job_finished hcancelled (.inr hexecute) hjob

end TaskLife

/-! ### Builds -/

variable (c : Command)

variable (trace : List (Command × Callback))

/-- The calls about a command, among those about all commands. -/
def callsFor : List Callback :=
  trace.filterMap (fun call => if call.1 = c then some call.2 else none)

/-- The number of calls that say that the command finished. -/
def finishedCalls : ℕ :=
  trace.countP (fun call => call.1 = c && call.2.isFinished)

/-- The calls of a build until it returns, in any order of the commands, and the lives of the
tasks of the commands. -/
structure BuildTrace where
  trace : List (Command × Callback)
  life : ∀ c : Command, TaskLife c
  reported : ∀ c, (life c).callbacks = some (callsFor c trace)

theorem countP_callsFor :
  (callsFor c trace).countP Callback.isFinished = finishedCalls c trace
  := by
  induction trace with
  | nil => rfl
  | cons call trace ih =>
    rw [callsFor, finishedCalls]
    rw [callsFor, finishedCalls] at ih
    by_cases hc : call.1 = c
    · simp [hc, countP_cons, ih]
    · simp [hc, ih]

theorem callsFor_split (call : Callback) (before after : List (Command × Callback)) :
  callsFor c (before ++ (c, call) :: after) = callsFor c before ++ call :: callsFor c after
  := by
  simp [callsFor]

/-- A call that must be paired is followed by one that pairs it. -/
theorem Paired.finished
    {opens : Callback → Bool} {before after : List Callback} {call : Callback}
    (h : Paired opens (before ++ call :: after)) (hcall : opens call = true) :
  Finished after
  := by
  induction before with
  | nil => exact h.1 hcall
  | cons first before ih => exact ih h.2

/-- The calls about a command, one by one. -/
theorem BuildTrace.finishedCalls_of_paired
    (b : BuildTrace) {c : Command} (opens : Callback → Bool)
    (h : ∀ callbacks, (b.life c).callbacks = some callbacks → Paired opens callbacks)
    {call : Callback} (hcall : opens call = true) {before after : List (Command × Callback)}
    (htrace : b.trace = before ++ (c, call) :: after) :
  finishedCalls c after = 1
  := by
  have hpaired := h _ (b.reported c)
  rw [htrace, callsFor_split] at hpaired
  rw [← countP_callsFor]
  apply hpaired.finished hcall

/-- **Pairing of calls.**  In every build, a call which says that a command started is
followed by one which says that it finished, and by one only.  So is a call which says that a
command is prepared, if the job of its task is run and not cancelled, and the command is
vetoed or has to be executed. -/
theorem commandFinished_of_started (b : BuildTrace) (c : Command) :
  (∀ before after, b.trace = before ++ (c, .commandStarted) :: after → finishedCalls c after = 1)
    ∧ ((b.life c).Finishes → ∀ before after,
      b.trace = before ++ (c, .commandPreparing) :: after → finishedCalls c after = 1)
  := by
  constructor
  · intro before after htrace
    apply b.finishedCalls_of_paired isStart _ rfl htrace
    intro callbacks hcallbacks
    rcases (b.life c).reported hcallbacks with rfl | ⟨rest, rfl, hreported, -⟩
    · trivial
    · apply hreported.paired_isStart
  · intro hfinishes before after htrace
    apply b.finishedCalls_of_paired isPreparing _ rfl htrace
    intro callbacks hcallbacks
    rcases (b.life c).reported hcallbacks with rfl | ⟨rest, rfl, hreported, hfinished⟩
    · trivial
    · exact ⟨fun _ => hfinished hfinishes, hreported.paired_isPreparing⟩

/-- A build in which one command is asked for. -/
def BuildTrace.single (life : TaskLife c) (callbacks : List Callback)
    (h : life.callbacks = some callbacks) : BuildTrace where
  trace := callbacks.map (fun call => (c, call))
  life c' := if heq : c = c' then heq ▸ life else .idle c'
  reported c' := by
    by_cases heq : c = c'
    · subst heq
      simp [callsFor, h, filterMap_map]
    · simp [callsFor, heq, TaskLife.callbacks, filterMap_map]

open FailureSamples

/-- The compiler is executed, and fails. -/
def executedCompile : BuildTrace :=
  .single (.external compile)
    (.external compile _ (.inOrder compile (fun _ => makeMissingInput) (ends .failed)))
    [.commandPreparing, .commandStarted, .commandFinished .failed, .hadCommandFailure] rfl

/-- After the compiler was prepared it is said to have finished, once. -/
theorem commandFinished_of_started_compile :
  finishedCalls (.external compile) [(.external compile, .commandStarted),
    (.external compile, .commandFinished .failed), (.external compile, .hadCommandFailure)] = 1
  := by
  have hfinishes : (executedCompile.life (.external compile)).Finishes := by
    refine ⟨rfl, .inr ⟨?_, .inl rfl⟩⟩
    intro input hinput
    cases hinput
  exact (commandFinished_of_started executedCompile (.external compile)).2 hfinishes [] _ rfl

/-- The archiver has an input that failed.  It is prepared, and never finishes. -/
theorem commandFinished_missing :
  ∃ b : BuildTrace, b.trace = [(.external archive, .commandPreparing)]
    ∧ finishedCalls (.external archive) b.trace = 0
  := by
  refine ⟨.single (.external archive) (.external archive _ (.inOrder archive
    (fun _ => makeFailedInput) (ends .succeeded))) [.commandPreparing] rfl, rfl, rfl⟩

end BuildSystem

end LLBuild

import LLBuild.Basic.FileInfo
import Mathlib.Data.List.Induction

/-!
# The task of a Ninja command

A task of the Ninja build collects what it is told about its inputs in a few flags
(`providePriorValue`, `provideValue`) and decides in `inputsAvailable` whether the command
is completed at once or spawned.  Other tasks run in between, so each callback comes
with the context it finds.

The flags after any sequence of callbacks are described in terms of what was provided
(`Collected`).  An input that failed, was skipped or is missing has the command skipped,
unless the command can be brought up to date because its outputs are newer than its good
inputs: that is decided first.
-/

namespace LLBuild.Ninja

open List

open FileTimestamp

/-- The hash of a command string. -/
structure CommandSignature where
  value : UInt64 := 0
deriving DecidableEq

/-- The result of the rule of an input or of a command. -/
inductive BuildValue where
  | existingInput (outputInfo : FileInfo)
  | missingInput
  | successfulCommand (outputInfos : List FileInfo) (commandHash : CommandSignature)
  | failedCommand
  | skippedCommand
deriving DecidableEq

namespace BuildValue

/-- The file of an existing input or of a successful command with one output. -/
def getOutputInfo : BuildValue → FileInfo
  | existingInput outputInfo => outputInfo
  | successfulCommand outputInfos _ => outputInfos.headD .zero
  | _ => .zero

def isMissingInput : BuildValue → Bool
  | missingInput => true
  | _ => false

def isExistingInput : BuildValue → Bool
  | existingInput _ => true
  | _ => false

def isSuccessfulCommand : BuildValue → Bool
  | successfulCommand _ _ => true
  | _ => false

/-- Whether the value is one a command can be run with. -/
def isGood (value : BuildValue) : Bool :=
  value.isExistingInput || value.isSuccessfulCommand

end BuildValue

/-- A node of the manifest. -/
structure Node where
  canonicalPath : String
  screenPath : String
deriving DecidableEq

/-- How a command reports the dependencies it discovers. -/
inductive DepsStyleKind where
  | none
  | gcc
  | msvc
deriving DecidableEq

/-- A command of the manifest. -/
structure Command where
  /-- Whether the rule of the command is the phony rule. -/
  isPhony : Bool := false
  inputs : List Node := []
  outputs : List Node
  commandString : String
  depsStyle : DepsStyleKind := .none
  hasGeneratorFlag : Bool := false
deriving DecidableEq

/-- What the tasks of a build share. -/
structure BuildContext where
  strict : Bool := false
  simulate : Bool := false
  isCancelled : Bool := false
  numFailedCommandsToTolerate : ℕ := 1
  numFailedCommands : ℕ := 0
  numBuiltCommands : ℕ := 0
  numCommandsUpdated : ℕ := 0
  /-- The errors emitted. -/
  errors : List String := []
deriving DecidableEq

namespace BuildContext

variable (context : BuildContext)

def emitError (message : String) : BuildContext :=
  { context with errors := context.errors ++ [message] }

/-- Report that an input is missing; the build is cancelled only by a command that
needs it. -/
def reportMissingInput (node : Node) : BuildContext :=
  context.emitError ("missing input '" ++ node.screenPath ++ "' and no rule to build it")

/-- Count a failed command, and cancel the build when there are too many. -/
def incrementFailedCommands : BuildContext :=
  let context := { context with numFailedCommands := context.numFailedCommands + 1 }
  if context.numFailedCommandsToTolerate ≠ 0
      ∧ context.numFailedCommands = context.numFailedCommandsToTolerate then
    { context.emitError "stopping build due to command failures" with isCancelled := true }
  else context

end BuildContext

/-- The state of the task of a command. -/
structure NinjaCommandTask where
  /-- The command should be skipped, because of an error in an input. -/
  shouldSkip : Bool := false
  /-- The command had a missing input. -/
  hasMissingInput : Bool := false
  /-- The command can be updated if the output is newer than all of the inputs. -/
  canUpdateIfNewer : Bool := true
  hasPriorResult : Bool := false
  priorCommandHash : CommandSignature := {}
  /-- The timestamp of the most recently rebuilt input. -/
  newestModTime : FileTimestamp := ⟨0, 0⟩
deriving DecidableEq

/-- What a task does when its inputs are available. -/
inductive Decision where
  | complete (value : BuildValue) (forceChange : Bool)
  /-- Enqueue the job that executes the command. -/
  | spawn
deriving DecidableEq

/-- The command is neither run nor completed as successful. -/
def Decision.IsBlocked : Decision → Prop
  | .complete (.successfulCommand _ _) _ => False
  | .complete _ _ => True
  | .spawn => False

namespace NinjaCommandTask

/-- The task of a command.  A command that discovers dependencies is never just
updated. -/
def new (command : Command) : NinjaCommandTask :=
  { canUpdateIfNewer := command.depsStyle == .none }

/-- Take the value of an input. -/
def provideValue
    (context : BuildContext) (command : Command) (task : NinjaCommandTask)
    (inputID : ℕ) (value : BuildValue) :
    BuildContext × NinjaCommandTask :=
  if !value.isExistingInput && !value.isSuccessfulCommand then
    let task := { task with shouldSkip := true }
    if value.isMissingInput then
      (((command.inputs[inputID]?).map context.reportMissingInput).getD context,
        { task with hasMissingInput := true })
    else (context, task)
  else
    let outputInfo := value.getOutputInfo
    if outputInfo.isMissing then
      (context, { task with canUpdateIfNewer := false })
    else if task.newestModTime.lt outputInfo.modTime then
      (context, { task with newestModTime := outputInfo.modTime })
    else (context, task)

/-- Take the value of the last build. -/
def providePriorValue (task : NinjaCommandTask) (value : BuildValue) : NinjaCommandTask :=
  match value with
  | .successfulCommand _ commandHash =>
      { task with hasPriorResult := true, priorCommandHash := commandHash }
  | _ => task

section Files

variable (getInfoForPath : String → FileInfo) (signature : String → CommandSignature)

/-- The successful result of a command: what its outputs are now. -/
def computeCommandResult (command : Command) (commandHash : CommandSignature) : BuildValue :=
  .successfulCommand (command.outputs.map (fun node => getInfoForPath node.canonicalPath))
    commandHash

variable (context : BuildContext)

/-- Whether the outputs exist and are newer than the inputs.  Only in strict mode must
they be strictly newer. -/
def canUpdateIfNewerWithResult
    (task : NinjaCommandTask) (outputInfos : List FileInfo) : Bool :=
  outputInfos.all (fun outputInfo =>
    !outputInfo.isMissing
      && (if context.strict then !outputInfo.modTime.le task.newestModTime
        else !outputInfo.modTime.lt task.newestModTime))

/-- Decide what to do once the inputs are available. -/
def inputsAvailable
    (command : Command) (task : NinjaCommandTask) :
    BuildContext × Decision :=
  if context.isCancelled then (context, .complete .skippedCommand false)
  else
    let commandHash := signature command.commandString
    let outputInfos := command.outputs.map (fun node => getInfoForPath node.canonicalPath)
    let result := computeCommandResult getInfoForPath command commandHash
    if command.isPhony then
      (context, .complete result (outputInfos.any FileInfo.isMissing))
    -- Only a generator is updated when its command is not the one of the last build.
    else if task.canUpdateIfNewer
        && !(!command.hasGeneratorFlag
          && (!task.hasPriorResult || task.priorCommandHash != commandHash))
        && task.canUpdateIfNewerWithResult context outputInfos then
      ({ context with numCommandsUpdated := context.numCommandsUpdated + 1 },
        .complete result false)
    else
      let context := { context with numBuiltCommands := context.numBuiltCommands + 1 }
      if context.simulate then (context, .complete .skippedCommand false)
      else if task.shouldSkip then
        if task.hasMissingInput then
          ((context.emitError ("cannot build '" ++ (command.outputs.head?.map
              Node.screenPath).getD "" ++ "' due to missing input")).incrementFailedCommands,
            .complete .skippedCommand false)
        else (context, .complete .skippedCommand false)
      else (context, .spawn)

end Files

/-! ### Callbacks -/

/-- What a task is told before its inputs are available. -/
inductive Callback where
  | providePriorValue (value : BuildValue)
  | provideValue (inputID : ℕ) (value : BuildValue)
deriving DecidableEq

/-- The task after a callback in a context. -/
def callback (command : Command) (task : NinjaCommandTask) :
    BuildContext × Callback → NinjaCommandTask
  | (_, .providePriorValue value) => task.providePriorValue value
  | (context, .provideValue inputID value) =>
      (task.provideValue context command inputID value).2

/-- The task of a command after the callbacks, each in the context it found. -/
def run (command : Command) (callbacks : List (BuildContext × Callback)) : NinjaCommandTask :=
  callbacks.foldl (callback command) (new command)

variable (callbacks : List (BuildContext × Callback))

/-- The values provided for inputs. -/
def provided : List BuildValue :=
  callbacks.filterMap (fun c => match c.2 with
    | .provideValue _ value => some value
    | .providePriorValue _ => none)

/-- The values of the last build that were provided. -/
def priors : List BuildValue :=
  callbacks.filterMap (fun c => match c.2 with
    | .provideValue _ _ => none
    | .providePriorValue value => some value)

/-- The command hash of a successful command. -/
def BuildValue.commandHash? : BuildValue → Option CommandSignature
  | .successfulCommand _ commandHash => some commandHash
  | _ => none

/-- The times of the good inputs; before any input the newest time is zero. -/
def inputTimes (values : List BuildValue) : List FileTimestamp :=
  ⟨0, 0⟩ :: (values.filter BuildValue.isGood).map (·.getOutputInfo.modTime)

/-- What the flags of a task say about the values it has been provided with. -/
structure Collected (command : Command) (values olds : List BuildValue)
    (task : NinjaCommandTask) : Prop where
  /-- The command is skipped exactly if a value was not good. -/
  shouldSkip : task.shouldSkip = values.any (fun value => !value.isGood)
  /-- A command that can be updated discovers no dependencies and had all its good
  inputs. -/
  canUpdate : task.canUpdateIfNewer = true ↔ command.depsStyle = .none
    ∧ ∀ value ∈ values, value.isGood → value.getOutputInfo.isMissing = false
  /-- No good input is newer than the newest. -/
  newest : ∀ value ∈ values, value.isGood → value.getOutputInfo.isMissing = false →
    value.getOutputInfo.modTime.le task.newestModTime
  /-- The newest time is that of a good input. -/
  newest_mem : task.newestModTime ∈ inputTimes values
  /-- The prior hash is that of the last successful value of the last build. -/
  prior : (if task.hasPriorResult then some task.priorCommandHash else none)
    = (olds.filterMap BuildValue.commandHash?).getLast?

theorem collected_new (command : Command) :
  Collected command [] [] (new command)
  where
  shouldSkip := rfl
  canUpdate := by simp [new]
  newest := by simp
  newest_mem := mem_cons_self
  prior := rfl

variable (context : BuildContext)

/-- A value that is not good sets the flags for skipping and no other. -/
theorem provideValue_of_not_isGood
    (command : Command) (task : NinjaCommandTask) (inputID : ℕ)
    {value : BuildValue} (hvalue : value.isGood = false) :
  ∃ missing, (task.provideValue context command inputID value).2
    = { task with shouldSkip := true, hasMissingInput := missing }
  := by
  rw [BuildValue.isGood, Bool.or_eq_false_iff] at hvalue
  rw [provideValue, hvalue.1, hvalue.2]
  cases value.isMissingInput with
  | true => exact ⟨true, rfl⟩
  | false => exact ⟨task.hasMissingInput, rfl⟩

/-- A good value either rules out the update or is accounted for in the newest time. -/
theorem provideValue_of_isGood
    (command : Command) (task : NinjaCommandTask) (inputID : ℕ)
    {value : BuildValue} (hvalue : value.isGood = true) :
  ∃ update newest, (task.provideValue context command inputID value).2
      = { task with canUpdateIfNewer := update, newestModTime := newest }
    ∧ (update = true ↔ task.canUpdateIfNewer = true ∧ value.getOutputInfo.isMissing = false)
    ∧ task.newestModTime.le newest
    ∧ (value.getOutputInfo.isMissing = false → value.getOutputInfo.modTime.le newest)
    ∧ (newest = task.newestModTime ∨ newest = value.getOutputInfo.modTime)
  := by
  have hgood : (!value.isExistingInput && !value.isSuccessfulCommand) = false := by
    rw [← Bool.not_or, ← BuildValue.isGood, hvalue]
    rfl
  rw [provideValue, hgood]
  by_cases hmissing : value.getOutputInfo.isMissing = true
  · exact ⟨false, task.newestModTime, by simp [hmissing], by simp [hmissing], le_refl _,
      by simp [hmissing], .inl rfl⟩
  rw [Bool.not_eq_true] at hmissing
  by_cases hlt : task.newestModTime.lt value.getOutputInfo.modTime = true
  · refine ⟨task.canUpdateIfNewer, value.getOutputInfo.modTime, by simp [hmissing, hlt],
      by simp [hmissing], ?_, fun _ => le_refl _, .inr rfl⟩
    rw [le_iff]
    rw [lt_iff] at hlt
    exact hlt.imp_right (fun h => ⟨h.1, UInt64.le_of_lt h.2⟩)
  · rw [Bool.not_eq_true] at hlt
    exact ⟨task.canUpdateIfNewer, task.newestModTime, by simp [hmissing, hlt],
      by simp [hmissing], le_refl _, fun _ => not_lt.mp hlt, .inl rfl⟩

variable {task : NinjaCommandTask} {values olds : List BuildValue} {command : Command}

theorem Collected.provideValue
    (h : Collected command values olds task)
    (context : BuildContext) (inputID : ℕ) (value : BuildValue) :
  Collected command (values ++ [value]) olds
    (task.provideValue context command inputID value).2
  := by
  cases hvalue : value.isGood with
  | false =>
    obtain ⟨missing, htask⟩ := provideValue_of_not_isGood context command task inputID hvalue
    rw [htask]
    constructor
    case shouldSkip => simp [hvalue]
    case canUpdate => simpa [or_imp, forall_and, hvalue] using h.canUpdate
    case newest => simpa [or_imp, forall_and, hvalue] using h.newest
    case newest_mem => simpa [inputTimes, hvalue] using h.newest_mem
    case prior => exact h.prior
  | true =>
    obtain ⟨update, newest, htask, hupdate, hle, hnewest, hmem⟩ :=
      provideValue_of_isGood context command task inputID hvalue
    rw [htask]
    constructor
    case shouldSkip => simpa [hvalue] using h.shouldSkip
    case canUpdate =>
      rw [hupdate, h.canUpdate]
      simp [or_imp, forall_and, hvalue, and_assoc]
    case newest =>
      intro value' hvalue' hgood hmissing
      rcases mem_append.mp hvalue' with hvalue' | hvalue'
      · exact le_trans (h.newest value' hvalue' hgood hmissing) hle
      · obtain rfl := mem_singleton.mp hvalue'
        exact hnewest hmissing
    case newest_mem =>
      have htimes : inputTimes (values ++ [value])
          = inputTimes values ++ [value.getOutputInfo.modTime] := by
        simp [inputTimes, hvalue]
      rw [htimes, mem_append]
      obtain hmem | hmem := hmem
      · rw [hmem]
        exact .inl h.newest_mem
      · rw [hmem]
        exact .inr (mem_singleton_self _)
    case prior => exact h.prior

theorem Collected.providePriorValue (h : Collected command values olds task) (value : BuildValue) :
  Collected command values (olds ++ [value]) (task.providePriorValue value)
  := by
  cases value with
  | successfulCommand outputInfos commandHash =>
    refine ⟨h.shouldSkip, h.canUpdate, h.newest, h.newest_mem, ?_⟩
    rw [filterMap_append, getLast?_append]
    rfl
  | existingInput _ | missingInput | failedCommand | skippedCommand =>
    refine ⟨h.shouldSkip, h.canUpdate, h.newest, h.newest_mem, ?_⟩
    rw [filterMap_append]
    exact h.prior.trans (congrArg getLast? (append_nil _).symm)

/-- The flags of a task describe what it was provided with, in any order and in any
contexts. -/
theorem collected_run (command : Command) (callbacks : List (BuildContext × Callback)) :
  Collected command (provided callbacks) (priors callbacks) (run command callbacks)
  := by
  induction callbacks using reverseRecOn with
  | nil => exact collected_new command
  | append_singleton callbacks c ih =>
    obtain ⟨context, c⟩ := c
    rw [run, foldl_append, ← run, provided, priors]
    cases c with
    | providePriorValue value =>
      simpa [provided, priors, callback] using ih.providePriorValue value
    | provideValue inputID value =>
      simpa [provided, priors, callback] using ih.provideValue context inputID value

/-! ### Inputs that block a command -/

section Files

variable (getInfoForPath : String → FileInfo) (signature : String → CommandSignature)

/-- Why a command has to be run even if an output is there: it discovers dependencies,
it is no generator and its last success was not with this command string, an output is
missing, a good input is missing, or an output is older than a good input (in strict
mode: not newer, not even than the time zero). -/
def Outdated
    (strict : Bool) (command : Command) (values olds : List BuildValue) : Prop :=
  command.depsStyle ≠ .none
    ∨ (command.hasGeneratorFlag = false ∧ (olds.filterMap BuildValue.commandHash?).getLast?
        ≠ some (signature command.commandString))
    ∨ (∃ output ∈ command.outputs, (getInfoForPath output.canonicalPath).isMissing = true)
    ∨ (∃ value ∈ values, value.isGood ∧ value.getOutputInfo.isMissing = true)
    ∨ ∃ time ∈ inputTimes values, ∃ output ∈ command.outputs,
        let modTime := (getInfoForPath output.canonicalPath).modTime
        if strict then modTime.le time else modTime.lt time

variable {getInfoForPath signature}

/-- The outputs of a command are not up to date with the inputs if one of them is older
than a good input. -/
theorem canUpdateIfNewerWithResult_of_older
    {context : BuildContext} {outputInfos : List FileInfo}
    {info : FileInfo} (hinfo : info ∈ outputInfos)
    {modTime : FileTimestamp} (hnewest : modTime.le task.newestModTime = true)
    (holder : (if context.strict then info.modTime.le modTime else info.modTime.lt modTime) = true) :
  task.canUpdateIfNewerWithResult context outputInfos = false
  := by
  rw [canUpdateIfNewerWithResult, all_eq_false]
  refine ⟨info, hinfo, ?_⟩
  cases hstrict : context.strict with
  | true =>
    rw [hstrict] at holder
    have hle := le_trans holder hnewest
    simp [hle]
  | false =>
    rw [hstrict] at holder
    have hlt := lt_of_lt_of_le holder hnewest
    simp [hlt]

theorem zero_le (time : FileTimestamp) :
  FileTimestamp.le ⟨0, 0⟩ time = true
  := by
  rw [le_iff]
  have hseconds := UInt64.zero_le (a := time.seconds)
  obtain hlt | heq := UInt64.lt_or_eq_of_le hseconds
  · exact .inl hlt
  · exact .inr ⟨heq, UInt64.zero_le⟩

/-- No time of a good input is after the newest time. -/
theorem Collected.le_newest (h : Collected command values olds task)
    (hgood : ∀ value ∈ values, value.isGood → value.getOutputInfo.isMissing = false)
    {time : FileTimestamp} (htime : time ∈ inputTimes values) :
  time.le task.newestModTime = true
  := by
  obtain rfl | htime := mem_cons.mp htime
  · exact zero_le _
  · obtain ⟨value, hvalue, rfl⟩ := mem_map.mp htime
    obtain ⟨hvalue, hvgood⟩ := mem_filter.mp hvalue
    exact h.newest value hvalue hvgood (hgood value hvalue hvgood)

/-- A command is just updated exactly if it is not outdated. -/
theorem Collected.update_iff
    {context : BuildContext} (h : Collected command values olds task) :
  (task.canUpdateIfNewer
    && !(!command.hasGeneratorFlag
      && (!task.hasPriorResult || task.priorCommandHash != signature command.commandString))
    && task.canUpdateIfNewerWithResult context
      (command.outputs.map (getInfoForPath ·.canonicalPath))) = true
    ↔ ¬ Outdated getInfoForPath signature context.strict command values olds
  := by
  have hprior : (!(!command.hasGeneratorFlag
      && (!task.hasPriorResult || task.priorCommandHash != signature command.commandString))) = true
      ↔ ¬ (command.hasGeneratorFlag = false ∧ (olds.filterMap BuildValue.commandHash?).getLast?
        ≠ some (signature command.commandString)) := by
    rw [← h.prior]
    cases command.hasGeneratorFlag <;> cases task.hasPriorResult <;> simp
  rw [Bool.and_eq_true, Bool.and_eq_true, h.canUpdate, hprior, Outdated]
  constructor
  · rintro ⟨⟨⟨hdeps, hgood⟩, hhash⟩, hresult⟩
    rintro (hstyle | houtdated | ⟨output, houtput, hmissing⟩ | ⟨value, hvalue, hvgood, hmissing⟩
      | ⟨time, htime, output, houtput, holder⟩)
    · exact hstyle hdeps
    · exact hhash houtdated
    · rw [canUpdateIfNewerWithResult, all_eq_true] at hresult
      have hout := hresult _ (mem_map_of_mem houtput)
      simp [hmissing] at hout
    · rw [hgood value hvalue hvgood] at hmissing
      cases hmissing
    · rw [canUpdateIfNewerWithResult_of_older (mem_map_of_mem houtput)
        (h.le_newest hgood htime) holder] at hresult
      cases hresult
  · intro houtdated
    simp only [not_or] at houtdated
    obtain ⟨hdeps, hhash, hpresent, hgood, hnewer⟩ := houtdated
    refine ⟨⟨⟨not_not.mp hdeps, fun value hvalue hvgood => Bool.of_not_eq_true fun hmissing =>
      hgood ⟨value, hvalue, hvgood, hmissing⟩⟩, hhash⟩, ?_⟩
    rw [canUpdateIfNewerWithResult, all_eq_true]
    intro info hinfo
    obtain ⟨output, houtput, rfl⟩ := mem_map.mp hinfo
    have hmissing : (getInfoForPath output.canonicalPath).isMissing = false :=
      Bool.of_not_eq_true fun hmissing => hpresent ⟨output, houtput, hmissing⟩
    have holder := fun holder => hnewer ⟨_, h.newest_mem, output, houtput, holder⟩
    cases hstrict : context.strict with
    | true => simpa [hmissing, hstrict] using holder
    | false => simpa [hmissing, hstrict] using holder

/-- **Failed inputs block a command.**  After any callbacks in any contexts, a command that is not
phony, and for which a failed or a skipped command or a missing input was provided, is neither run
nor completed as successful exactly if the build is cancelled or the command is outdated. -/
theorem inputsAvailable_of_blocked_iff
    (context : BuildContext) (command : Command) (callbacks : List (BuildContext × Callback))
    (hphony : command.isPhony = false)
    (hblocked : ∃ value ∈ provided callbacks, value = .failedCommand ∨ value = .skippedCommand
      ∨ value = .missingInput) :
  (inputsAvailable getInfoForPath signature context command (run command callbacks)).2.IsBlocked
    ↔ context.isCancelled = true ∨ Outdated getInfoForPath signature context.strict command
      (provided callbacks) (priors callbacks)
  := by
  have hrun := collected_run command callbacks
  have hskip : (run command callbacks).shouldSkip = true := by
    rw [hrun.shouldSkip, any_eq_true]
    obtain ⟨value, hvalue, rfl | rfl | rfl⟩ := hblocked <;> exact ⟨_, hvalue, rfl⟩
  rw [inputsAvailable, hphony]
  cases hcancelled : context.isCancelled with
  | true => exact iff_of_true trivial (.inl rfl)
  | false =>
    by_cases houtdated : Outdated getInfoForPath signature context.strict command
        (provided callbacks) (priors callbacks)
    · have hupdate := Bool.of_not_eq_true (fun h =>
        hrun.update_iff.mp h houtdated)
      refine iff_of_true ?_ (.inr houtdated)
      simp only [Bool.false_eq_true, if_false, hupdate, hskip, if_true]
      split_ifs <;> trivial
    · have hupdate := hrun.update_iff.mpr houtdated
      refine iff_of_false ?_ (by simpa using houtdated)
      simp only [Bool.false_eq_true, if_false, hupdate, if_true]
      exact id

end Files

/-- A command whose only input failed is skipped if its output is missing. -/
theorem inputsAvailable_of_blocked_missing :
  (inputsAvailable (fun _ => .zero) (fun _ => {}) {} { outputs := [⟨"out", "out"⟩], commandString := "cc" }
    (run { outputs := [⟨"out", "out"⟩], commandString := "cc" }
      [({}, .provideValue 0 .failedCommand)])).2.IsBlocked
  := by
  refine (inputsAvailable_of_blocked_iff _ _ _ rfl ?_).mpr (.inr ?_)
  · exact ⟨.failedCommand, by decide, Or.inl rfl⟩
  · exact Or.inr (Or.inr (Or.inl ⟨⟨"out", "out"⟩, by decide, by decide⟩))

/-- A command that was successful in the last build and whose output is there is
completed as successful although its only input failed. -/
theorem inputsAvailable_updates_blocked :
  let info : FileInfo := { FileInfo.zero with size := 1, modTime := ⟨1, 0⟩ }
  let command : Command := { outputs := [⟨"out", "out"⟩], commandString := "cc" }
  let callbacks : List (BuildContext × Callback) :=
    [({}, .providePriorValue (.successfulCommand [info] {})), ({}, .provideValue 0 .failedCommand)]
  (inputsAvailable (fun _ => info) (fun _ => {}) {} command (run command callbacks)).2
    = .complete (.successfulCommand [info] {}) false
  := by decide

end NinjaCommandTask

end LLBuild.Ninja

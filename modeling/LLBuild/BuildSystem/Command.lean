import LLBuild.BuildSystem.BuildValue

/-!
# Commands and their tasks

A command of a build description is run by a task.  The task requests the values of the
command's inputs, hands them to the command in the order in which they come, and when all
are there has the command executed, unless the build is cancelled or the delegate vetoes it.
The value it completes with is turned into the values of the command's outputs.

External commands are those that run a process or do as if they did.  A phony command is an
external command that only orders other commands.  Symbolic links and the removal of stale
files are commands of their own.

What the code asserts is modelled by `none`, and so is a process status it has no case for.
-/

namespace LLBuild

open BinaryCoding BuildValue

namespace BuildSystem

/-! ### Nodes -/

inductive NodeType where
  | plain
  | directory
  | directoryStructure
  | virtual
deriving DecidableEq

/-- A node of a build description. -/
structure BuildNode where
  name : Bytes
  type : NodeType := .plain
  commandTimestamp : Bool := false
  mutated : Bool := false
deriving DecidableEq

namespace BuildNode

variable (node : BuildNode)

def isVirtual : Bool := node.type = .virtual

def isDirectory : Bool := node.type = .directory

/-- The node stands for nothing in the file system, nor for the time of a command. -/
def isAbstract : Bool := node.isVirtual && !node.commandTimestamp

end BuildNode

/-- What there is at the paths. -/
abbrev FileSystem : Type := Bytes → FileInfo

/-- How a process ended. -/
inductive ProcessStatus where
  | succeeded
  | failed
  | cancelled
  | skipped
  | unknown
deriving DecidableEq

/-- A call of the delegate about a command. -/
inductive Callback where
  | commandPreparing
  | commandStarted
  | commandFinished (status : ProcessStatus)
  | commandCannotBuildOutputDueToMissingInputs (missingInputKeys : List Bytes)
  | hadCommandFailure
deriving DecidableEq

/-- What an execution depends on: the files before and after it, the epoch of the build and
how the process ends. -/
structure Execution where
  before : FileSystem
  after : FileSystem
  epoch : UInt64
  status : ProcessStatus

/-! ### External commands -/

structure ExternalCommand where
  name : Bytes
  inputs : List BuildNode := []
  outputs : List BuildNode := []
  allowMissingInputs : Bool := false
  allowModifiedOutputs : Bool := false
  alwaysOutOfDate : Bool := false
  /-- The command is a phony one. -/
  phony : Bool := false
deriving DecidableEq

/-- What a command knows in a build. -/
structure ExternalCommand.State where
  skipValue : Option BuildValue := none
  missingInputKeys : List Bytes := []
  canUpdateIfNewer : Bool := true
  hasPriorResult : Bool := false

namespace ExternalCommand

variable (c : ExternalCommand)

/-- The value of an output, from the value of the command.  An output of a phony command
that is abstract is good whatever came of the command. -/
def getResultForOutput (node : BuildNode) (value : BuildValue) :
    Option BuildValue :=
  if c.phony && node.isAbstract then some makeVirtualInput
  else match value.kind with
    | .failedCommand | .propagatedFailureCommand | .cancelledCommand => some makeFailedInput
    | .skippedCommand => some makeSkippedCommand
    | .successfulCommand | .successfulCommandWithOutputSignature =>
        if node.isAbstract then some makeVirtualInput
        else (c.outputs.findIdx? (· = node)).bind (fun idx =>
          (value.getNthOutputInfo idx).map (fun info =>
            if info.isMissing then makeMissingOutput else makeExistingInput info))
    | _ => none

variable (fs : FileSystem)

/-- Whether a value from an earlier build still holds. -/
def isResultValid (value : BuildValue) : Bool :=
  !c.alwaysOutOfDate && value.isSuccessfulCommand
    && c.outputs.zipIdx.all (fun (node, i) =>
      node.isVirtual
        || (if node.mutated then
            (value.getNthOutputInfo i).map FileInfo.isMissing = some (fs node.name).isMissing
          else value.getNthOutputInfo i = some (fs node.name)))

variable (s : State)

/-- A build begins. -/
def start : State :=
  { s with skipValue := none, missingInputKeys := [] }

def providePriorValue (value : BuildValue) : State :=
  if value.isSuccessfulCommand then { s with hasPriorResult := true } else s

/-- The value to skip the command with because of an input, if it is to be skipped. -/
def getSkipValueForInput (value : BuildValue) : Option (Option BuildValue) :=
  match value.kind with
  | .directoryTreeSignature | .directoryTreeStructureSignature | .existingInput
  | .virtualInput | .staleFileRemoval => some none
  | .missingOutput => some none
  | .missingInput =>
      if c.allowMissingInputs then some none else some (some makePropagatedFailureCommand)
  | .failedInput => some (some makePropagatedFailureCommand)
  | .skippedCommand => some none
  | _ => none

/-- Take the value of an input.  The values of commands, which are those of custom tasks,
are passed over. -/
def provideValue (inputID : ℕ) (key : Bytes)
    (value : BuildValue) : Option State :=
  match value.kind with
  | .successfulCommand | .successfulCommandWithOutputSignature | .failedCommand
  | .propagatedFailureCommand | .cancelledCommand => some s
  | kind =>
      (c.getSkipValueForInput value).map (fun
        | some skip => { s with
            skipValue := some skip
            missingInputKeys :=
              if kind = .missingInput then
                s.missingInputKeys ++ [((c.inputs[inputID]?).map BuildNode.name).getD key]
              else s.missingInputKeys }
        | none => if kind = .missingOutput then { s with canUpdateIfNewer := false } else s)

/-- Take the values of inputs one after the other. -/
def provideValues (provided : List (ℕ × Bytes × BuildValue)) :
    Option State :=
  provided.foldlM (fun s (inputID, key, value) => c.provideValue s inputID key value) s

/-- Whether the command need not be run when it has the result. -/
def canUpdateIfNewerWithResult (result : BuildValue) : Bool :=
  c.allowModifiedOutputs && result.outputInfos.all (fun info => !info.isMissing)

/-- What is recorded about an output. -/
def outputInfo (epoch : UInt64) (node : BuildNode) : FileInfo :=
  if node.commandTimestamp then { FileInfo.zero with size := epoch }
  else if node.isVirtual then .zero
  else fs node.name

/-- The value of the command if it succeeded. -/
def computeCommandResult (epoch : UInt64) : BuildValue :=
  makeSuccessfulCommand
    (if c.outputs.isEmpty then [{ FileInfo.zero with size := epoch }]
    else c.outputs.map (outputInfo fs epoch))

/-- The command is skipped, found to be up to date, or executed. -/
def execute (x : Execution) :
    Option (List Callback × BuildValue) :=
  match s.skipValue with
  | some skip =>
      some (if s.missingInputKeys.isEmpty then []
        else [.commandCannotBuildOutputDueToMissingInputs s.missingInputKeys, .hadCommandFailure],
        skip)
  | none =>
      let result := c.computeCommandResult x.before x.epoch
      if s.canUpdateIfNewer && s.hasPriorResult && c.canUpdateIfNewerWithResult result then
        some ([], result)
      else
        let callbacks := [.commandStarted, .commandFinished x.status]
        match x.status with
        | .failed => some (callbacks, makeFailedCommand)
        | .cancelled => some (callbacks, makeCancelledCommand)
        | .succeeded => some (callbacks, c.computeCommandResult x.after x.epoch)
        | .skipped | .unknown => none

end ExternalCommand

/-! ### Other commands -/

/-- A command that creates a symbolic link. -/
structure SymlinkCommand where
  name : Bytes
  outputs : List BuildNode := []
  actualOutputPath : Bytes
deriving DecidableEq

namespace SymlinkCommand

def getResultForOutput (value : BuildValue) : Option BuildValue :=
  match value.kind with
  | .failedCommand | .propagatedFailureCommand | .cancelledCommand => some makeFailedInput
  | .skippedCommand => some makeSkippedCommand
  | .successfulCommand | .successfulCommandWithOutputSignature =>
      (value.getNthOutputInfo 0).map (fun info =>
        if info.isMissing then makeMissingOutput else makeExistingInput info)
  | _ => none

def execute (c : SymlinkCommand) (x : Execution) : Option (List Callback × BuildValue) :=
  if c.outputs.isEmpty || c.actualOutputPath.isEmpty then some ([], makeFailedCommand)
  else
    let callbacks := [.commandStarted, .commandFinished x.status]
    match x.status with
    | .succeeded => some (callbacks, makeSuccessfulCommand [x.after c.actualOutputPath])
    | .failed => some (callbacks, makeFailedCommand)
    | _ => none

end SymlinkCommand

/-- A command that removes the files earlier builds left. -/
structure StaleFileRemovalCommand where
  name : Bytes
  outputs : List BuildNode := []
  expectedOutputs : StringList := {}
deriving DecidableEq

namespace StaleFileRemovalCommand

def getResultForOutput (value : BuildValue) : BuildValue :=
  match value.kind with
  | .failedCommand | .propagatedFailureCommand | .cancelledCommand => makeFailedInput
  | .skippedCommand => makeSkippedCommand
  | _ => value

def execute (c : StaleFileRemovalCommand) : List Callback × BuildValue :=
  ([.commandStarted, .commandFinished .succeeded],
    { kind := .staleFileRemoval, stringValues := c.expectedOutputs })

end StaleFileRemovalCommand

/-- A command declared in a build description. -/
inductive Command where
  | external (c : ExternalCommand)
  | symlink (c : SymlinkCommand)
  | staleFileRemoval (c : StaleFileRemovalCommand)
deriving DecidableEq

namespace Command

def outputs : Command → List BuildNode
  | external c => c.outputs
  | symlink c => c.outputs
  | staleFileRemoval c => c.outputs

/-- The value of an output, from the value of the command. -/
def getResultForOutput (node : BuildNode) (value : BuildValue) : Command → Option BuildValue
  | external c => c.getResultForOutput node value
  | symlink _ => SymlinkCommand.getResultForOutput value
  | staleFileRemoval _ => some (StaleFileRemovalCommand.getResultForOutput value)

/-- The command is a phony one, whose abstract outputs are good whatever came of it. -/
def isPhony : Command → Bool
  | external c => c.phony
  | _ => false

/-- An output of a command that failed or was cancelled is a failed input, unless it is an
abstract output of a phony command. -/
theorem getResultForOutput_of_failed
    {c : Command} {node : BuildNode} {value : BuildValue}
    (hphony : (c.isPhony && node.isAbstract) = false)
    (hvalue : value.kind = .failedCommand ∨ value.kind = .propagatedFailureCommand
      ∨ value.kind = .cancelledCommand) :
  c.getResultForOutput node value = some makeFailedInput
  := by
  cases c with
  | external c =>
    rw [getResultForOutput, ExternalCommand.getResultForOutput,
      if_neg (by rw [Bool.not_eq_true]; exact hphony)]
    rcases hvalue with hvalue | hvalue | hvalue <;> rw [hvalue]
  | symlink c =>
    rw [getResultForOutput, SymlinkCommand.getResultForOutput]
    rcases hvalue with hvalue | hvalue | hvalue <;> rw [hvalue]
  | staleFileRemoval c =>
    rw [getResultForOutput, StaleFileRemovalCommand.getResultForOutput]
    rcases hvalue with hvalue | hvalue | hvalue <;> rw [hvalue]

end Command

/-! ### The task of a command -/

namespace CommandTask

/-- The job of the task, when all inputs are there.  The build may be cancelled, or the
delegate may veto the command. -/
def job (isCancelled shouldCommandStart : Bool) (execute : Option (List Callback × BuildValue)) :
    Option (List Callback × BuildValue) :=
  if isCancelled then some ([], makeCancelledCommand)
  else if !shouldCommandStart then some ([.commandFinished .skipped], makeSkippedCommand)
  else execute.map (fun (callbacks, result) =>
    (callbacks ++ if result.kind = .failedCommand then [.hadCommandFailure] else [], result))

end CommandTask

/-- A run of the task of an external command on values of its inputs: what the command knew
before, its value from an earlier build, the values it is provided with, in their order, and
what the job finds.  The values of all inputs are among those that are provided. -/
structure TaskRun (c : ExternalCommand) (node : BuildNode → BuildValue) where
  initial : ExternalCommand.State
  prior : Option BuildValue
  provided : List (ℕ × Bytes × BuildValue)
  inputs_provided : ∀ i n, c.inputs[i]? = some n → (i, n.name, node n) ∈ provided
  isCancelled : Bool
  shouldCommandStart : Bool
  execution : Execution

namespace TaskRun

variable {c : ExternalCommand} {node : BuildNode → BuildValue}

/-- The command when it has its value from an earlier build. -/
def started (r : TaskRun c node) : ExternalCommand.State :=
  let s := ExternalCommand.start r.initial
  match r.prior with
  | some value => ExternalCommand.providePriorValue s value
  | none => s

/-- What is reported by the job, and the value the task completes with. -/
def result (r : TaskRun c node) : Option (List Callback × BuildValue) :=
  (c.provideValues r.started r.provided).bind (fun s =>
    CommandTask.job r.isCancelled r.shouldCommandStart (c.execute s r.execution))

/-- A run of an external command that is not cancelled or vetoed, on values that come in
the order of its inputs. -/
def inOrder (c : ExternalCommand) (node : BuildNode → BuildValue) (x : Execution) :
    TaskRun c node where
  initial := {}
  prior := none
  provided := c.inputs.zipIdx.map (fun (n, i) => (i, n.name, node n))
  inputs_provided i n hi := List.mem_map.mpr ⟨(n, i), List.mem_zipIdx_iff_getElem?.mpr hi, rfl⟩
  isCancelled := false
  shouldCommandStart := true
  execution := x

end TaskRun

end BuildSystem

end LLBuild

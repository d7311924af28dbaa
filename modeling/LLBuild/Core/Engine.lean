import LLBuild.Basic.Table
import LLBuild.Core.Rule
import Mathlib.Tactic.Simps.Basic

/-!
# The state of the build engine

The rules the engine has looked up, with the state each is in, and its work queues.  The
record that belongs to a state is a part of it: a rule that is scanning carries its scan
record, a rule in progress the information about its task, as in the union of the source.
The table of the tasks is the table of the rules in progress, and a task is named by the
key of its rule.

The stacks `ruleInfosToScan`, `finishedInputRequests` and `finishedTaskInfos` have their
back at the head of the list; `inputRequests` and `readyTaskInfos` are queues.
-/

namespace LLBuild

section Types

variable (Key Value : Type)

/-- A request to scan a rule, at the input considered next. -/
structure RuleScanRequest where
  /-- The rule making the request. -/
  ruleInfo : Key
  /-- The input index being considered. -/
  inputIndex : ℕ
  /-- The input being considered, if already looked up. -/
  inputRuleInfo : Option Key
  orderOnly : Bool
  singleUse : Bool
  /-- Whether the rule is known to need to run, and the scan only checks the dependencies
  it asked to have checked before it runs. -/
  needsToRun : Bool
  deriving DecidableEq

/-- What waits for the scan of a rule. -/
structure RuleScanRecord where
  pausedInputRequests : List (TaskInputRequest Key)
  deferredScanRequests : List (RuleScanRequest Key)
  deriving DecidableEq

/-- The information about the task of a rule in progress. -/
structure TaskInfo where
  /-- The input requests that are fulfilled once the task is complete. -/
  requestedBy : List (TaskInputRequest Key)
  /-- The scan requests that wait for the task. -/
  deferredScanRequests : List (RuleScanRequest Key)
  /-- The number of inputs the task is waiting for. -/
  waitCount : ℕ
  discoveredDependencies : List (Dependency Key)
  /-- The callbacks the task has received. -/
  history : List (Callback Key Value)
  /-- Whether the task has reported its result. -/
  reported : Bool
  deriving DecidableEq

/-- The state of a rule. A scan record is absent once its storage has been freed. -/
inductive RuleState where
  | incomplete
  | isScanning (pendingScanRecord : Option (RuleScanRecord Key))
  | needsToRun
  | doesNotNeedToRun
  | inProgressWaiting (pendingTaskInfo : TaskInfo Key Value)
  | inProgressComputing (pendingTaskInfo : TaskInfo Key Value)
  | complete
  deriving DecidableEq

/-- The information about a rule the engine has looked up. -/
structure RuleInfo where
  /-- The signature of the rule. -/
  signature : UInt64
  /-- The most recent result. -/
  result : Result Key Value
  state : RuleState Key Value
  wasForced : Bool
  deriving DecidableEq

/-- The kinds of the states of a rule. -/
inductive StateKind where
  | incomplete
  | isScanning
  | needsToRun
  | doesNotNeedToRun
  | inProgressWaiting
  | inProgressComputing
  | complete
  deriving DecidableEq

/-- The kinds between the end of the scan and completion. -/
def StateKind.isPastScanning : StateKind → Bool
  | needsToRun => true
  | doesNotNeedToRun => true
  | inProgressWaiting => true
  | inProgressComputing => true
  | _ => false

/-- Behaviour the source leaves undefined, and its call of `abort`. -/
inductive Trap where
  /-- A scan record was used after its storage had been freed. -/
  | danglingScanRecord
  /-- An iterator or an index past the end was dereferenced. -/
  | pastTheEnd
  /-- A task was used that is not in progress. -/
  | danglingTaskInfo
  /-- A task requested an input when it was not waiting for inputs. -/
  | abort
  deriving DecidableEq

/-- The build engine. -/
structure Engine where
  currentEpoch : ℕ
  buildCancelled : Bool
  ruleInfos : Table Key (RuleInfo Key Value)
  inputRequests : List (TaskInputRequest Key)
  finishedInputRequests : List (TaskInputRequest Key)
  ruleInfosToScan : List (RuleScanRequest Key)
  readyTaskInfos : List Key
  numOutstandingUnfinishedTasks : ℕ
  finishedTaskInfos : List Key
  db : Option (BuildDB Key Value)
  /-- What happened during the build, the latest first. -/
  events : List (Event Key Value)
  trap : Option Trap

end Types

variable {Key Value : Type}

namespace RuleState

/-- The task of a rule in progress. -/
def taskInfo : RuleState Key Value → Option (TaskInfo Key Value)
  | inProgressWaiting t => some t
  | inProgressComputing t => some t
  | _ => none

/-- The record of a rule that is scanning. -/
def scanRecord : RuleState Key Value → Option (RuleScanRecord Key)
  | isScanning r => r
  | _ => none

/-- Change the task of a rule in progress. -/
def mapTaskInfo (f : TaskInfo Key Value → TaskInfo Key Value) :
    RuleState Key Value → RuleState Key Value
  | inProgressWaiting t => inProgressWaiting (f t)
  | inProgressComputing t => inProgressComputing (f t)
  | s => s

/-- The kind of a state. -/
def kind : RuleState Key Value → StateKind
  | incomplete => .incomplete
  | isScanning _ => .isScanning
  | needsToRun => .needsToRun
  | doesNotNeedToRun => .doesNotNeedToRun
  | inProgressWaiting _ => .inProgressWaiting
  | inProgressComputing _ => .inProgressComputing
  | complete => .complete

variable {s : RuleState Key Value}

theorem kind_eq_isScanning :
  s.kind = .isScanning ↔ ∃ record, s = .isScanning record
  := by
  cases s <;> simp [kind]

theorem kind_eq_doesNotNeedToRun :
  s.kind = .doesNotNeedToRun ↔ s = .doesNotNeedToRun
  := by
  cases s <;> simp [kind]

theorem kind_eq_inProgressWaiting :
  s.kind = .inProgressWaiting ↔ ∃ t, s = .inProgressWaiting t
  := by
  cases s <;> simp [kind]

theorem kind_eq_inProgressComputing :
  s.kind = .inProgressComputing ↔ ∃ t, s = .inProgressComputing t
  := by
  cases s <;> simp [kind]

theorem taskInfo_eq_some {t : TaskInfo Key Value} :
  s.taskInfo = some t ↔ s = .inProgressWaiting t ∨ s = .inProgressComputing t
  := by
  cases s <;> simp [taskInfo]

theorem taskInfo_mapTaskInfo {t : TaskInfo Key Value}
    (h : s.taskInfo = some t) (f : TaskInfo Key Value → TaskInfo Key Value) :
  (s.mapTaskInfo f).taskInfo = some (f t)
  := by
  obtain rfl | rfl := taskInfo_eq_some.mp h
  · rfl
  · rfl

theorem scanRecord_eq_some {record : RuleScanRecord Key} :
  s.scanRecord = some record ↔ s = .isScanning (some record)
  := by
  cases s <;> simp [scanRecord]

end RuleState

namespace RuleInfo

section

variable (r : RuleInfo Key Value)

/-- The rule is being scanned. -/
abbrev IsScanning : Prop :=
  r.state.kind = .isScanning

/-- The rule is in progress, but is waiting for additional inputs. -/
abbrev IsInProgressWaiting : Prop :=
  r.state.kind = .inProgressWaiting

/-- The rule is in progress, and is computing its result. -/
abbrev IsInProgressComputing : Prop :=
  r.state.kind = .inProgressComputing

/-- The rule is in progress. -/
abbrev IsInProgress : Prop :=
  r.IsInProgressWaiting ∨ r.IsInProgressComputing

theorem taskInfo_of_isInProgress {r : RuleInfo Key Value} (h : r.IsInProgress) :
  ∃ t, r.state.taskInfo = some t
  := by
  obtain h | h := h
  · obtain ⟨t, ht⟩ := RuleState.kind_eq_inProgressWaiting.mp h
    exact ⟨t, by rw [ht]; rfl⟩
  · obtain ⟨t, ht⟩ := RuleState.kind_eq_inProgressComputing.mp h
    exact ⟨t, by rw [ht]; rfl⟩

end

variable (epoch : ℕ) (r : RuleInfo Key Value)

/-- The rule is complete in the build `epoch`. -/
abbrev IsComplete : Prop :=
  r.state.kind = .complete ∧ r.result.builtAt = epoch

/-- The rule has passed the scan in the build `epoch`. -/
abbrev IsScanned : Prop :=
  r.IsComplete epoch ∨ r.state.kind.isPastScanning

/-- Set the state of the rule. -/
@[simps]
def setState (state : RuleState Key Value) (r : RuleInfo Key Value) : RuleInfo Key Value :=
  { r with state := state }

/-- Set the dependencies of the rule. -/
@[simps]
def setDependencies (dependencies : List (Dependency Key)) (r : RuleInfo Key Value) :
    RuleInfo Key Value where
  signature := r.signature
  result := { r.result with dependencies := dependencies }
  state := r.state
  wasForced := r.wasForced

/-- Set whether the rule was forced. -/
@[simps]
def setWasForced (b : Bool) (r : RuleInfo Key Value) : RuleInfo Key Value :=
  { r with wasForced := b }

/-- Mark the rule as complete in the build `epoch`. -/
@[simps]
def setComplete : RuleInfo Key Value where
  signature := r.signature
  result := { r.result with builtAt := epoch }
  state := .complete
  wasForced := r.wasForced

end RuleInfo

namespace Engine

/-- Report an event. -/
@[simps]
def log (event : Event Key Value) (s : Engine Key Value) : Engine Key Value :=
  { s with events := event :: s.events }

/-- Stop at behaviour that the source leaves undefined. -/
@[simps]
def trapped (t : Trap) (s : Engine Key Value) : Engine Key Value :=
  { s with trap := some t }

/-- Mark the build as cancelled. -/
@[simps]
def setCancelled (s : Engine Key Value) : Engine Key Value :=
  { s with buildCancelled := true }

/-- Report an error and have the build cancelled. -/
@[simps!]
def errorCancel (message : String) (s : Engine Key Value) : Engine Key Value :=
  (s.log (.error message)).setCancelled

variable (requests : List (TaskInputRequest Key))

@[simps]
def setInputRequests (s : Engine Key Value) :
    Engine Key Value :=
  { s with inputRequests := requests }

@[simps]
def setFinishedInputRequests (s : Engine Key Value) :
    Engine Key Value :=
  { s with finishedInputRequests := requests }

@[simps]
def setRuleInfosToScan (requests : List (RuleScanRequest Key)) (s : Engine Key Value) :
    Engine Key Value :=
  { s with ruleInfosToScan := requests }

variable (tasks : List Key)

@[simps]
def setReadyTaskInfos (s : Engine Key Value) : Engine Key Value :=
  { s with readyTaskInfos := tasks }

variable (s : Engine Key Value)

@[simps]
def setFinishedTaskInfos : Engine Key Value :=
  { s with finishedTaskInfos := tasks }

@[simps]
def setOutstanding (n : ℕ) (s : Engine Key Value) : Engine Key Value :=
  { s with numOutstandingUnfinishedTasks := n }

@[simps]
def setDB (db : Option (BuildDB Key Value)) (s : Engine Key Value) : Engine Key Value :=
  { s with db := db }

/-- Add requests to the queue of input requests. -/
@[simps!]
def addInputRequests :
    Engine Key Value :=
  s.setInputRequests (s.inputRequests ++ requests)

/-- Push requests on the stack of finished input requests. -/
@[simps!]
def addFinishedInputRequests :
    Engine Key Value :=
  s.setFinishedInputRequests (requests.reverse ++ s.finishedInputRequests)

/-- Push requests on the stack of scan requests. -/
@[simps!]
def addRuleInfosToScan (requests : List (RuleScanRequest Key)) (s : Engine Key Value) :
    Engine Key Value :=
  s.setRuleInfosToScan (requests.reverse ++ s.ruleInfosToScan)

/-- Add tasks to the queue of ready tasks. -/
@[simps!]
def addReadyTaskInfos : Engine Key Value :=
  s.setReadyTaskInfos (s.readyTaskInfos ++ tasks)

end Engine

end LLBuild

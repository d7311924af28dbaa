import Mathlib.Data.List.Basic

/-!
# Rules, tasks and results

What the build engine stores about a rule, and what it knows of its client: the rules,
which are looked up by key and say whether a stored value is still valid, and the tasks,
which are told about their start, their inputs and the moment all inputs are available,
and which answer each of these callbacks by calls back into the engine.
-/

namespace LLBuild

variable (Key Value : Type)

/-- An element of a dependency list, with its flags. -/
structure Dependency where
  /-- The key of the input. -/
  key : Key
  /-- The input need only be available, it does not invalidate the rule. -/
  orderOnly : Bool
  /-- The dependency is dropped before the rule is scanned the next time. -/
  singleUse : Bool
  deriving DecidableEq

/-- The result of executing a task to produce the value for a key. -/
structure Result where
  /-- The last value that resulted from executing the task. -/
  value : Value
  /-- The signature of the rule that generated the result. -/
  signature : UInt64
  /-- The build during which the value was computed. -/
  computedAt : ℕ
  /-- The build at which the result was last checked to be up to date. -/
  builtAt : ℕ
  /-- The dependencies required by the generation. -/
  dependencies : List (Dependency Key)
  deriving DecidableEq

/-- A callback of the engine to a task. -/
inductive Callback where
  | start
  | providePriorValue (value : Value)
  | provideValue (inputID : UInt64) (key : Key) (value : Value)
  | inputsAvailable
  deriving DecidableEq

/-- A request a task makes of the engine while it handles a callback. -/
inductive TaskCall where
  | request (key : Key) (inputID : UInt64)
  | requestSingleUse (key : Key) (inputID : UInt64)
  | mustFollow (key : Key)
  deriving DecidableEq

/-- What a task reports once it has computed its value. -/
structure Completion where
  value : Value
  /-- Treat the value as changed even if it is not. -/
  forceChange : Bool
  /-- The inputs the task discovered during its execution. -/
  discoveredDependencies : List Key

/-- A task is given by what it does after each sequence of callbacks: the calls it makes
in response to the last one, and what it reports when it is done. -/
structure Task where
  respond : List (Callback Key Value) → List (TaskCall Key)
  finish : List (Callback Key Value) → Completion Key Value

/-- The progress of a rule that is reported to the rule. -/
inductive StatusKind where
  | isScanning
  | isUpToDate
  | isComplete
  deriving DecidableEq

/-- The two ways in which the engine tries to break a cycle. -/
inductive CycleAction where
  | forceBuild
  | supplyPriorValue
  deriving DecidableEq

/-- The reason for which a rule needs to run. -/
inductive RunReason where
  | neverBuilt
  | signatureChanged
  | invalidValue
  | inputRebuilt
  | forced
  deriving DecidableEq

/-- The calls of the engine to the database that can fail. -/
inductive DBCall where
  | buildStarted
  | lookupRuleResult (key : Key)
  | setRuleResult (key : Key)
  | setCurrentIteration
  deriving DecidableEq

/-- The database: the last result stored for each key and the last build. -/
structure BuildDB where
  currentEpoch : ℕ
  results : Key → Option (Result Key Value)

/-- A request for an input. -/
structure TaskInputRequest where
  /-- The task making the request, none for the request of a build. -/
  taskInfo : Option Key
  /-- The input ID the task provided. -/
  inputID : UInt64
  /-- The rule for the input which was requested. -/
  inputRuleInfo : Key
  /-- Whether the input is to be executed as order-only. -/
  orderOnly : Bool
  /-- Force the use of a prior value. -/
  forcePriorValue : Bool
  /-- Whether the input is removed as a dependency after execution. -/
  singleUse : Bool
  deriving DecidableEq

/-- What the engine tells its client, and the requests and answers it handles. -/
inductive Event where
  | updateStatus (key : Key) (status : StatusKind)
  | determinedRuleNeedsToRun (key : Key) (reason : RunReason) (input : Option Key)
  | createTask (key : Key)
  | callback (key : Key) (callback : Callback Key Value)
  | requested (request : TaskInputRequest Key)
  | answered (request : TaskInputRequest Key) (value : Option Value)
  | cycleDetected (cycle : List Key)
  | error (message : String)
  deriving DecidableEq

/-- The client of the engine during one build: the rules its delegate looks up, with the
external state they see, the delegate's decisions and the failures of the database. -/
structure Client where
  /-- The signature of the rule for a key. -/
  lookupRule : Key → UInt64
  isResultValid : Key → Value → Bool
  checksDependenciesBeforeRunning : Key → Bool
  mustCheckDependencyBeforeRunning : Key → Key → Bool
  createTask : Key → Task Key Value
  shouldResolveCycle : List (Event Key Value) → List Key → Key → CycleAction → Bool
  /-- The error the database reports for a call, if it fails. -/
  dbError : DBCall Key → Option String

variable {Key Value}

/-- Remove the entries that are flagged as single use. -/
def cleanSingleUseDependencies (dependencies : List (Dependency Key)) :
    List (Dependency Key) :=
  dependencies.filter (fun d => !d.singleUse)

/-- The result of a rule that has never been built. -/
def Result.empty [Inhabited Value] : Result Key Value where
  value := default
  signature := 0
  computedAt := 0
  builtAt := 0
  dependencies := []

end LLBuild

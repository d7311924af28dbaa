import LLBuild.Core.Cycle

/-!
# The execution of a build

The main loop of the engine, as a machine that takes one element from one of the work
queues at a time.  Next to its own work the only things that happen to a build are that a
task which is computing reports its result, and that the build is cancelled; these can
happen between any two steps.
-/

namespace LLBuild

variable {Key Value : Type}

/-- Where the main loop is. -/
inductive Phase (Key : Type) where
  /-- At the head of the loop. -/
  | top
  /-- Processing the scan requests, with the one that is being processed. -/
  | scanRequests (current : Option (RuleScanRequest Key))
  | inputRequests
  | finishedInputRequests
  | readyTasks
  | finishedTasks
  /-- At the end of the body of the loop. -/
  | endOfBody
  /-- Cancelling the remaining tasks, with the rule whose result was not recorded. -/
  | cancelling (unrecorded : Option Key)
  | returned (success : Bool)
  deriving DecidableEq

/-- A build in execution. -/
structure Execution (Key Value : Type) where
  engine : Engine Key Value
  buildKey : Key
  phase : Phase Key
  didWork : Bool

/-- What happens next in a build. -/
inductive Action (Key : Type) where
  /-- The engine goes on. -/
  | work
  /-- The task of a rule reports its result. -/
  | complete (key : Key)
  /-- The build is cancelled. -/
  | cancel
  deriving DecidableEq

variable [LinearOrder Key] [DecidableEq Value] [Inhabited Value]

/-- The value a task reports changes the result of its rule, and the time it was computed,
unless it is the same value and no change is forced. -/
def RuleInfo.setValue (epoch : ℕ) (value : Value) (forceChange : Bool)
    (r : RuleInfo Key Value) : RuleInfo Key Value where
  signature := r.signature
  result :=
    if !forceChange ∧ value = r.result.value then { r.result with signature := r.signature }
    else { r.result with signature := r.signature, value := value, computedAt := epoch }
  state := r.state
  wasForced := r.wasForced

variable (r : RuleInfo Key Value)

/-- A rule that is in progress or scanning becomes incomplete. -/
def RuleInfo.setCancelled : RuleInfo Key Value :=
  if r.IsInProgress ∨ r.IsScanning then r.setState .incomplete else r

/-- The scan record of a rule is freed. -/
def RuleInfo.freeScanRecord : RuleInfo Key Value :=
  if r.IsScanning then r.setState (.isScanning none) else r

namespace Engine

variable (client : Client Key Value)

/-- The request for the rule that is built, or for a discovered dependency. -/
def dummyRequest (key : Key) (orderOnly singleUse : Bool) : TaskInputRequest Key :=
  ⟨none, 0, key, orderOnly, false, singleUse⟩

variable (task : Key) (request : TaskInputRequest Key)

variable (s : Engine Key Value)

/-- Record the input of a request as a dependency of the task that made it. -/
@[simps!]
def recordDependency :
    Engine Key Value :=
  s.modifyRuleInfo client task (fun r => r.setDependencies (r.result.dependencies ++
    [⟨request.inputRuleInfo, request.orderOnly, request.singleUse⟩]))

variable (s : Engine Key Value)

omit [DecidableEq Value] in
@[simp]
theorem state_recordDependency (k k' : Key) (r : TaskInputRequest Key) :
  ((s.recordDependency client k r).ruleInfo client k').state = (s.ruleInfo client k').state
  := by
  rw [recordDependency, ruleInfo_modifyRuleInfo]
  split_ifs with h
  · rw [h]
    rfl
  · rfl

/-- Process an input request. -/
def processInputRequest :
    Engine Key Value :=
  let (isScanned, s) := s.scanRule client request.inputRuleInfo
  if !isScanned then s.pauseInputRequest client request
  else
    let (isAvailable, s) := s.demandRule client request.inputRuleInfo
    match request.taskInfo with
    | none => s
    | some task =>
        let s := s.recordDependency client task request
        if isAvailable then s.addFinishedInputRequests [request]
        else
          s.modifyTaskInfo client request.inputRuleInfo (fun t =>
            { t with requestedBy := t.requestedBy ++ [request] })

variable (s : Engine Key Value)

/-- Decrement the wait count of a task, and move it to the ready queue if necessary. -/
def decrementTaskWaitCount : Engine Key Value :=
  (s.modifyTaskInfo client task
    (fun t => { t with waitCount := t.waitCount - 1 })).readyIfNotWaiting client task

/-- Process an input request whose input is available. -/
def processFinishedInputRequest :
    Engine Key Value :=
  match request.taskInfo with
  | none => s.trapped .danglingTaskInfo
  | some task =>
      let s :=
        if request.orderOnly then s.log (.answered request none)
        else
          let value := (s.ruleInfo client request.inputRuleInfo).result.value
          (s.log (.answered request (some value))).callback client task
            (.provideValue request.inputID request.inputRuleInfo value)
      s.decrementTaskWaitCount client task

/-- Process a task whose inputs are available. -/
def processReadyTask : Engine Key Value :=
  match (s.ruleInfo client task).state.taskInfo with
  | none => s.trapped .danglingTaskInfo
  | some t =>
      let s := s.setState client task (.inProgressComputing t)
      let s := s.callback client task .inputsAvailable
      s.setOutstanding (s.numOutstandingUnfinishedTasks + 1)

/-- Enqueue a request to have a discovered dependency brought up to date. -/
def requestDiscovered (d : Dependency Key) : Engine Key Value :=
  (s.getRuleInfoForKey client d.key).addInputRequests
    [dummyRequest d.key d.orderOnly d.singleUse]

/-- Store the result of a rule in the database, if one is attached. Returns the error if
that fails. -/
def setRuleResult (key : Key) (s : Engine Key Value) : Option String × Engine Key Value :=
  match s.db with
  | none => (none, s)
  | some db =>
      match client.dbError (.setRuleResult key) with
      | some message => (some message, s)
      | none =>
          let results := Function.update db.results key (some (s.ruleInfo client key).result)
          (none, s.setDB (some { db with results := results }))

variable (t : TaskInfo Key Value)

/-- Wake up everything that waits for a task, which is not outstanding any more. -/
@[simps!]
def wakeUp (s : Engine Key Value) : Engine Key Value :=
  ((s.addRuleInfosToScan t.deferredScanRequests).addFinishedInputRequests
    t.requestedBy).setOutstanding (s.numOutstandingUnfinishedTasks - 1)

omit [DecidableEq Value] in
@[simp]
theorem ruleInfo_wakeUp (k : Key) :
  (s.wakeUp t).ruleInfo client k = s.ruleInfo client k
  := rfl

/-- Record the result of a complete rule and wake up everything that waits for its task.
Returns whether the result was recorded. -/
def recordResult (s : Engine Key Value) :
    Bool × Engine Key Value :=
  match s.setRuleResult client task with
  | (some message, s) =>
      (false, (s.log (.error message)).setOutstanding (s.numOutstandingUnfinishedTasks - 1))
  | (none, s) => (true, s.wakeUp t)

/-- Process a task that has reported its result. Returns whether the result was recorded. -/
def processFinishedTask : Bool × Engine Key Value :=
  let r := s.ruleInfo client task
  match r.state.taskInfo with
  | none => (true, s.trapped .danglingTaskInfo)
  | some t =>
      let r := r.setComplete s.currentEpoch
      let r := r.setDependencies (r.result.dependencies ++ t.discoveredDependencies)
      let s := (s.setRuleInfo task r).log (.updateStatus task .isComplete)
      (t.discoveredDependencies.foldl (requestDiscovered client) s).recordResult client task t

/-- Cancel every rule that is in progress or scanning, and the rule whose result was not
recorded, and clear the queues. -/
def cancelRemainingTasks (unrecorded : Option Key) (s : Engine Key Value) : Engine Key Value :=
  let s :=
    match unrecorded with
    | none => s
    | some key => s.setState client key .incomplete
  { s with
    ruleInfos := s.ruleInfos.map RuleInfo.setCancelled
    ruleInfosToScan := []
    inputRequests := []
    finishedInputRequests := []
    readyTaskInfos := []
    finishedTaskInfos := [] }

/-- A task reports an input it discovered. -/
def taskDiscoveredDependency (key : Key) :
    Engine Key Value :=
  if ¬ (s.ruleInfo client task).IsInProgressComputing then
    s.errorCancel "invalid state for adding discovered dependency"
  else
    s.modifyTaskInfo client task (fun t =>
      { t with discoveredDependencies := t.discoveredDependencies ++ [⟨key, false, false⟩] })

/-- A task reports its value. -/
def taskIsComplete (value : Value) (forceChange : Bool) (s : Engine Key Value) :
    Engine Key Value :=
  let r := s.ruleInfo client task
  if ¬ r.IsInProgressComputing then
    s.errorCancel "invalid state for marking task complete"
  else
    let s := s.setRuleInfo task (r.setValue s.currentEpoch value forceChange)
    s.setFinishedTaskInfos (task :: s.finishedTaskInfos)

/-- A task that is computing finishes: it reports the inputs it discovered and its value. -/
def finishTask : Engine Key Value :=
  match (s.ruleInfo client task).state.taskInfo with
  | none => s.trapped .danglingTaskInfo
  | some t =>
      let c := (client.createTask task).finish t.history
      let s := c.discoveredDependencies.foldl (taskDiscoveredDependency client task) s
      let s := s.taskIsComplete client task c.value c.forceChange
      s.modifyTaskInfo client task (fun t => { t with reported := true })

/-- Free the storage of the scan records. -/
def freeRuleScanRecords : Engine Key Value :=
  { s with ruleInfos := s.ruleInfos.map RuleInfo.freeScanRecord }

/-- Whether a task is in progress. -/
def hasTasks : Bool :=
  s.ruleInfos.entries.any (fun e => e.2.state.taskInfo.isSome)

end Engine

namespace Execution

variable (client : Client Key Value)

/-- The start of the execution of a build. -/
def start (key : Key) (s : Engine Key Value) : Execution Key Value :=
  let s := { s with currentEpoch := s.currentEpoch + 1, events := [], finishedInputRequests := [] }
  let s := s.getRuleInfoForKey client key
  { engine := s.addInputRequests [Engine.dummyRequest key false false]
    buildKey := key
    phase := .top
    didWork := false }

variable (e : Execution Key Value)

/-- Take a scan request from the stack, and drop it if the rule is not scanning any more. -/
def stepScanRequests : Option (RuleScanRequest Key) → Execution Key Value
  | some request =>
      let (current, s) := e.engine.processRuleScanRequest client request
      { e with engine := s, phase := .scanRequests current }
  | none =>
      match e.engine.ruleInfosToScan with
      | [] => { e with phase := .inputRequests }
      | request :: rest =>
          let s := e.engine.setRuleInfosToScan rest
          if (s.ruleInfo client request.ruleInfo).IsScanning then
            { e with engine := s, phase := .scanRequests (some request), didWork := true }
          else
            { e with engine := s, didWork := true }

/-- Take an input request from the queue. -/
def stepInputRequests : Execution Key Value :=
  match e.engine.inputRequests with
  | [] => { e with phase := .finishedInputRequests }
  | request :: rest =>
      let s := e.engine.setInputRequests rest
      { e with engine := s.processInputRequest client request, didWork := true }

/-- Take an answered input request from the stack. -/
def stepFinishedInputRequests : Execution Key Value :=
  match e.engine.finishedInputRequests with
  | [] => { e with phase := .readyTasks }
  | request :: rest =>
      let s := e.engine.setFinishedInputRequests rest
      { e with engine := s.processFinishedInputRequest client request, didWork := true }

/-- Take a ready task from the queue. -/
def stepReadyTasks : Execution Key Value :=
  match e.engine.readyTaskInfos with
  | [] => { e with phase := .finishedTasks }
  | task :: rest =>
      let s := e.engine.setReadyTaskInfos rest
      { e with engine := s.processReadyTask client task, didWork := true }

/-- Take a finished task from the stack. -/
def stepFinishedTasks : Execution Key Value :=
  match e.engine.finishedTaskInfos with
  | [] => { e with phase := .endOfBody }
  | task :: rest =>
      let s := e.engine.setFinishedTaskInfos rest
      let (recorded, s) := s.processFinishedTask client task
      if recorded then { e with engine := s, didWork := true }
      else { e with engine := s, phase := .cancelling (some task), didWork := true }

/-- The error reported when the engine is stuck without a task. -/
def noCycleDiagnosed : String :=
  "internal error: build engine has no running tasks or pending work, but was not able to compute the requested key, this may indicate a cycle in the build which could not be diagnosed. Please file a bug report."

/-- Decide how to go on after the queues have been processed. The engine has to wait, and
there is no step, if it did no work and the outstanding tasks have not reported yet. -/
def stepEndOfBody : Option (Execution Key Value) :=
  if e.didWork then some { e with phase := .top }
  else if e.engine.numOutstandingUnfinishedTasks ≠ 0 then
    if e.engine.finishedTaskInfos.isEmpty then none
    else some { e with phase := .top }
  else if e.engine.hasTasks then
    let (resolved, s) := e.engine.resolveCycle client e.buildKey
    if resolved then some { e with engine := s, phase := .top }
    else some { e with engine := s, phase := .cancelling none }
  else if ¬ (e.engine.ruleInfo client e.buildKey).IsComplete e.engine.currentEpoch then
    some { e with engine := e.engine.log (.error noCycleDiagnosed), phase := .cancelling none }
  else some { e with phase := .returned true }

/-- Wait for the outstanding tasks to report, then cancel what remains. -/
def stepCancelling (unrecorded : Option Key) :
    Option (Execution Key Value) :=
  if e.engine.numOutstandingUnfinishedTasks ≠ 0 then
    if e.engine.finishedTaskInfos.isEmpty then none
    else
      let n := e.engine.numOutstandingUnfinishedTasks - e.engine.finishedTaskInfos.length
      some { e with engine := (e.engine.setOutstanding n).setFinishedTaskInfos [] }
  else some { e with
    engine := e.engine.cancelRemainingTasks client unrecorded, phase := .returned false }

/-- The next step of the main loop. -/
def work : Option (Execution Key Value) :=
  match e.phase with
  | .top =>
      if e.engine.buildCancelled then some { e with phase := .cancelling none, didWork := false }
      else some { e with phase := .scanRequests none, didWork := false }
  | .scanRequests current => some (e.stepScanRequests client current)
  | .inputRequests => some (e.stepInputRequests client)
  | .finishedInputRequests => some (e.stepFinishedInputRequests client)
  | .readyTasks => some (e.stepReadyTasks client)
  | .finishedTasks => some (e.stepFinishedTasks client)
  | .endOfBody => e.stepEndOfBody client
  | .cancelling unrecorded => e.stepCancelling client unrecorded
  | .returned _ => none

/-- A step of a build. There is none once the behaviour is undefined. -/
def step : Action Key → Option (Execution Key Value)
  | .work => if e.engine.trap.isSome then none else e.work client
  | .complete key =>
      if e.engine.trap.isSome then none
      else
        match (e.engine.ruleInfo client key).state with
        | .inProgressComputing t =>
            if t.reported then none
            else some { e with engine := e.engine.finishTask client key }
        | _ => none
  | .cancel => some { e with engine := e.engine.setCancelled }

/-- A sequence of steps. -/
def run (e : Execution Key Value) : List (Action Key) → Option (Execution Key Value)
  | [] => some e
  | action :: actions => (e.step client action).bind (fun e => e.run actions)

end Execution

end LLBuild

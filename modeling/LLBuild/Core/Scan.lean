import LLBuild.Core.Engine

/-!
# Scanning and demanding rules

The operations of the engine on single rules: looking a rule up, scanning it to determine
whether it needs to run, demanding it, which creates its task if it does, and the calls a
task makes back into the engine.  Each operation is a function of the state of the engine;
the ones that report something return it next to the new state.
-/

namespace LLBuild

variable {Key Value : Type} [DecidableEq Key] [Inhabited Value]

namespace Client

variable (client : Client Key Value)

variable (db : Option (BuildDB Key Value))

/-- The result a rule has when it is looked up: the stored one, if there is one. -/
def storedResult (key : Key) :
    Result Key Value :=
  match db, client.dbError (.lookupRuleResult key) with
  | some db, none => (db.results key).getD .empty
  | _, _ => .empty

/-- A rule as it is looked up from the delegate and the database. -/
def newRuleInfo (key : Key) :
    RuleInfo Key Value where
  signature := client.lookupRule key
  result := client.storedResult db key
  state := .incomplete
  wasForced := false

end Client

/-- A rule as it is when its scan begins: its single-use dependencies are cleaned up, and
it has not been forced. -/
@[simps!]
def RuleInfo.prepared (r : RuleInfo Key Value) : RuleInfo Key Value :=
  (r.setDependencies (cleanSingleUseDependencies r.result.dependencies)).setWasForced false

namespace Engine

variable (client : Client Key Value)

/-! ### The table of the rules -/

section Lookup

variable (s : Engine Key Value) (key : Key)

/-- The information about the rule for a key, as found in the table or as it would be
entered there. -/
def ruleInfo : RuleInfo Key Value :=
  (s.ruleInfos.lookup key).getD (client.newRuleInfo s.db key)

omit [Inhabited Value] in
/-- Store the information about the rule for a key. -/
@[simps]
def setRuleInfo (r : RuleInfo Key Value) (s : Engine Key Value) :
    Engine Key Value :=
  { s with ruleInfos := s.ruleInfos.insert key r }

/-- Change the information about the rule for a key. -/
@[simps!]
def modifyRuleInfo (f : RuleInfo Key Value → RuleInfo Key Value)
    (s : Engine Key Value) : Engine Key Value :=
  s.setRuleInfo key (f (s.ruleInfo client key))

/-- Set the state of a rule. -/
@[simps!]
def setState (state : RuleState Key Value) (s : Engine Key Value) :
    Engine Key Value :=
  s.modifyRuleInfo client key (RuleInfo.setState state)

/-- Change the task of a rule in progress. -/
@[simps!]
def modifyTaskInfo (f : TaskInfo Key Value → TaskInfo Key Value)
    (s : Engine Key Value) : Engine Key Value :=
  s.setState client key ((s.ruleInfo client key).state.mapTaskInfo f)

theorem ruleInfo_setRuleInfo (k k' : Key) (r : RuleInfo Key Value) :
  (s.setRuleInfo k r).ruleInfo client k' = if k' = k then r else s.ruleInfo client k'
  := by
  rw [ruleInfo, setRuleInfo_ruleInfos, Table.lookup_insert]
  split_ifs with h
  · rfl
  · rfl

variable (k : Key)

@[simp]
theorem ruleInfo_setRuleInfo_self (r : RuleInfo Key Value) :
  (s.setRuleInfo k r).ruleInfo client k = r
  := by
  rw [ruleInfo_setRuleInfo, if_pos rfl]

omit [Inhabited Value] in
@[simp]
theorem setRuleInfo_setRuleInfo (r r' : RuleInfo Key Value) :
  (s.setRuleInfo k r).setRuleInfo k r' = s.setRuleInfo k r'
  := by
  rw [setRuleInfo, setRuleInfo, setRuleInfo]
  simp only [AList.insert_insert]

theorem ruleInfo_modifyRuleInfo (k k' : Key) (f : RuleInfo Key Value → RuleInfo Key Value) :
  (s.modifyRuleInfo client k f).ruleInfo client k' =
    if k' = k then f (s.ruleInfo client k) else s.ruleInfo client k'
  := ruleInfo_setRuleInfo client s k k' _

@[simp]
theorem ruleInfo_modifyRuleInfo_self (f : RuleInfo Key Value → RuleInfo Key Value) :
  (s.modifyRuleInfo client k f).ruleInfo client k = f (s.ruleInfo client k)
  := ruleInfo_setRuleInfo_self client s k _

theorem ruleInfo_setState (k k' : Key) (state : RuleState Key Value) :
  (s.setState client k state).ruleInfo client k' =
    if k' = k then (s.ruleInfo client k).setState state else s.ruleInfo client k'
  := ruleInfo_setRuleInfo client s k k' _

@[simp]
theorem ruleInfo_setState_self (state : RuleState Key Value) :
  (s.setState client k state).ruleInfo client k = (s.ruleInfo client k).setState state
  := ruleInfo_setRuleInfo_self client s k _

@[simp]
theorem setState_setState (state state' : RuleState Key Value) :
  (s.setState client k state).setState client k state' = s.setState client k state'
  := by
  rw [setState, modifyRuleInfo, ruleInfo_setState_self, setState, setState, modifyRuleInfo,
    setRuleInfo_setRuleInfo]
  rfl

theorem modifyTaskInfo_waiting {s : Engine Key Value} {k : Key} {t : TaskInfo Key Value}
    (h : (s.ruleInfo client k).state = .inProgressWaiting t)
    (f : TaskInfo Key Value → TaskInfo Key Value) :
  s.modifyTaskInfo client k f = s.setState client k (.inProgressWaiting (f t))
  := by
  rw [modifyTaskInfo, h]
  rfl

theorem modifyTaskInfo_computing {s : Engine Key Value} {k : Key} {t : TaskInfo Key Value}
    (h : (s.ruleInfo client k).state = .inProgressComputing t)
    (f : TaskInfo Key Value → TaskInfo Key Value) :
  s.modifyTaskInfo client k f = s.setState client k (.inProgressComputing (f t))
  := by
  rw [modifyTaskInfo, h]
  rfl

end Lookup

/-! The other updates of the state do not change the rules. -/

section Updates

variable (s : Engine Key Value) (k : Key)

@[simp]
theorem ruleInfo_log (event : Event Key Value) :
  (s.log event).ruleInfo client k = s.ruleInfo client k
  := rfl

@[simp]
theorem ruleInfo_trapped (t : Trap) :
  (s.trapped t).ruleInfo client k = s.ruleInfo client k
  := rfl

@[simp]
theorem ruleInfo_setCancelled :
  s.setCancelled.ruleInfo client k = s.ruleInfo client k
  := rfl

variable (requests : List (TaskInputRequest Key))

@[simp]
theorem ruleInfo_setInputRequests :
  (s.setInputRequests requests).ruleInfo client k = s.ruleInfo client k
  := rfl

@[simp]
theorem ruleInfo_setFinishedInputRequests :
  (s.setFinishedInputRequests requests).ruleInfo client k = s.ruleInfo client k
  := rfl

@[simp]
theorem ruleInfo_setRuleInfosToScan (requests : List (RuleScanRequest Key)) :
  (s.setRuleInfosToScan requests).ruleInfo client k = s.ruleInfo client k
  := rfl

variable (tasks : List Key)

@[simp]
theorem ruleInfo_setReadyTaskInfos :
  (s.setReadyTaskInfos tasks).ruleInfo client k = s.ruleInfo client k
  := rfl

@[simp]
theorem ruleInfo_setFinishedTaskInfos :
  (s.setFinishedTaskInfos tasks).ruleInfo client k = s.ruleInfo client k
  := rfl

@[simp]
theorem ruleInfo_setOutstanding (n : ℕ) :
  (s.setOutstanding n).ruleInfo client k = s.ruleInfo client k
  := rfl

@[simp]
theorem ruleInfo_addInputRequests :
  (s.addInputRequests requests).ruleInfo client k = s.ruleInfo client k
  := rfl

@[simp]
theorem ruleInfo_addFinishedInputRequests :
  (s.addFinishedInputRequests requests).ruleInfo client k = s.ruleInfo client k
  := rfl

@[simp]
theorem ruleInfo_addRuleInfosToScan (requests : List (RuleScanRequest Key)) :
  (s.addRuleInfosToScan requests).ruleInfo client k = s.ruleInfo client k
  := rfl

@[simp]
theorem ruleInfo_addReadyTaskInfos :
  (s.addReadyTaskInfos tasks).ruleInfo client k = s.ruleInfo client k
  := rfl

end Updates

variable (key k : Key) (s : Engine Key Value)

/-- Look up the rule for a key, and enter it in the table if it is not there. -/
def getRuleInfoForKey : Engine Key Value :=
  if (s.ruleInfos.lookup key).isSome then s
  else
    let s' := s.setRuleInfo key (client.newRuleInfo s.db key)
    match s.db, client.dbError (.lookupRuleResult key) with
    | some _, some message => s'.errorCancel message
    | _, _ => s'

/-! ### Scanning -/

/-- Enqueue a rule for the scan of its dependencies. -/
def startScanning (needsToRun : Bool) (s : Engine Key Value) :
    Engine Key Value :=
  (s.setState client key (.isScanning (some ⟨[], []⟩))).addRuleInfosToScan
    [⟨key, 0, none, false, false, needsToRun⟩]

/-- Schedule a scan of the dependencies a rule wants checked before it runs, for a rule
the engine has already decided needs to run. -/
def scheduleChecksBeforeRunning :
    Bool × Engine Key Value :=
  if !client.checksDependenciesBeforeRunning key ||
      (s.ruleInfo client key).result.dependencies.isEmpty then
    (false, s)
  else
    (true, s.startScanning client key true)

/-- Request the scanning of a rule to determine if it needs to run. Returns whether the
rule is already scanned. -/
def scanRule : Bool × Engine Key Value :=
  let r := s.ruleInfo client key
  if r.IsScanned s.currentEpoch then (true, s)
  else if r.IsScanning then (false, s)
  else
    let r := r.prepared
    let s := (s.setRuleInfo key r).log (.updateStatus key .isScanning)
    if r.result.builtAt = 0 then
      (true, (s.setState client key .needsToRun).log
        (.determinedRuleNeedsToRun key .neverBuilt none))
    else if r.signature ≠ r.result.signature then
      let s := (s.setState client key .needsToRun).log
        (.determinedRuleNeedsToRun key .signatureChanged none)
      let (scheduled, s) := s.scheduleChecksBeforeRunning client key
      (!scheduled, s)
    else if !client.isResultValid key r.result.value then
      let s := (s.setState client key .needsToRun).log
        (.determinedRuleNeedsToRun key .invalidValue none)
      let (scheduled, s) := s.scheduleChecksBeforeRunning client key
      (!scheduled, s)
    else if r.result.dependencies.isEmpty then
      (true, s.setState client key .doesNotNeedToRun)
    else
      (false, s.startScanning client key false)

/-! ### The calls of a task -/

/-- The input ID the engine uses for a must-follow request. -/
def kMustFollowInputID : UInt64 := ~~~ 0

/-- The largest input ID a task may use. -/
def kMaximumInputID : UInt64 := ~~~ 0xFF

/-- Enqueue a request of the task of a rule. -/
def addTaskInputRequest (task key : Key) (inputID : UInt64) (orderOnly singleUse : Bool)
    (s : Engine Key Value) : Engine Key Value :=
  if ¬ (s.ruleInfo client task).IsInProgressWaiting then s.trapped .abort
  else
    let s := s.getRuleInfoForKey client key
    let request := ⟨some task, inputID, key, orderOnly, false, singleUse⟩
    let s := s.addInputRequests [request]
    (s.modifyTaskInfo client task (fun t => { t with waitCount := t.waitCount + 1 })).log
      (.requested request)

variable (task : Key)

/-- A call of the task of a rule. -/
def taskCall (s : Engine Key Value) : TaskCall Key → Engine Key Value
  | .request key inputID =>
      if inputID > kMaximumInputID then s.errorCancel "attempt to use reserved input ID"
      else s.addTaskInputRequest client task key inputID false false
  | .requestSingleUse key inputID =>
      if inputID > kMaximumInputID then s.errorCancel "attempt to use reserved input ID"
      else s.addTaskInputRequest client task key inputID false true
  | .mustFollow key => s.addTaskInputRequest client task key kMustFollowInputID true false

/-- A callback to the task of a rule, with the calls the task makes in response. -/
def callback (c : Callback Key Value) (s : Engine Key Value) :
    Engine Key Value :=
  match (s.ruleInfo client task).state.taskInfo with
  | none => s.trapped .danglingTaskInfo
  | some t =>
      let s := (s.modifyTaskInfo client task (fun t => { t with history := t.history ++ [c] })).log
        (.callback task c)
      ((client.createTask task).respond (t.history ++ [c])).foldl (taskCall client task) s

/-! ### Demanding -/

/-- Schedule the task of a rule for finalization if it has no inputs to wait for. -/
def readyIfNotWaiting (s : Engine Key Value) : Engine Key Value :=
  match (s.ruleInfo client task).state.taskInfo with
  | none => s.trapped .danglingTaskInfo
  | some t => s.addReadyTaskInfos (if t.waitCount = 0 then [task] else [])

/-- Create the task for a rule and start it. -/
def startTask : Engine Key Value :=
  let s := s.log (.createTask key)
  let r := s.ruleInfo client key
  let s := s.setRuleInfo key
    ((r.setState (.inProgressWaiting ⟨[], [], 0, [], [], false⟩)).setDependencies [])
  let s := s.callback client key .start
  let s :=
    if r.result.builtAt ≠ 0 ∧ r.signature = r.result.signature then
      s.callback client key (.providePriorValue r.result.value)
    else s
  s.readyIfNotWaiting client key

/-- Request the construction of the value for a scanned rule. Returns whether the rule is
already available. -/
def demandRule : Bool × Engine Key Value :=
  let r := s.ruleInfo client key
  if r.IsComplete s.currentEpoch then (true, s)
  else if r.IsInProgress then (false, s)
  else if r.state.kind = .doesNotNeedToRun then
    (true, (s.setRuleInfo key (r.setComplete s.currentEpoch)).log
      (.updateStatus key .isUpToDate))
  else (false, s.startTask client key)

/-! ### Scan requests -/

/-- Wake up everything that waits for the scan of a rule, and set its state. -/
def finishScanRequest (newState : RuleState Key Value) (s : Engine Key Value) :
    Engine Key Value :=
  match (s.ruleInfo client key).state.scanRecord with
  | none => s.trapped .danglingScanRecord
  | some record =>
      ((s.addRuleInfosToScan record.deferredScanRequests).addInputRequests
        record.pausedInputRequests).setState client key newState

/-- Change the record of a rule that is scanning. -/
def modifyScanRecord (f : RuleScanRecord Key → RuleScanRecord Key)
    (s : Engine Key Value) : Engine Key Value :=
  match (s.ruleInfo client key).state.scanRecord with
  | none => s.trapped .danglingScanRecord
  | some record => s.setState client key (.isScanning (some (f record)))

/-- Suspend an input request until the rule for its input is scanned. -/
def pauseInputRequest (request : TaskInputRequest Key) (s : Engine Key Value) :
    Engine Key Value :=
  s.modifyScanRecord client request.inputRuleInfo (fun record =>
    { record with pausedInputRequests := record.pausedInputRequests ++ [request] })

/-- Suspend a scan request until its input is scanned. -/
def deferOnScan (input : Key) (request : RuleScanRequest Key) (s : Engine Key Value) :
    Engine Key Value :=
  s.modifyScanRecord client input (fun record =>
    { record with deferredScanRequests := record.deferredScanRequests ++ [request] })

/-- Suspend a scan request until the task of its input is complete. -/
@[simps!]
def deferOnTask (input : Key) (request : RuleScanRequest Key) (s : Engine Key Value) :
    Engine Key Value :=
  s.modifyTaskInfo client input (fun t =>
    { t with deferredScanRequests := t.deferredScanRequests ++ [request] })

variable (request : RuleScanRequest Key)

/-- The test at the end of the loop over the inputs: go on with the next input, if there
is one, or finish the scan. -/
def endOfInputs (s : Engine Key Value) :
    Option (RuleScanRequest Key) × Engine Key Value :=
  if request.inputIndex ≠ (s.ruleInfo client request.ruleInfo).result.dependencies.length then
    (some request, s)
  else if request.needsToRun then
    (none, s.finishScanRequest client request.ruleInfo .needsToRun)
  else
    (none, s.finishScanRequest client request.ruleInfo .doesNotNeedToRun)

/-- The request for the input after the one that was considered. -/
def nextInput (needsToRun : Bool) : RuleScanRequest Key where
  ruleInfo := request.ruleInfo
  inputIndex := request.inputIndex + 1
  inputRuleInfo := none
  orderOnly := false
  singleUse := false
  needsToRun := needsToRun

/-- Compare a rule with an input that is available. -/
def checkInput (input : Key) (s : Engine Key Value) :
    Option (RuleScanRequest Key) × Engine Key Value :=
  if request.orderOnly ∨ request.needsToRun then
    s.endOfInputs client (nextInput request request.needsToRun)
  else if (s.ruleInfo client request.ruleInfo).result.builtAt <
      (s.ruleInfo client input).result.computedAt then
    if !client.checksDependenciesBeforeRunning request.ruleInfo then
      (none, (s.finishScanRequest client request.ruleInfo .needsToRun).log
        (.determinedRuleNeedsToRun request.ruleInfo .inputRebuilt (some input)))
    else
      (s.log (.determinedRuleNeedsToRun request.ruleInfo .inputRebuilt (some input))).endOfInputs
        client (nextInput request true)
  else
    s.endOfInputs client (nextInput request request.needsToRun)

/-- Scan and demand the input of a scan request. -/
def scanInput (input : Key) (s : Engine Key Value) :
    Option (RuleScanRequest Key) × Engine Key Value :=
  let (isScanned, s) := s.scanRule client input
  if !isScanned then (none, s.deferOnScan client input request)
  else
    let (isAvailable, s) := s.demandRule client input
    if !isAvailable then (none, s.deferOnTask client input request)
    else s.checkInput client request input

/-- One pass of the loop over the inputs of a rule that is scanned. Returns the request to
go on with, if the scan is neither finished nor suspended. -/
def processRuleScanRequest (s : Engine Key Value) :
    Option (RuleScanRequest Key) × Engine Key Value :=
  match request.inputRuleInfo with
  | some input => s.scanInput client request input
  | none =>
      match (s.ruleInfo client request.ruleInfo).result.dependencies[request.inputIndex]? with
      | none => (none, s.trapped .pastTheEnd)
      | some d =>
          if request.needsToRun &&
              !client.mustCheckDependencyBeforeRunning request.ruleInfo d.key then
            s.endOfInputs client { request with inputIndex := request.inputIndex + 1 }
          else
            (s.getRuleInfoForKey client d.key).scanInput client
              { request with
                inputRuleInfo := some d.key
                orderOnly := d.orderOnly
                singleUse := d.singleUse }
              d.key

end Engine

end LLBuild

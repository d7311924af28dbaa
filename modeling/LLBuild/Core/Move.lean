import LLBuild.Core.Execute

/-!
# What the engine does

A build is a sequence of moves, each of which changes the state of one rule or takes one
request from one place to another.  A `Moment` is the state of the engine together with
what the engine has in hand between two moves: the request it took from a queue, the task
it is starting, the calls of a task it still has to carry out.  `Move` says once what can
happen; what holds in every state of a build is proved by cases on it.
-/

namespace LLBuild

variable {Key Value : Type}

/-- The state of the engine together with what the engine has in hand. -/
structure Moment (Key Value : Type) where
  engine : Engine Key Value
  /-- The request taken from the queue of input requests. -/
  input : Option (TaskInputRequest Key)
  /-- The request that is being answered. -/
  answering : Option (TaskInputRequest Key)
  /-- The scan request that is being processed. -/
  scan : Option (RuleScanRequest Key)
  /-- The rule whose task is being started. -/
  starting : Option Key
  /-- The calls that the task of a rule made and that are not carried out yet. -/
  calls : List (Key × TaskCall Key)
  /-- The discovered dependencies that are not requested yet. -/
  discovered : List (Dependency Key)

/-- The engine with nothing in hand but a scan request. -/
def Moment.between (s : Engine Key Value) (scan : Option (RuleScanRequest Key)) :
    Moment Key Value :=
  ⟨s, none, none, scan, none, [], []⟩

/-- No task is being started or answered. -/
def Moment.IsAtRest (m : Moment Key Value) : Prop :=
  m.starting = none ∧ m.answering = none ∧ m.calls = []

/-- The rule `k` is the input of the request in hand. -/
def Moment.Demands (m : Moment Key Value) (k : Key) : Prop :=
  (∃ r, m.input = some r ∧ r.inputRuleInfo = k) ∨ ∃ q, m.scan = some q ∧ q.inputRuleInfo = some k

/-- There is nothing to do, and no task is outstanding, but tasks remain. -/
structure Moment.IsStuck (m : Moment Key Value) : Prop where
  isAtRest : m.IsAtRest
  input : m.input = none
  scan : m.scan = none
  discovered : m.discovered = []
  ruleInfosToScan : m.engine.ruleInfosToScan = []
  inputRequests : m.engine.inputRequests = []
  finishedInputRequests : m.engine.finishedInputRequests = []
  readyTaskInfos : m.engine.readyTaskInfos = []
  numOutstandingUnfinishedTasks : m.engine.numOutstandingUnfinishedTasks = 0
  hasTasks : m.engine.hasTasks = true

/-- The events that report no task, no callback and no request. -/
def Event.IsReport : Event Key Value → Prop
  | .updateStatus _ _ => True
  | .determinedRuleNeedsToRun _ _ _ => True
  | .cycleDetected _ => True
  | .error _ => True
  | _ => False

/-- The stored result of a rule is of use: the rule was built before, its signature is the
same and the value is still valid. -/
def Client.HasUsableResult (client : Client Key Value) (k : Key) (r : RuleInfo Key Value) :
    Prop :=
  r.result.builtAt ≠ 0 ∧ r.signature = r.result.signature
    ∧ client.isResultValid k r.result.value = true

/-- The input request a call of the task of a rule makes. -/
def TaskCall.toRequest (task : Key) : TaskCall Key → TaskInputRequest Key
  | .request key inputID => ⟨some task, inputID, key, false, false, false⟩
  | .requestSingleUse key inputID => ⟨some task, inputID, key, false, false, true⟩
  | .mustFollow key => ⟨some task, Engine.kMustFollowInputID, key, true, false, false⟩

/-- What a task has told the engine once it has reported. -/
@[simps]
def TaskInfo.report (c : Completion Key Value) (t : TaskInfo Key Value) : TaskInfo Key Value :=
  { t with
    discoveredDependencies :=
      t.discoveredDependencies ++ c.discoveredDependencies.map (fun key => ⟨key, false, false⟩)
    reported := true }

/-- The call uses an input ID that is reserved for the engine. -/
def TaskCall.IsReserved : TaskCall Key → Prop
  | .request _ inputID => inputID > Engine.kMaximumInputID
  | .requestSingleUse _ inputID => inputID > Engine.kMaximumInputID
  | .mustFollow _ => False

/-- A rule that is neither scanned nor scanning has not been touched by the build. -/
theorem RuleInfo.state_of_not_isScanned {epoch : ℕ} {r : RuleInfo Key Value}
    (hs : ¬ r.IsScanned epoch) (hn : ¬ r.IsScanning) :
  r.state = .incomplete ∨ r.state = .complete
  := by
  obtain ⟨signature, result, state, wasForced⟩ := r
  rw [not_or] at hs
  cases state with
  | incomplete => exact Or.inl rfl
  | isScanning record => exact absurd rfl hn
  | complete => exact Or.inr rfl
  | _ => exact absurd rfl hs.2

variable [LinearOrder Key] [DecidableEq Value] [Inhabited Value]

/-- The outcome of the comparison of a rule with an input that is available: whether the
rule is known to need to run when the scan goes on. -/
inductive Engine.Compares (client : Client Key Value) (s : Engine Key Value)
    (q : RuleScanRequest Key) (input : Key) : Bool → Prop
  | ignored (h : q.orderOnly ∨ q.needsToRun) : Compares client s q input q.needsToRun
  | unchanged (ho : q.orderOnly = false) (hn : q.needsToRun = false)
      (h : (s.ruleInfo client input).result.computedAt
        ≤ (s.ruleInfo client q.ruleInfo).result.builtAt) :
      Compares client s q input false
  | rebuilt (ho : q.orderOnly = false) (hn : q.needsToRun = false)
      (h : (s.ruleInfo client q.ruleInfo).result.builtAt
        < (s.ruleInfo client input).result.computedAt)
      (hc : client.checksDependenciesBeforeRunning q.ruleInfo = true) :
      Compares client s q input true

/-- The moves of the engine. -/
inductive Move (client : Client Key Value) : Moment Key Value → Moment Key Value → Prop
  /-- Something is reported to the client. -/
  | report (m : Moment Key Value) (event : Event Key Value) (h : event.IsReport) :
      Move client m { m with engine := m.engine.log event }
  /-- The build is marked as cancelled. -/
  | cancelBuild (m : Moment Key Value) :
      Move client m { m with engine := m.engine.setCancelled }
  /-- A rule is entered in the table. -/
  | lookup (m : Moment Key Value) (k : Key) :
      Move client m { m with engine := m.engine.modifyRuleInfo client k id }
  /-- A result is stored in the database. -/
  | store (m : Moment Key Value) (db : Option (BuildDB Key Value))
      (h : ∀ k, (m.engine.setDB db).ruleInfo client k = m.engine.ruleInfo client k) :
      Move client m { m with engine := m.engine.setDB db }
  /-- A rule is found to need to run. -/
  | needsToRun (m : Moment Key Value) (k : Key) (hm : m.Demands k)
      (hs : ¬ (m.engine.ruleInfo client k).IsScanned m.engine.currentEpoch)
      (hn : ¬ (m.engine.ruleInfo client k).IsScanning)
      (hu : ¬ client.HasUsableResult k (m.engine.ruleInfo client k))
      (hc : (m.engine.ruleInfo client k).result.builtAt = 0
        ∨ client.checksDependenciesBeforeRunning k = false
        ∨ cleanSingleUseDependencies (m.engine.ruleInfo client k).result.dependencies = []) :
      Move client m
        { m with
          engine := m.engine.modifyRuleInfo client k (fun r =>
            r.prepared.setState .needsToRun) }
  /-- A rule without dependencies is found not to need to run. -/
  | doesNotNeedToRun (m : Moment Key Value) (k : Key) (hm : m.Demands k)
      (hs : ¬ (m.engine.ruleInfo client k).IsScanned m.engine.currentEpoch)
      (hn : ¬ (m.engine.ruleInfo client k).IsScanning)
      (hu : client.HasUsableResult k (m.engine.ruleInfo client k))
      (hd : cleanSingleUseDependencies (m.engine.ruleInfo client k).result.dependencies = []) :
      Move client m
        { m with
          engine := m.engine.modifyRuleInfo client k (fun r =>
            r.prepared.setState .doesNotNeedToRun) }
  /-- A rule is enqueued for the scan of its dependencies. -/
  | startScanning (m : Moment Key Value) (k : Key) (b : Bool) (hm : m.Demands k)
      (hs : ¬ (m.engine.ruleInfo client k).IsScanned m.engine.currentEpoch)
      (hn : ¬ (m.engine.ruleInfo client k).IsScanning)
      (hb : (m.engine.ruleInfo client k).result.builtAt ≠ 0)
      (hd : cleanSingleUseDependencies (m.engine.ruleInfo client k).result.dependencies ≠ [])
      (hu : b = false → client.HasUsableResult k (m.engine.ruleInfo client k))
      (hc : b = true → client.checksDependenciesBeforeRunning k = true) :
      Move client m
        { m with
          engine := (m.engine.modifyRuleInfo client k (fun r =>
            r.prepared.setState (.isScanning (some ⟨[], []⟩)))).addRuleInfosToScan
              [⟨k, 0, none, false, false, b⟩] }
  /-- A rule that does not need to run is brought up to date. -/
  | upToDate (m : Moment Key Value) (k : Key)
      (h : (m.engine.ruleInfo client k).state = .doesNotNeedToRun) :
      Move client m
        { m with
          engine := m.engine.modifyRuleInfo client k
            (RuleInfo.setComplete m.engine.currentEpoch) }
  /-- The task of a rule that needs to run is created. -/
  | createTask (m : Moment Key Value) (k : Key)
      (h : (m.engine.ruleInfo client k).state = .needsToRun) (hrest : m.IsAtRest) :
      Move client m
        { m with
          engine := (m.engine.modifyRuleInfo client k (fun r =>
            (r.setState (.inProgressWaiting ⟨[], [], 0, [], [], false⟩)).setDependencies [])).log
            (.createTask k)
          starting := some k }
  /-- A task that is being started is called back. -/
  | startCallback (m : Moment Key Value) (k : Key) (t : TaskInfo Key Value)
      (c : Callback Key Value)
      (h : (m.engine.ruleInfo client k).state = .inProgressWaiting t)
      (hs : m.starting = some k) (hc : m.calls = [])
      (hcall : c = .start ∧ t.history = []
        ∨ c = .providePriorValue (m.engine.ruleInfo client k).result.value
          ∧ t.history = [.start]) :
      Move client m
        { m with
          engine := (m.engine.setState client k
            (.inProgressWaiting { t with history := t.history ++ [c] })).log (.callback k c)
          calls := ((client.createTask k).respond (t.history ++ [c])).map (k, ·) }
  /-- A call of a task is carried out. -/
  | request (m : Moment Key Value) (k : Key) (call : TaskCall Key)
      (rest : List (Key × TaskCall Key)) (t : TaskInfo Key Value)
      (hc : m.calls = (k, call) :: rest) (hr : ¬ call.IsReserved)
      (h : (m.engine.ruleInfo client k).state = .inProgressWaiting t) :
      Move client m
        { m with
          engine := ((m.engine.setState client k
            (.inProgressWaiting { t with waitCount := t.waitCount + 1 })).addInputRequests
              [call.toRequest k]).log (.requested (call.toRequest k))
          calls := rest }
  /-- A call of a task is rejected. -/
  | reject (m : Moment Key Value) (k : Key) (call : TaskCall Key)
      (rest : List (Key × TaskCall Key)) (hc : m.calls = (k, call) :: rest)
      (hr : call.IsReserved) :
      Move client m { m with calls := rest }
  /-- A call of a task that is not waiting for inputs aborts the program. -/
  | abort (m : Moment Key Value) (k : Key) (call : TaskCall Key)
      (rest : List (Key × TaskCall Key)) (hc : m.calls = (k, call) :: rest)
      (h : ¬ (m.engine.ruleInfo client k).IsInProgressWaiting) :
      Move client m { m with engine := m.engine.trapped .abort, calls := rest }
  /-- The start of a task ends. -/
  | started (m : Moment Key Value) (k : Key) (t : TaskInfo Key Value)
      (h : (m.engine.ruleInfo client k).state = .inProgressWaiting t)
      (hs : m.starting = some k) (hc : m.calls = []) (ht : t.history ≠ []) :
      Move client m
        { m with
          engine := m.engine.addReadyTaskInfos (if t.waitCount = 0 then [k] else [])
          starting := none }
  /-- A scan request is taken from the stack. -/
  | takeScan (m : Moment Key Value) (q : RuleScanRequest Key)
      (rest : List (RuleScanRequest Key)) (h : m.scan = none)
      (hq : m.engine.ruleInfosToScan = q :: rest)
      (hs : (m.engine.ruleInfo client q.ruleInfo).IsScanning) :
      Move client m
        { m with engine := m.engine.setRuleInfosToScan rest, scan := some q }
  /-- A scan request for a rule that is not scanning any more is dropped. -/
  | dropScan (m : Moment Key Value) (q : RuleScanRequest Key)
      (rest : List (RuleScanRequest Key)) (h : m.scan = none)
      (hq : m.engine.ruleInfosToScan = q :: rest)
      (hs : ¬ (m.engine.ruleInfo client q.ruleInfo).IsScanning) :
      Move client m { m with engine := m.engine.setRuleInfosToScan rest }
  /-- The next input of a rule is considered. -/
  | considerInput (m : Moment Key Value) (q : RuleScanRequest Key) (d : Dependency Key)
      (hq : m.scan = some q) (hi : q.inputRuleInfo = none)
      (hd : (m.engine.ruleInfo client q.ruleInfo).result.dependencies[q.inputIndex]? = some d) :
      Move client m
        { m with
          scan := some { q with
            inputRuleInfo := some d.key, orderOnly := d.orderOnly, singleUse := d.singleUse } }
  /-- An input that need not be checked is skipped. -/
  | skipInput (m : Moment Key Value) (q : RuleScanRequest Key) (d : Dependency Key)
      (hq : m.scan = some q) (hi : q.inputRuleInfo = none) (hn : q.needsToRun = true)
      (hd : (m.engine.ruleInfo client q.ruleInfo).result.dependencies[q.inputIndex]? = some d)
      (hm : client.mustCheckDependencyBeforeRunning q.ruleInfo d.key = false) :
      Move client m { m with scan := some { q with inputIndex := q.inputIndex + 1 } }
  /-- An input that is available is compared with the rule, and the scan goes on. -/
  | checkInput (m : Moment Key Value) (q : RuleScanRequest Key) (input : Key) (b : Bool)
      (hq : m.scan = some q) (hi : q.inputRuleInfo = some input)
      (hc : (m.engine.ruleInfo client input).IsComplete m.engine.currentEpoch)
      (hb : m.engine.Compares client q input b) :
      Move client m { m with scan := some (Engine.nextInput q b) }
  /-- A scan request is suspended until its input is scanned. -/
  | deferOnScan (m : Moment Key Value) (q : RuleScanRequest Key) (input : Key)
      (record : RuleScanRecord Key) (hq : m.scan = some q) (hi : q.inputRuleInfo = some input)
      (h : (m.engine.ruleInfo client input).state = .isScanning (some record)) :
      Move client m
        { m with
          engine := m.engine.setState client input (.isScanning (some
            { record with deferredScanRequests := record.deferredScanRequests ++ [q] }))
          scan := none }
  /-- A scan request is suspended until the task of its input is complete. -/
  | deferOnTask (m : Moment Key Value) (q : RuleScanRequest Key) (input : Key)
      (hq : m.scan = some q) (hi : q.inputRuleInfo = some input)
      (h : (m.engine.ruleInfo client input).IsInProgress) :
      Move client m
        { m with engine := m.engine.deferOnTask client input q, scan := none }
  /-- The scan of a rule has come to the end of its dependencies. -/
  | scanned (m : Moment Key Value) (q : RuleScanRequest Key) (record : RuleScanRecord Key)
      (hq : m.scan = some q) (hi : q.inputRuleInfo = none)
      (hd : q.inputIndex = (m.engine.ruleInfo client q.ruleInfo).result.dependencies.length)
      (h : (m.engine.ruleInfo client q.ruleInfo).state = .isScanning (some record)) :
      Move client m
        { m with
          engine := ((m.engine.addRuleInfosToScan record.deferredScanRequests).addInputRequests
            record.pausedInputRequests).setState client q.ruleInfo
              (if q.needsToRun then .needsToRun else .doesNotNeedToRun)
          scan := none }
  /-- The scan of a rule has found an input that was rebuilt. -/
  | rebuilt (m : Moment Key Value) (q : RuleScanRequest Key) (input : Key)
      (record : RuleScanRecord Key) (hq : m.scan = some q) (hi : q.inputRuleInfo = some input)
      (hc : (m.engine.ruleInfo client input).IsComplete m.engine.currentEpoch)
      (ho : q.orderOnly = false) (hn : q.needsToRun = false)
      (hb : (m.engine.ruleInfo client q.ruleInfo).result.builtAt
        < (m.engine.ruleInfo client input).result.computedAt)
      (h : (m.engine.ruleInfo client q.ruleInfo).state = .isScanning (some record))
      (hk : client.checksDependenciesBeforeRunning q.ruleInfo = false) :
      Move client m
        { m with
          engine := ((m.engine.addRuleInfosToScan record.deferredScanRequests).addInputRequests
            record.pausedInputRequests).setState client q.ruleInfo .needsToRun
          scan := none }
  /-- An input request is taken from the queue. -/
  | takeInput (m : Moment Key Value) (r : TaskInputRequest Key)
      (rest : List (TaskInputRequest Key)) (h : m.input = none)
      (hr : m.engine.inputRequests = r :: rest) :
      Move client m { m with engine := m.engine.setInputRequests rest, input := some r }
  /-- An input request is suspended until the rule for its input is scanned. -/
  | pauseInput (m : Moment Key Value) (r : TaskInputRequest Key)
      (record : RuleScanRecord Key) (hr : m.input = some r)
      (h : (m.engine.ruleInfo client r.inputRuleInfo).state = .isScanning (some record)) :
      Move client m
        { m with
          engine := m.engine.setState client r.inputRuleInfo (.isScanning (some
            { record with pausedInputRequests := record.pausedInputRequests ++ [r] }))
          input := none }
  /-- The request for the rule that is built, or for a discovered dependency, is done. -/
  | dropInput (m : Moment Key Value) (r : TaskInputRequest Key) (hr : m.input = some r)
      (ht : r.taskInfo = none)
      (h : (m.engine.ruleInfo client r.inputRuleInfo).IsComplete m.engine.currentEpoch
        ∨ (m.engine.ruleInfo client r.inputRuleInfo).IsInProgress) :
      Move client m { m with input := none }
  /-- The input of a request is available; it is recorded as a dependency of the task. -/
  | recordAvailable (m : Moment Key Value) (r : TaskInputRequest Key) (k : Key)
      (hr : m.input = some r) (ht : r.taskInfo = some k)
      (h : (m.engine.ruleInfo client r.inputRuleInfo).IsComplete m.engine.currentEpoch) :
      Move client m
        { m with
          engine := (m.engine.recordDependency client k r).addFinishedInputRequests [r]
          input := none }
  /-- The input of a request is in progress; it is recorded as a dependency of the task. -/
  | recordPending (m : Moment Key Value) (r : TaskInputRequest Key) (k : Key)
      (hr : m.input = some r) (ht : r.taskInfo = some k)
      (h : (m.engine.ruleInfo client r.inputRuleInfo).IsInProgress) :
      Move client m
        { m with
          engine := (m.engine.recordDependency client k r).modifyTaskInfo client r.inputRuleInfo
            (fun t => { t with requestedBy := t.requestedBy ++ [r] })
          input := none }
  /-- A request is answered. -/
  | answer (m : Moment Key Value) (r : TaskInputRequest Key)
      (rest : List (TaskInputRequest Key)) (k : Key) (t : TaskInfo Key Value)
      (c : Callback Key Value) (hrest : m.IsAtRest)
      (hr : m.engine.finishedInputRequests = r :: rest) (hk : r.taskInfo = some k)
      (ho : r.orderOnly = false)
      (hv : c = .provideValue r.inputID r.inputRuleInfo
        (m.engine.ruleInfo client r.inputRuleInfo).result.value)
      (h : (m.engine.ruleInfo client k).state.taskInfo = some t) :
      Move client m
        { m with
          engine := (((m.engine.setFinishedInputRequests rest).log (.answered r
              (some (m.engine.ruleInfo client r.inputRuleInfo).result.value))).modifyTaskInfo
                client k (fun t => { t with history := t.history ++ [c] })).log (.callback k c)
          answering := some r
          calls := ((client.createTask k).respond (t.history ++ [c])).map (k, ·) }
  /-- A must-follow request is answered. -/
  | answerOrderOnly (m : Moment Key Value) (r : TaskInputRequest Key)
      (rest : List (TaskInputRequest Key)) (k : Key) (hrest : m.IsAtRest)
      (hr : m.engine.finishedInputRequests = r :: rest)
      (hk : r.taskInfo = some k) (ho : r.orderOnly = true) :
      Move client m
        { m with
          engine := (m.engine.setFinishedInputRequests rest).log (.answered r none)
          answering := some r }
  /-- The wait count of the task of an answered request is decremented. -/
  | decrement (m : Moment Key Value) (r : TaskInputRequest Key) (k : Key)
      (t : TaskInfo Key Value) (ha : m.answering = some r) (hc : m.calls = [])
      (hk : r.taskInfo = some k) (h : (m.engine.ruleInfo client k).state.taskInfo = some t) :
      Move client m
        { m with
          engine := (m.engine.modifyTaskInfo client k (fun t =>
            { t with waitCount := t.waitCount - 1 })).addReadyTaskInfos
              (if t.waitCount - 1 = 0 then [k] else [])
          answering := none }
  /-- A task whose inputs are available starts to compute. -/
  | compute (m : Moment Key Value) (k : Key) (rest : List Key) (t : TaskInfo Key Value)
      (hk : m.engine.readyTaskInfos = k :: rest) (hrest : m.IsAtRest)
      (hf : m.engine.finishedInputRequests = [])
      (h : (m.engine.ruleInfo client k).state.taskInfo = some t) :
      Move client m
        { m with
          engine := (((m.engine.setReadyTaskInfos rest).setState client k
            (.inProgressComputing { t with history := t.history ++ [.inputsAvailable] })).log
              (.callback k .inputsAvailable)).setOutstanding
                (m.engine.numOutstandingUnfinishedTasks + 1)
          calls := ((client.createTask k).respond (t.history ++ [.inputsAvailable])).map (k, ·) }
  /-- A task that is computing reports the inputs it discovered and its value. -/
  | reportValue (m : Moment Key Value) (k : Key) (t : TaskInfo Key Value)
      (h : (m.engine.ruleInfo client k).state = .inProgressComputing t)
      (hr : t.reported = false) (c : Completion Key Value)
      (hc : c = (client.createTask k).finish t.history) :
      Move client m
        { m with
          engine := (m.engine.modifyRuleInfo client k (fun r =>
            (r.setValue m.engine.currentEpoch c.value c.forceChange).setState
              (.inProgressComputing (t.report c)))).setFinishedTaskInfos
                (k :: m.engine.finishedTaskInfos) }
  /-- A rule whose task has reported is complete. -/
  | completeRule (m : Moment Key Value) (k : Key) (rest : List Key) (t : TaskInfo Key Value)
      (hk : m.engine.finishedTaskInfos = k :: rest) (hd : m.discovered = [])
      (h : (m.engine.ruleInfo client k).state.taskInfo = some t) :
      Move client m
        { m with
          engine := (((m.engine.setFinishedTaskInfos rest).modifyRuleInfo client k (fun r =>
              (r.setComplete m.engine.currentEpoch).setDependencies
                (r.result.dependencies ++ t.discoveredDependencies))).wakeUp t)
          discovered := t.discoveredDependencies }
  /-- A discovered dependency is requested. -/
  | requestDiscovered (m : Moment Key Value) (d : Dependency Key)
      (rest : List (Dependency Key)) (hd : m.discovered = d :: rest) :
      Move client m
        { m with
          engine := m.engine.addInputRequests
            [Engine.dummyRequest d.key d.orderOnly d.singleUse]
          discovered := rest }
  /-- A rule that is scanning is forced to run, to break a cycle. -/
  | forceBuild (m : Moment Key Value) (k : Key) (record : RuleScanRecord Key)
      (hstuck : m.IsStuck)
      (h : (m.engine.ruleInfo client k).state = .isScanning (some record)) :
      Move client m
        { m with
          engine := ((m.engine.addRuleInfosToScan
            record.deferredScanRequests).addInputRequests
              record.pausedInputRequests).modifyRuleInfo client k (fun r =>
                (r.setState .needsToRun).setWasForced true) }
  /-- A prior value is supplied, to break a cycle. -/
  | supplyPriorValue (m : Moment Key Value) (k : Key) (r : TaskInputRequest Key)
      (t : TaskInfo Key Value) (hstuck : m.IsStuck)
      (h : (m.engine.ruleInfo client k).state = .inProgressWaiting t)
      (hb : (m.engine.ruleInfo client k).result.builtAt ≠ 0) (hr : r ∈ t.requestedBy) :
      Move client m
        { m with
          engine := (m.engine.addFinishedInputRequests
            [{ r with forcePriorValue := true }]).setState client k
              (.inProgressWaiting { t with requestedBy := t.requestedBy.erase r }) }

end LLBuild

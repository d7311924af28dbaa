import LLBuild.Core.Moves

/-!
# The steps of a build

Each step of a build is a sequence of moves, as long as the build is not cancelled and its
results can be recorded.
-/

namespace LLBuild

open RuleState

open Option

open Bool

open List

variable {Key Value : Type} [LinearOrder Key] [Inhabited Value]
variable {client : Client Key Value}

namespace Engine

/-! ### Ready tasks -/

theorem getRuleInfoForKey_setOutstanding (s : Engine Key Value) (k : Key) (n : ℕ) :
  (s.setOutstanding n).getRuleInfoForKey client k
    = (s.getRuleInfoForKey client k).setOutstanding n
  := by
  rw [getRuleInfoForKey, getRuleInfoForKey]
  simp only [setOutstanding_ruleInfos, setOutstanding_db]
  split_ifs
  · rfl
  · split <;> rfl

theorem addTaskInputRequest_setOutstanding (s : Engine Key Value) (k key : Key)
    (inputID : UInt64) (orderOnly singleUse : Bool) (n : ℕ) :
  (s.setOutstanding n).addTaskInputRequest client k key inputID orderOnly singleUse
    = (s.addTaskInputRequest client k key inputID orderOnly singleUse).setOutstanding n
  := by
  simp only [addTaskInputRequest, ruleInfo_setOutstanding, getRuleInfoForKey_setOutstanding]
  split_ifs <;> rfl

variable (client) in
theorem taskCalls_setOutstanding (s : Engine Key Value) (k : Key)
    (calls : List (TaskCall Key)) (n : ℕ) :
  calls.foldl (taskCall client k) (s.setOutstanding n)
    = (calls.foldl (taskCall client k) s).setOutstanding n
  := by
  induction calls generalizing s with
  | nil => rfl
  | cons call calls ih =>
    have hcall : (s.setOutstanding n).taskCall client k call
        = (s.taskCall client k call).setOutstanding n := by
      cases call with
      | request key inputID | requestSingleUse key inputID =>
        rw [taskCall, taskCall, addTaskInputRequest_setOutstanding]
        split_ifs <;> rfl
      | mustFollow key =>
        rw [taskCall, taskCall, addTaskInputRequest_setOutstanding]
    rw [foldl_cons, foldl_cons, hcall, ih]

@[simp]
theorem finishedInputRequests_getRuleInfoForKey (s : Engine Key Value) (k : Key) :
  (s.getRuleInfoForKey client k).finishedInputRequests = s.finishedInputRequests
  := by
  rw [getRuleInfoForKey]
  split_ifs
  · rfl
  · split <;> rfl

theorem numOutstanding_taskCalls (s : Engine Key Value) (k : Key) (calls : List (TaskCall Key)) :
  (calls.foldl (taskCall client k) s).numOutstandingUnfinishedTasks
    = s.numOutstandingUnfinishedTasks
  := by
  have h := taskCalls_setOutstanding client s k calls s.numOutstandingUnfinishedTasks
  have hs : s.setOutstanding s.numOutstandingUnfinishedTasks = s := rfl
  rw [hs] at h
  rw [h]
  rfl

variable {s : Engine Key Value} {k : Key} {t : TaskInfo Key Value}

theorem processReadyTask_eq (h : (s.ruleInfo client k).state.taskInfo = some t) :
  s.processReadyTask client k
    = ((client.createTask k).respond (t.history ++ [.inputsAvailable])).foldl
      (taskCall client k) (((s.setState client k
        (.inProgressComputing { t with history := t.history ++ [.inputsAvailable] })).log
          (.callback k .inputsAvailable)).setOutstanding (s.numOutstandingUnfinishedTasks + 1))
  := by
  have hstate : ((s.setState client k (.inProgressComputing t)).ruleInfo client k).state
      = .inProgressComputing t := by
    rw [ruleInfo_setState_self]
    rfl
  rw [processReadyTask, h]
  dsimp only
  rw [callback, hstate, modifyTaskInfo_computing client hstate, setState_setState]
  dsimp only [taskInfo]
  rw [taskCalls_setOutstanding client, numOutstanding_taskCalls]
  rfl

theorem finishedInputRequests_taskCalls (s : Engine Key Value) (k : Key)
    (calls : List (TaskCall Key)) :
  (calls.foldl (taskCall client k) s).finishedInputRequests = s.finishedInputRequests
  := by
  induction calls generalizing s with
  | nil => rfl
  | cons call calls ih =>
    rw [foldl_cons, ih]
    cases call <;> rw [taskCall] <;> simp only [addTaskInputRequest] <;> split_ifs <;> simp

theorem finishedInputRequests_processReadyTask (s : Engine Key Value) (k : Key) :
  (s.processReadyTask client k).finishedInputRequests = s.finishedInputRequests
  := by
  cases h : (s.ruleInfo client k).state.taskInfo with
  | none =>
    rw [processReadyTask, h]
    rfl
  | some t =>
    rw [processReadyTask_eq h, finishedInputRequests_taskCalls]
    rfl

variable (m : Moment Key Value)

variable [DecidableEq Value] in
/-- Processing a ready task is a sequence of moves. -/
theorem processReadyTask_spec (k : Key) (rest : List Key) (hk : m.engine.readyTaskInfos = k :: rest)
    (hrest : m.IsAtRest) (hf : m.engine.finishedInputRequests = [])
    (h : (m.engine.ruleInfo client k).IsInProgress) :
  Moves client m { m with
    engine := (m.engine.setReadyTaskInfos rest).processReadyTask client k }
  := by
  obtain ⟨t, ht⟩ := RuleInfo.taskInfo_of_isInProgress h
  have hmove := (Move.compute m k rest t hk hrest hf ht).moves
  obtain ⟨hcalls, -⟩ := taskCalls_spec client { m with
      engine := (((m.engine.setReadyTaskInfos rest).setState client k
        (.inProgressComputing { t with history := t.history ++ [.inputsAvailable] })).log
          (.callback k .inputsAvailable)).setOutstanding
            (m.engine.numOutstandingUnfinishedTasks + 1)
      calls := ((client.createTask k).respond (t.history ++ [.inputsAvailable])).map (k, ·) }
    k _ rfl
  rw [processReadyTask_eq (by rw [ruleInfo_setReadyTaskInfos, ht]), hrest.2.2]
  exact hmove.trans hcalls

/-! ### Finished tasks -/

theorem getRuleInfoForKey_wakeUp (s : Engine Key Value) (k : Key) (t : TaskInfo Key Value) :
  (s.wakeUp t).getRuleInfoForKey client k = (s.getRuleInfoForKey client k).wakeUp t
  := by
  rw [getRuleInfoForKey, getRuleInfoForKey]
  have hrules : (s.wakeUp t).ruleInfos = s.ruleInfos := rfl
  have hdb : (s.wakeUp t).db = s.db := rfl
  rw [hrules, hdb]
  split_ifs
  · rfl
  · split <;> rfl

theorem requestDiscovered_wakeUp (s : Engine Key Value) (t : TaskInfo Key Value)
    (ds : List (Dependency Key)) :
  ds.foldl (requestDiscovered client) (s.wakeUp t)
    = (ds.foldl (requestDiscovered client) s).wakeUp t
  := by
  induction ds generalizing s with
  | nil => rfl
  | cons d ds ih =>
    have hd : requestDiscovered client (s.wakeUp t) d
        = (requestDiscovered client s d).wakeUp t := by
      rw [requestDiscovered, getRuleInfoForKey_wakeUp]
      rfl
    rw [foldl_cons, foldl_cons, hd, ih]

variable [DecidableEq Value] in
variable (client) in
theorem requestDiscovered_spec :
  Moves client m { m with
      engine := m.discovered.foldl (requestDiscovered client) m.engine, discovered := [] }
    ∧ ∀ k, ((m.discovered.foldl (requestDiscovered client) m.engine).ruleInfo client k)
      = m.engine.ruleInfo client k
  := by
  obtain ⟨s, input, answering, scan, starting, calls, ds⟩ := m
  induction ds generalizing s with
  | nil => exact ⟨.refl, fun _ => rfl⟩
  | cons d ds ih =>
    have hlookup := getRuleInfoForKey_moves client
      ⟨s, input, answering, scan, starting, calls, d :: ds⟩ d.key
    have hmove := hlookup.tail (.requestDiscovered _ d ds rfl)
    obtain ⟨hmoves, hrules⟩ := ih (requestDiscovered client s d)
    refine ⟨hmove.trans hmoves, ?_⟩
    intro k
    rw [foldl_cons]
    refine (hrules k).trans ?_
    rw [requestDiscovered, ruleInfo_addInputRequests, ruleInfo_getRuleInfoForKey]

/-- The rule for a key has been entered in the table. -/
def IsRegistered (s : Engine Key Value) (k : Key) : Prop :=
  (s.ruleInfos.lookup k).isSome

omit [Inhabited Value] in
theorem isRegistered_setRuleInfo (s : Engine Key Value) (k k' : Key) (r : RuleInfo Key Value) :
  (s.setRuleInfo k r).IsRegistered k' ↔ k' = k ∨ s.IsRegistered k'
  := by
  rw [IsRegistered, IsRegistered, setRuleInfo_ruleInfos, Table.lookup_insert]
  split_ifs with h
  · simp [h]
  · simp [h]

section

variable (h : s.IsRegistered k)
include h

theorem IsRegistered.getRuleInfoForKey (k' : Key) :
  (s.getRuleInfoForKey client k').IsRegistered k
  := by
  have hset : (s.setRuleInfo k' (client.newRuleInfo s.db k')).IsRegistered k := by
    rw [isRegistered_setRuleInfo]
    exact .inr h
  rw [Engine.getRuleInfoForKey]
  split_ifs
  · exact h
  · split
    · exact hset
    · exact hset

theorem IsRegistered.requestDiscovered (ds : List (Dependency Key)) :
  (ds.foldl (requestDiscovered client) s).IsRegistered k
  := by
  induction ds generalizing s with
  | nil => exact h
  | cons d ds ih => exact ih (h.getRuleInfoForKey d.key)

theorem ruleInfo_setDB {db : BuildDB Key Value} (hdb : s.db = some db)
    (result : Option (Result Key Value)) (k' : Key) :
  (s.setDB (some { db with results := Function.update db.results k result })).ruleInfo client k'
    = s.ruleInfo client k'
  := by
  obtain ⟨r, hr⟩ := isSome_iff_exists.mp h
  rw [ruleInfo, ruleInfo, setDB_ruleInfos, setDB_db]
  by_cases hk : k' = k
  · rw [hk, hr, getD_some, getD_some]
  · have hnew : client.newRuleInfo
        (some { db with results := Function.update db.results k result }) k'
        = client.newRuleInfo s.db k' := by
      simp only [Client.newRuleInfo, Client.storedResult, hdb]
      cases client.dbError (.lookupRuleResult k') with
      | none => simp only [Function.update_of_ne hk]
      | some message => rfl
    rw [hnew]

end

variable (client) in
theorem setRuleResult_spec (h : s.IsRegistered k) :
  (∃ message, s.setRuleResult client k = (some message, s))
    ∨ ∃ db, s.setRuleResult client k = (none, s.setDB db)
      ∧ ∀ k', (s.setDB db).ruleInfo client k' = s.ruleInfo client k'
  := by
  rw [setRuleResult]
  split
  next hdb =>
    right
    use none
    rw [← hdb]
    exact ⟨rfl, fun _ => rfl⟩
  next db hdb =>
    split
    next message _ => exact .inl ⟨message, rfl⟩
    next => exact .inr ⟨_, rfl, ruleInfo_setDB h hdb _⟩

variable [DecidableEq Value]

/-- Recording the result of a complete rule is a sequence of moves, if it succeeds. -/
theorem recordResult_spec (k : Key) (t : TaskInfo Key Value) (s : Engine Key Value)
    (hk : s.IsRegistered k) (h : Moves client m { m with engine := s.wakeUp t })
    (hrecorded : (s.recordResult client k t).1 = true) :
  Moves client m { m with engine := (s.recordResult client k t).2 }
  := by
  obtain ⟨message, hresult⟩ | ⟨db, hresult, hdb⟩ := setRuleResult_spec client hk
  · rw [recordResult, hresult] at hrecorded
    exact absurd hrecorded false_ne_true
  · rw [recordResult, hresult]
    exact h.tail (.store _ db hdb)

omit [DecidableEq Value] in
theorem processFinishedTask_eq (h : (s.ruleInfo client k).state.taskInfo = some t) :
  s.processFinishedTask client k
    = (t.discoveredDependencies.foldl (requestDiscovered client)
      ((s.modifyRuleInfo client k (fun r => (r.setComplete s.currentEpoch).setDependencies
        (r.result.dependencies ++ t.discoveredDependencies))).log
          (.updateStatus k .isComplete))).recordResult client k t
  := by
  rw [processFinishedTask, h]
  rfl

/-- A rule whose task has reported is completed by a sequence of moves. -/
theorem completeRule_spec (k : Key) (rest : List Key)
    (t : TaskInfo Key Value) (hk : m.engine.finishedTaskInfos = k :: rest)
    (hd : m.discovered = []) (ht : (m.engine.ruleInfo client k).state.taskInfo = some t) :
  Moves client m { m with
    engine := (t.discoveredDependencies.foldl (requestDiscovered client)
      (((m.engine.setFinishedTaskInfos rest).modifyRuleInfo client k (fun r =>
        (r.setComplete m.engine.currentEpoch).setDependencies
          (r.result.dependencies ++ t.discoveredDependencies))).log
            (.updateStatus k .isComplete))).wakeUp t }
  := by
  have hmove := (Move.completeRule m k rest t hk hd ht).moves
  have hreport := hmove.report (.updateStatus k .isComplete) trivial
  obtain ⟨hmoves, -⟩ := requestDiscovered_spec client { m with
    engine := (((m.engine.setFinishedTaskInfos rest).modifyRuleInfo client k (fun r =>
      (r.setComplete m.engine.currentEpoch).setDependencies
        (r.result.dependencies ++ t.discoveredDependencies))).log
          (.updateStatus k .isComplete)).wakeUp t
    discovered := t.discoveredDependencies }
  have hall := Relation.ReflTransGen.trans hreport hmoves
  rw [requestDiscovered_wakeUp, ← hd] at hall
  exact hall

/-- Processing a finished task is a sequence of moves, if its result can be recorded. -/
theorem processFinishedTask_spec (k : Key) (rest : List Key)
    (hk : m.engine.finishedTaskInfos = k :: rest) (hd : m.discovered = [])
    (h : (m.engine.ruleInfo client k).IsInProgress)
    (hrecorded : ((m.engine.setFinishedTaskInfos rest).processFinishedTask client k).1 = true) :
  Moves client m { m with
    engine := ((m.engine.setFinishedTaskInfos rest).processFinishedTask client k).2 }
  := by
  obtain ⟨t, ht⟩ := RuleInfo.taskInfo_of_isInProgress h
  rw [processFinishedTask_eq (by rw [ruleInfo_setFinishedTaskInfos, ht])] at hrecorded ⊢
  apply recordResult_spec m k t _ _ (completeRule_spec m k rest t hk hd ht) hrecorded
  apply IsRegistered.requestDiscovered
  exact (isRegistered_setRuleInfo (m.engine.setFinishedTaskInfos rest) k k _).mpr (.inl rfl)

/-- The engine after a result could not be recorded: the rule is complete, as if nothing
had gone wrong, but what waits for it has not been woken up. -/
structure Unrecorded (s s' : Engine Key Value) : Prop where
  ruleInfos : s'.ruleInfos = s.ruleInfos
  db : s'.db = s.db
  currentEpoch : s'.currentEpoch = s.currentEpoch
  events : ∃ message, s'.events = .error message :: s.events
  trap : s'.trap = s.trap

omit [DecidableEq Value] in
theorem Unrecorded.ruleInfo {s' : Engine Key Value} (h : s.Unrecorded s') (k : Key) :
  s'.ruleInfo client k = s.ruleInfo client k
  := by
  rw [Engine.ruleInfo, Engine.ruleInfo, h.ruleInfos, h.db]

omit [DecidableEq Value] in
/-- A result that is not recorded changes nothing but the number of outstanding tasks. -/
theorem recordResult_of_failed (h : (s.recordResult client k t).1 = false) :
  ∃ message, client.dbError (.setRuleResult k) = some message ∧ (s.recordResult client k t).2
    = (s.log (.error message)).setOutstanding (s.numOutstandingUnfinishedTasks - 1)
  := by
  rw [recordResult, setRuleResult] at h ⊢
  cases hdb : s.db with
  | none =>
    rw [hdb] at h
    cases h
  | some db =>
    rw [hdb] at h
    cases herror : client.dbError (.setRuleResult k) with
    | none =>
      rw [herror] at h
      cases h
    | some message => exact ⟨message, rfl, rfl⟩

/-- Processing a finished task whose result cannot be recorded. -/
theorem processFinishedTask_failed (k : Key) (rest : List Key)
    (hk : m.engine.finishedTaskInfos = k :: rest) (hd : m.discovered = [])
    (h : (m.engine.ruleInfo client k).IsInProgress)
    (hfailed : ((m.engine.setFinishedTaskInfos rest).processFinishedTask client k).1 = false) :
  ∃ s, Moves client m { m with engine := s }
    ∧ s.Unrecorded ((m.engine.setFinishedTaskInfos rest).processFinishedTask client k).2
    ∧ (client.dbError (.setRuleResult k)).isSome
  := by
  obtain ⟨t, ht⟩ := RuleInfo.taskInfo_of_isInProgress h
  rw [processFinishedTask_eq (by rw [ruleInfo_setFinishedTaskInfos, ht])] at hfailed ⊢
  obtain ⟨message, herror, heq⟩ := recordResult_of_failed hfailed
  rw [heq, herror]
  exact ⟨_, completeRule_spec m k rest t hk hd ht, ⟨rfl, rfl, rfl, ⟨message, rfl⟩, rfl⟩, rfl⟩

/-! ### The report of a task -/

omit [DecidableEq Value] in
/-- The inputs a task discovered are kept in the order in which they were reported. -/
theorem taskDiscoveredDependency_spec
    (h : (s.ruleInfo client k).state = .inProgressComputing t) (ds : List Key)
    (s' : Engine Key Value) (hs' : ds.foldl (taskDiscoveredDependency client k) s = s') :
  s'.ruleInfo client k = (s.ruleInfo client k).setState (.inProgressComputing { t with
      discoveredDependencies :=
        t.discoveredDependencies ++ ds.map (fun key => ⟨key, false, false⟩) })
    ∧ ∀ r, s'.setRuleInfo k r = s.setRuleInfo k r
  := by
  induction ds generalizing s t with
  | nil =>
    obtain rfl := hs'
    constructor
    · rw [map_nil, append_nil, ← h]
      rfl
    · exact fun _ => rfl
  | cons d ds ih =>
    have hcomputing : (s.ruleInfo client k).IsInProgressComputing := by
      rw [RuleInfo.IsInProgressComputing, h]
      rfl
    rw [foldl_cons, taskDiscoveredDependency, if_neg (not_not.mpr hcomputing),
      modifyTaskInfo_computing client h] at hs'
    obtain ⟨hrule, hset⟩ := ih (by rw [ruleInfo_setState_self]; rfl) hs'
    constructor
    · rw [hrule]
      simp [RuleInfo.setState]
    · intro r
      rw [hset, setState, modifyRuleInfo, setRuleInfo_setRuleInfo]

/-- The report of a task is a move. -/
theorem finishTask_spec (k : Key) (t : TaskInfo Key Value)
    (h : (m.engine.ruleInfo client k).state = .inProgressComputing t) (hr : t.reported = false) :
  Moves client m { m with engine := m.engine.finishTask client k }
  := by
  have htask : (m.engine.ruleInfo client k).state.taskInfo = some t := by
    rw [h]
    rfl
  have hmove := (Move.reportValue m k t h hr _ rfl).moves
  rw [finishTask, htask]
  dsimp only
  generalize hs : ((client.createTask k).finish t.history).discoveredDependencies.foldl
    (taskDiscoveredDependency client k) m.engine = s
  obtain ⟨hrule, hset⟩ := taskDiscoveredDependency_spec h _ s hs
  have hcomputing : (s.ruleInfo client k).IsInProgressComputing := by
    rw [hrule]
    rfl
  have hepoch : (s.setRuleInfo k (s.ruleInfo client k)).currentEpoch = m.engine.currentEpoch := by
    rw [hset]
    rfl
  rw [setRuleInfo_currentEpoch] at hepoch
  have hlast (r r' : RuleInfo Key Value) (l : List Key) :
      ((m.engine.setRuleInfo k r).setFinishedTaskInfos l).setRuleInfo k r'
        = (m.engine.setRuleInfo k r').setFinishedTaskInfos l := by
    rw [← setRuleInfo_setRuleInfo m.engine k r r']
    rfl
  rw [taskIsComplete, if_neg (not_not.mpr hcomputing), hset, modifyTaskInfo, setState,
    modifyRuleInfo, ruleInfo_setFinishedTaskInfos, ruleInfo_setRuleInfo_self, hlast, hrule, hepoch]
  exact hmove

/-- The report of a task changes no other rule. -/
theorem ruleInfo_finishTask (s : Engine Key Value) {k' : Key} (hk : k' ≠ k) :
  (s.finishTask client k).ruleInfo client k' = s.ruleInfo client k'
  := by
  have hdiscovered (ds : List Key) (s : Engine Key Value) :
      (ds.foldl (taskDiscoveredDependency client k) s).ruleInfo client k'
        = s.ruleInfo client k' := by
    induction ds generalizing s with
    | nil => rfl
    | cons d ds ih =>
      rw [foldl_cons, ih, taskDiscoveredDependency]
      split_ifs
      · rw [modifyTaskInfo, ruleInfo_setState, if_neg hk]
      · rfl
  rw [finishTask]
  split
  next => rfl
  next t ht =>
    rw [modifyTaskInfo, ruleInfo_setState, if_neg hk, taskIsComplete]
    split_ifs
    · rw [ruleInfo_setFinishedTaskInfos, ruleInfo_setRuleInfo, if_neg hk]
      exact hdiscovered _ s
    · exact hdiscovered _ s

/-- The report of a task that is computing is no event, and is well defined. -/
theorem finishTask_events (h : (s.ruleInfo client k).state = .inProgressComputing t) :
  (s.finishTask client k).events = s.events ∧ (s.finishTask client k).trap = s.trap
  := by
  have hdiscovered (ds : List Key) (s : Engine Key Value)
      (h : (s.ruleInfo client k).IsInProgressComputing) :
      ((ds.foldl (taskDiscoveredDependency client k) s).ruleInfo client k).IsInProgressComputing
        ∧ (ds.foldl (taskDiscoveredDependency client k) s).events = s.events
        ∧ (ds.foldl (taskDiscoveredDependency client k) s).trap = s.trap := by
    induction ds generalizing s with
    | nil => exact ⟨h, rfl, rfl⟩
    | cons d ds ih =>
      obtain ⟨t, ht⟩ := kind_eq_inProgressComputing.mp h
      rw [foldl_cons, taskDiscoveredDependency, if_neg (not_not.mpr h),
        modifyTaskInfo_computing client ht]
      exact ih _ (by rw [ruleInfo_setState_self]; rfl)
  have htask : (s.ruleInfo client k).state.taskInfo = some t := by
    rw [h]
    rfl
  obtain ⟨hcomputing, hevents⟩ := hdiscovered
    ((client.createTask k).finish t.history).discoveredDependencies s
    (kind_eq_inProgressComputing.mpr ⟨t, h⟩)
  rw [finishTask, htask]
  dsimp only
  rw [taskIsComplete, if_neg (not_not.mpr hcomputing)]
  exact hevents

/-! ### Cycles -/

/-- A rule that is scanning is forced to run by a sequence of moves. -/
theorem forceBuild_spec (k : Key) (hstuck : m.IsStuck) :
  Reaches client m { m with engine := m.engine.forceBuild client k }
  := by
  have hs : m.engine.setRuleInfosToScan [] = m.engine := by
    rw [← hstuck.ruleInfosToScan]
    rfl
  rw [forceBuild, hstuck.ruleInfosToScan]
  dsimp only [reverse_nil, eraseP_nil]
  rw [hs, finishScanRequest]
  split
  next => exact .inr (.inl rfl)
  next record hr =>
    have hmove := (Move.forceBuild m k record hstuck (scanRecord_eq_some.mp hr)).moves
    have hreport := hmove.report (.determinedRuleNeedsToRun k .forced none) trivial
    rw [modifyRuleInfo, ruleInfo_log, ruleInfo_setState_self, setState, modifyRuleInfo]
    have heq (s : Engine Key Value) (e : Event Key Value) (r r' : RuleInfo Key Value) :
        ((s.setRuleInfo k r).log e).setRuleInfo k r' = (s.setRuleInfo k r').log e := by
      rw [← setRuleInfo_setRuleInfo s k r r']
      rfl
    rw [heq]
    exact hreport.reaches

variable (client) in
theorem breakCycleFrom_spec (cycle keys : List Key) (hstuck : m.IsStuck) :
  Reaches client m { m with engine := (m.engine.breakCycleFrom client cycle keys).2 }
  := by
  induction keys with
  | nil => exact .inl .refl
  | cons k rest ih =>
    rw [breakCycleFrom]
    split
    next =>
      split_ifs
      · exact .inl .refl
      · exact forceBuild_spec m k hstuck
    next t hstate =>
      by_cases hbuilt : (m.engine.ruleInfo client k).result.builtAt = 0
      · rw [if_pos hbuilt]
        exact ih
      · rw [if_neg hbuilt]
        split
        next => exact .inr (.inr rfl)
        next next _ =>
          split
          next => exact ih
          next request hfind =>
            split_ifs
            · exact .inl .refl
            · have hmove := (Move.supplyPriorValue m k request t hstuck hstate hbuilt
                (mem_of_find?_eq_some hfind)).moves
              rw [supplyPriorValue, modifyTaskInfo_waiting client (t := t)
                (by rw [ruleInfo_addFinishedInputRequests, hstate])]
              exact hmove.reaches
    next => exact ih

variable (client) in
/-- Resolving a cycle is a sequence of moves. -/
theorem resolveCycle_spec (buildKey : Key) (hstuck : m.IsStuck) :
  Reaches client m { m with engine := (m.engine.resolveCycle client buildKey).2 }
  := by
  have hbreak := breakCycleFrom_spec client m (m.engine.findCycle buildKey)
    (m.engine.findCycle buildKey).reverse hstuck
  rw [resolveCycle]
  by_cases hdangling : m.engine.HasDanglingScanRecord
  · rw [if_pos hdangling]
    exact .inr (.inl rfl)
  · rw [if_neg hdangling]
    rcases hb : m.engine.breakCycleFrom client (m.engine.findCycle buildKey)
      (m.engine.findCycle buildKey).reverse with ⟨broken, s⟩
    rw [hb] at hbreak
    dsimp only
    rw [breakCycle, hb]
    cases broken with
    | true => exact hbreak
    | false =>
      obtain hmoves | htrap := hbreak
      · exact (hmoves.report (.cycleDetected _) trivial).reaches
      · exact .inr htrap

/-- The tasks in the queues are in progress. -/
structure TasksInProgress (client : Client Key Value) (s : Engine Key Value) : Prop where
  finishedInputRequests : ∀ r ∈ s.finishedInputRequests,
    ∃ k, r.taskInfo = some k ∧ (s.ruleInfo client k).IsInProgress
  readyTaskInfos : ∀ k ∈ s.readyTaskInfos, (s.ruleInfo client k).IsInProgress
  finishedTaskInfos : ∀ k ∈ s.finishedTaskInfos, (s.ruleInfo client k).IsInProgress

end Engine

variable [DecidableEq Value]

namespace Execution

variable (e : Execution Key Value)

/-- The scan request that is being processed. -/
def current : Option (RuleScanRequest Key) :=
  match e.phase with
  | .scanRequests current => current
  | _ => none

/-- The engine between two steps of a build. -/
def moment : Moment Key Value :=
  .between e.engine e.current

/-- The build is in the main loop, or has returned from it with success. -/
def IsLive : Prop :=
  match e.phase with
  | .cancelling _ => False
  | .returned false => False
  | _ => True

/-- The queues that are empty: the answers have been given when the ready tasks are
processed, and all the queues passed are empty if the body of the loop has done no work. -/
def Drained : Prop :=
  (e.phase = .readyTasks → e.engine.finishedInputRequests = []) ∧ (e.didWork = false →
    match e.phase with
    | .top => True
    | .scanRequests current => current = none
    | .inputRequests => e.engine.ruleInfosToScan = []
    | .finishedInputRequests => e.engine.ruleInfosToScan = [] ∧ e.engine.inputRequests = []
    | .readyTasks =>
        e.engine.ruleInfosToScan = [] ∧ e.engine.inputRequests = []
          ∧ e.engine.finishedInputRequests = []
    | .finishedTasks | .endOfBody =>
        e.engine.ruleInfosToScan = [] ∧ e.engine.inputRequests = []
          ∧ e.engine.finishedInputRequests = [] ∧ e.engine.readyTaskInfos = []
    | _ => True)

end Execution

namespace Engine

variable (client) in
/-- The report of a task leaves the queues of the engine as they are. -/
theorem finishTask_queues (s : Engine Key Value) (k : Key) :
  (s.finishTask client k).ruleInfosToScan = s.ruleInfosToScan
    ∧ (s.finishTask client k).inputRequests = s.inputRequests
    ∧ (s.finishTask client k).finishedInputRequests = s.finishedInputRequests
    ∧ (s.finishTask client k).readyTaskInfos = s.readyTaskInfos
  := by
  have hdiscovered (ds : List Key) (s : Engine Key Value) :
      (ds.foldl (taskDiscoveredDependency client k) s).ruleInfosToScan = s.ruleInfosToScan
        ∧ (ds.foldl (taskDiscoveredDependency client k) s).inputRequests = s.inputRequests
        ∧ (ds.foldl (taskDiscoveredDependency client k) s).finishedInputRequests
          = s.finishedInputRequests
        ∧ (ds.foldl (taskDiscoveredDependency client k) s).readyTaskInfos
          = s.readyTaskInfos := by
    induction ds generalizing s with
    | nil => exact ⟨rfl, rfl, rfl, rfl⟩
    | cons d ds ih =>
      obtain ⟨h1, h2, h3, h4⟩ := ih (taskDiscoveredDependency client k s d)
      rw [foldl_cons, h1, h2, h3, h4, taskDiscoveredDependency]
      split_ifs <;> exact ⟨rfl, rfl, rfl, rfl⟩
  rw [finishTask]
  split
  next => exact ⟨rfl, rfl, rfl, rfl⟩
  next t ht =>
    obtain ⟨h1, h2, h3, h4⟩ := hdiscovered
      ((client.createTask k).finish t.history).discoveredDependencies s
    rw [← h1, ← h2, ← h3, ← h4]
    dsimp only
    rw [taskIsComplete]
    split_ifs <;> exact ⟨rfl, rfl, rfl, rfl⟩

end Engine

namespace Execution

variable {e : Execution Key Value}

open Engine

theorem Drained.complete (h : e.Drained) (k : Key) :
  ({ e with engine := e.engine.finishTask client k } : Execution Key Value).Drained
  := by
  obtain ⟨h1, h2, h3, h4⟩ := finishTask_queues client e.engine k
  unfold Drained at h ⊢
  rw [h1, h2, h3, h4]
  exact h

variable {e' : Execution Key Value}

/-- A step of the main loop is taken in one of its phases. -/
theorem step_work (h : e.step client .work = some e') :
  e.engine.trap = none ∧ e.work client = some e'
  := by
  rw [step] at h
  split_ifs at h with htrap
  exact ⟨not_isSome_iff_eq_none.mp htrap, h⟩

/-- A task reports in a step if it is computing and has not reported before. -/
theorem step_complete {k : Key} (h : e.step client (.complete k) = some e') :
  ∃ t, (e.engine.ruleInfo client k).state = .inProgressComputing t ∧ t.reported = false
    ∧ e.engine.trap = none ∧ e' = { e with engine := e.engine.finishTask client k }
  := by
  rw [step] at h
  split_ifs at h with htrap
  split at h
  next t hstate =>
    split_ifs at h with hreported
    exact ⟨t, hstate, not_eq_true _ ▸ hreported, not_isSome_iff_eq_none.mp htrap, (some.inj h).symm⟩
  next => cases h

/-- The steps of the main loop, one by one. -/
inductive Works (client : Client Key Value) (e : Execution Key Value) :
    Execution Key Value → Prop
  | cancelled (hp : e.phase = .top) (h : e.engine.buildCancelled = true) :
      Works client e { e with phase := .cancelling none, didWork := false }
  | enter (hp : e.phase = .top) (h : e.engine.buildCancelled = false) :
      Works client e { e with phase := .scanRequests none, didWork := false }
  | scan (q : RuleScanRequest Key) (hp : e.phase = .scanRequests (some q)) :
      Works client e { e with
        engine := (e.engine.processRuleScanRequest client q).2
        phase := .scanRequests (e.engine.processRuleScanRequest client q).1 }
  | takeScan (q : RuleScanRequest Key) (rest : List (RuleScanRequest Key))
      (hp : e.phase = .scanRequests none) (h : e.engine.ruleInfosToScan = q :: rest)
      (hs : (e.engine.ruleInfo client q.ruleInfo).IsScanning) :
      Works client e { e with
        engine := e.engine.setRuleInfosToScan rest
        phase := .scanRequests (some q)
        didWork := true }
  | dropScan (q : RuleScanRequest Key) (rest : List (RuleScanRequest Key))
      (hp : e.phase = .scanRequests none) (h : e.engine.ruleInfosToScan = q :: rest)
      (hs : ¬ (e.engine.ruleInfo client q.ruleInfo).IsScanning) :
      Works client e { e with engine := e.engine.setRuleInfosToScan rest, didWork := true }
  | scansDone (hp : e.phase = .scanRequests none) (h : e.engine.ruleInfosToScan = []) :
      Works client e { e with phase := .inputRequests }
  | input (r : TaskInputRequest Key) (rest : List (TaskInputRequest Key))
      (hp : e.phase = .inputRequests) (h : e.engine.inputRequests = r :: rest) :
      Works client e { e with
        engine := (e.engine.setInputRequests rest).processInputRequest client r
        didWork := true }
  | inputsDone (hp : e.phase = .inputRequests) (h : e.engine.inputRequests = []) :
      Works client e { e with phase := .finishedInputRequests }
  | answer (r : TaskInputRequest Key) (rest : List (TaskInputRequest Key))
      (hp : e.phase = .finishedInputRequests) (h : e.engine.finishedInputRequests = r :: rest) :
      Works client e { e with
        engine := (e.engine.setFinishedInputRequests rest).processFinishedInputRequest client r
        didWork := true }
  | answersDone (hp : e.phase = .finishedInputRequests)
      (h : e.engine.finishedInputRequests = []) :
      Works client e { e with phase := .readyTasks }
  | ready (k : Key) (rest : List Key) (hp : e.phase = .readyTasks)
      (h : e.engine.readyTaskInfos = k :: rest) :
      Works client e { e with
        engine := (e.engine.setReadyTaskInfos rest).processReadyTask client k
        didWork := true }
  | readyDone (hp : e.phase = .readyTasks) (h : e.engine.readyTaskInfos = []) :
      Works client e { e with phase := .finishedTasks }
  | finish (k : Key) (rest : List Key) (hp : e.phase = .finishedTasks)
      (h : e.engine.finishedTaskInfos = k :: rest)
      (hr : ((e.engine.setFinishedTaskInfos rest).processFinishedTask client k).1 = true) :
      Works client e { e with
        engine := ((e.engine.setFinishedTaskInfos rest).processFinishedTask client k).2
        didWork := true }
  | finishFailed (k : Key) (rest : List Key) (hp : e.phase = .finishedTasks)
      (h : e.engine.finishedTaskInfos = k :: rest)
      (hr : ((e.engine.setFinishedTaskInfos rest).processFinishedTask client k).1 = false) :
      Works client e { e with
        engine := ((e.engine.setFinishedTaskInfos rest).processFinishedTask client k).2
        phase := .cancelling (some k)
        didWork := true }
  | finishDone (hp : e.phase = .finishedTasks) (h : e.engine.finishedTaskInfos = []) :
      Works client e { e with phase := .endOfBody }
  | again (hp : e.phase = .endOfBody)
      (h : e.didWork = true
        ∨ e.engine.numOutstandingUnfinishedTasks ≠ 0 ∧ e.engine.finishedTaskInfos ≠ []) :
      Works client e { e with phase := .top }
  | resolved (hp : e.phase = .endOfBody) (hd : e.didWork = false)
      (ho : e.engine.numOutstandingUnfinishedTasks = 0) (ht : e.engine.hasTasks = true)
      (h : (e.engine.resolveCycle client e.buildKey).1 = true) :
      Works client e { e with
        engine := (e.engine.resolveCycle client e.buildKey).2, phase := .top }
  | unresolved (hp : e.phase = .endOfBody) (hd : e.didWork = false)
      (ho : e.engine.numOutstandingUnfinishedTasks = 0) (ht : e.engine.hasTasks = true)
      (h : (e.engine.resolveCycle client e.buildKey).1 = false) :
      Works client e { e with
        engine := (e.engine.resolveCycle client e.buildKey).2, phase := .cancelling none }
  | stuck (hp : e.phase = .endOfBody) (hd : e.didWork = false)
      (ho : e.engine.numOutstandingUnfinishedTasks = 0) (ht : e.engine.hasTasks = false)
      (h : ¬ (e.engine.ruleInfo client e.buildKey).IsComplete e.engine.currentEpoch) :
      Works client e { e with
        engine := e.engine.log (.error noCycleDiagnosed), phase := .cancelling none }
  | success (hp : e.phase = .endOfBody) (hd : e.didWork = false)
      (ho : e.engine.numOutstandingUnfinishedTasks = 0) (ht : e.engine.hasTasks = false)
      (h : (e.engine.ruleInfo client e.buildKey).IsComplete e.engine.currentEpoch) :
      Works client e { e with phase := .returned true }
  | drain (unrecorded : Option Key) (hp : e.phase = .cancelling unrecorded)
      (ho : e.engine.numOutstandingUnfinishedTasks ≠ 0) (h : e.engine.finishedTaskInfos ≠ []) :
      Works client e { e with
        engine := (e.engine.setOutstanding (e.engine.numOutstandingUnfinishedTasks -
          e.engine.finishedTaskInfos.length)).setFinishedTaskInfos [] }
  | cancelTasks (unrecorded : Option Key) (hp : e.phase = .cancelling unrecorded)
      (ho : e.engine.numOutstandingUnfinishedTasks = 0) :
      Works client e { e with
        engine := e.engine.cancelRemainingTasks client unrecorded, phase := .returned false }

omit [DecidableEq Value] in
theorem works_of_work (h : e.work client = some e') :
  Works client e e'
  := by
  rw [work] at h
  split at h
  next hp =>
    split_ifs at h with hc
    · cases h
      exact .cancelled hp hc
    · cases h
      exact .enter hp (not_eq_true _ ▸ hc)
  next current hp =>
    cases h
    cases current with
    | some q => exact .scan q hp
    | none =>
      rw [stepScanRequests]
      split
      next hq => exact .scansDone hp hq
      next q rest hq =>
        dsimp only
        split_ifs with hs
        · exact .takeScan q rest hp hq hs
        · exact .dropScan q rest hp hq hs
  next hp =>
    cases h
    rw [stepInputRequests]
    split
    next hq => exact .inputsDone hp hq
    next r rest hq => exact .input r rest hp hq
  next hp =>
    cases h
    rw [stepFinishedInputRequests]
    split
    next hq => exact .answersDone hp hq
    next r rest hq => exact .answer r rest hp hq
  next hp =>
    cases h
    rw [stepReadyTasks]
    split
    next hq => exact .readyDone hp hq
    next k rest hq => exact .ready k rest hp hq
  next hp =>
    cases h
    rw [stepFinishedTasks]
    split
    next hq => exact .finishDone hp hq
    next k rest hq =>
      rcases hr : (e.engine.setFinishedTaskInfos rest).processFinishedTask client k with ⟨b, s⟩
      cases b with
      | true =>
        have hfinish := Works.finish k rest hp hq (by rw [hr])
        rw [hr] at hfinish
        simp only [hr]
        exact hfinish
      | false =>
        have hfinish := Works.finishFailed k rest hp hq (by rw [hr])
        rw [hr] at hfinish
        simp only [hr]
        exact hfinish
  next hp =>
    rw [stepEndOfBody] at h
    by_cases hd : e.didWork = true
    · rw [if_pos hd] at h
      cases h
      exact .again hp (.inl hd)
    · rw [if_neg hd] at h
      by_cases ho : e.engine.numOutstandingUnfinishedTasks = 0
      · rw [if_neg (not_not.mpr ho)] at h
        by_cases ht : e.engine.hasTasks = true
        · rw [if_pos ht] at h
          rcases hr : e.engine.resolveCycle client e.buildKey with ⟨b, s⟩
          rw [hr] at h
          cases b with
          | true =>
            have hresolved := Works.resolved hp (not_eq_true _ ▸ hd) ho ht (by rw [hr])
            rw [hr] at hresolved
            cases h
            exact hresolved
          | false =>
            have hresolved := Works.unresolved hp (not_eq_true _ ▸ hd) ho ht (by rw [hr])
            rw [hr] at hresolved
            cases h
            exact hresolved
        · split_ifs at h with hc
          · cases h
            exact .success hp (not_eq_true _ ▸ hd) ho (not_eq_true _ ▸ ht) hc
          · cases h
            exact .stuck hp (not_eq_true _ ▸ hd) ho (not_eq_true _ ▸ ht) hc
      · rw [if_pos ho] at h
        split_ifs at h with hf
        cases h
        exact .again hp (.inr ⟨ho, by simpa using hf⟩)
  next unrecorded hp =>
    rw [stepCancelling] at h
    by_cases ho : e.engine.numOutstandingUnfinishedTasks = 0
    · rw [if_neg (not_not.mpr ho)] at h
      cases h
      exact .cancelTasks unrecorded hp ho
    · rw [if_pos ho] at h
      split_ifs at h with hf
      cases h
      exact .drain unrecorded hp ho (by simpa using hf)
  next => cases h

/-- The body of the loop empties the queues, unless it does some work. -/
theorem Drained.step {a : Action Key} (h : e.Drained) (hstep : e.step client a = some e') :
  e'.Drained
  := by
  cases a with
  | work =>
    obtain ⟨-, hwork⟩ := step_work hstep
    unfold Drained at h ⊢
    cases works_of_work hwork with
    | scan q hp =>
      rw [hp] at h
      refine ⟨by simp, fun hd => ?_⟩
      exact absurd (h.2 hd) (by simp)
    | ready k rest hp hk =>
      refine ⟨fun _ => ?_, by simp⟩
      rw [finishedInputRequests_processReadyTask]
      exact h.1 hp
    | _ => simp_all
  | complete k =>
    obtain ⟨t, -, -, -, rfl⟩ := step_complete hstep
    exact h.complete k
  | cancel =>
    cases hstep
    exact h

omit [LinearOrder Key] [DecidableEq Value] [Inhabited Value] in
theorem moment_eq (e : Execution Key Value) :
  e.moment = ⟨e.engine, none, none, e.current, none, [], []⟩
  := rfl

omit [LinearOrder Key] [DecidableEq Value] [Inhabited Value] in
/-- The engine is stuck when it tries to resolve a cycle. -/
theorem Drained.isStuck (h : e.Drained) (hp : e.phase = .endOfBody) (hd : e.didWork = false)
    (ho : e.engine.numOutstandingUnfinishedTasks = 0) (ht : e.engine.hasTasks = true) :
  e.moment.IsStuck
  := by
  have hqueues := h.2 hd
  rw [hp] at hqueues
  obtain ⟨h1, h2, h3, h4⟩ := hqueues
  have hcurrent : e.current = none := by rw [current, hp]
  exact ⟨⟨rfl, rfl, rfl⟩, rfl, hcurrent, rfl, h1, h2, h3, h4, ho, ht⟩

/-- A step of a build that is not being cancelled is a sequence of moves, if it does not
fail to record a result. -/
theorem step_reaches {a : Action Key} (hd : e.Drained)
    (htasks : e.engine.TasksInProgress client) (hlive : e.IsLive)
    (hrecorded : ∀ k, e'.phase ≠ .cancelling (some k)) (hstep : e.step client a = some e') :
  Reaches client e.moment e'.moment
  := by
  cases a with
  | work =>
    obtain ⟨-, hwork⟩ := step_work hstep
    cases works_of_work hwork with
    | cancelled hp _ | enter hp _ | scansDone hp _ | inputsDone hp _ | answersDone hp _
    | readyDone hp _ | finishDone hp _ | again hp _ | success hp hdw ho ht h =>
      left
      rw [moment_eq, moment_eq, current, current, hp]
    | scan q hp =>
      have hq : e.current = some q := by rw [current, hp]
      exact processRuleScanRequest_spec client e.moment q hq ⟨rfl, rfl, rfl⟩
    | takeScan q rest hp hq hs =>
      have hnone : e.current = none := by rw [current, hp]
      exact (Move.takeScan e.moment q rest hnone hq hs).moves.reaches
    | dropScan q rest hp hq hs =>
      have hnone : e.current = none := by rw [current, hp]
      exact (Move.dropScan e.moment q rest hnone hq hs).moves.reaches
    | input r rest hp hr =>
      have htake := (Move.takeInput e.moment r rest rfl hr : Move client _ _).moves
      exact htake.trans_reaches (processInputRequest_spec _ r rfl ⟨rfl, rfl, rfl⟩)
    | answer r rest hp hr =>
      obtain ⟨k, hk, hprogress⟩ := htasks.finishedInputRequests r
        (by rw [hr]; exact .head _)
      exact (processFinishedInputRequest_spec e.moment r rest k hr ⟨rfl, rfl, rfl⟩ hk
        hprogress).reaches
    | ready k rest hp hk =>
      have hprogress := htasks.readyTaskInfos k (by rw [hk]; exact .head _)
      exact (processReadyTask_spec e.moment k rest hk ⟨rfl, rfl, rfl⟩ (hd.1 hp) hprogress).reaches
    | finish k rest hp hk hr =>
      have hprogress := htasks.finishedTaskInfos k (by rw [hk]; exact .head _)
      exact (processFinishedTask_spec e.moment k rest hk rfl hprogress hr).reaches
    | finishFailed k rest hp hk hr => exact absurd rfl (hrecorded k)
    | resolved hp hdw ho ht h | unresolved hp hdw ho ht h =>
      have hq : e.current = none := by rw [current, hp]
      have hmoves := resolveCycle_spec client e.moment e.buildKey
        (hd.isStuck hp hdw ho ht)
      rw [moment_eq e, hq] at hmoves
      rw [moment_eq e, hq]
      exact hmoves
    | stuck hp hdw ho ht h =>
      have hq : e.current = none := by rw [current, hp]
      have hmove := (Move.report e.moment (.error noCycleDiagnosed) trivial : Move client _ _).moves
      rw [moment_eq e, hq] at hmove
      rw [moment_eq e, hq]
      exact hmove.reaches
    | drain unrecorded hp _ _ | cancelTasks unrecorded hp _ =>
      rw [IsLive, hp] at hlive
      exact hlive.elim
  | complete k =>
    obtain ⟨t, hstate, hr, -, rfl⟩ := step_complete hstep
    exact (finishTask_spec e.moment k t hstate hr).reaches
  | cancel =>
    cases hstep
    exact (Move.cancelBuild e.moment : Move client _ _).moves.reaches

end Execution

end LLBuild

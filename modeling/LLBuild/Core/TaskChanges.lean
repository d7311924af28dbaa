import LLBuild.Core.Accounting
import LLBuild.Core.Changes

/-!
# What happens to a task

What a move does to the task of a rule and to its requests.  A task is told something by a
callback and tells something when it reports.  Its requests go through the queue; a request
whose input has to be scanned is put aside and goes back to the end of the queue once the
scan is done.
-/

namespace LLBuild

open Event

open RuleInfo

open List

open Engine RequestProperty RuleState

variable {Key Value : Type}

/-- The dependency that is recorded for a request. -/
def TaskInputRequest.dependency (r : TaskInputRequest Key) : Dependency Key :=
  ⟨r.inputRuleInfo, r.orderOnly, r.singleUse⟩

variable [LinearOrder Key] [Inhabited Value]
variable {client : Client Key Value}

/-! ### What a task requested and what it was told -/

/-- The callback to the task of a rule an event reports. -/
def Event.callbackOf (k : Key) : Event Key Value → Option (Callback Key Value)
  | callback k' c => if k' = k then some c else none
  | _ => none

namespace Engine

variable (k : Key)

/-- The requests the task of a rule made during the build, the first one first. -/
def requestsOf (s : Engine Key Value) : List (TaskInputRequest Key) :=
  (s.events.filterMap madeRequest).reverse.filter (ofTask k).holds

/-- The callbacks to the task of a rule during the build, the first one first. -/
def callbacksOf (s : Engine Key Value) : List (Callback Key Value) :=
  (s.events.filterMap (callbackOf k)).reverse

variable (event : Event Key Value)

omit [Inhabited Value] in
theorem requestsOf_log (s : Engine Key Value) :
  (s.log event).requestsOf k = s.requestsOf k
    ++ event.madeRequest.toList.filter (ofTask k).holds
  := by
  rw [requestsOf, log_events, filterMap_cons]
  cases event.madeRequest with
  | none | some => simp [requestsOf]

omit [Inhabited Value] in
theorem callbacksOf_log (s : Engine Key Value) :
  (s.log event).callbacksOf k = s.callbacksOf k ++ (event.callbackOf k).toList
  := by
  rw [callbacksOf, log_events, filterMap_cons]
  cases event.callbackOf k with
  | none | some => simp [callbacksOf]

end Engine

/-! ### The tasks -/

/-- What a move can do to the task of the rule `k`, and to what it was told. -/
inductive Moment.TaskChange (client : Client Key Value) (m m' : Moment Key Value) (k : Key) :
    Prop
  /-- The rule has no task after the move. -/
  | none (h : (m'.engine.ruleInfo client k).state.taskInfo = none)
      (hc : m'.engine.callbacksOf k = m.engine.callbacksOf k)
  /-- Nothing that is told to the task or by the task. -/
  | same (t t' : TaskInfo Key Value)
      (h : (m.engine.ruleInfo client k).state.taskInfo = some t)
      (h' : (m'.engine.ruleInfo client k).state.taskInfo = some t')
      (hhistory : t'.history = t.history)
      (hdiscovered : t'.discoveredDependencies = t.discoveredDependencies)
      (hreported : t'.reported = t.reported)
      (hc : m'.engine.callbacksOf k = m.engine.callbacksOf k)
  /-- The task is created. -/
  | created (h : (m.engine.ruleInfo client k).state = .needsToRun)
      (h' : (m'.engine.ruleInfo client k).state.taskInfo = some ⟨[], [], 0, [], [], false⟩)
      (hc : m'.engine.callbacksOf k = m.engine.callbacksOf k)
  /-- The task is called back. -/
  | calledBack (t : TaskInfo Key Value) (c : Callback Key Value)
      (h : (m.engine.ruleInfo client k).state.taskInfo = some t) (hr : t.reported = false)
      (h' : (m'.engine.ruleInfo client k).state.taskInfo
        = some { t with history := t.history ++ [c] })
      (hc : m'.engine.callbacksOf k = m.engine.callbacksOf k ++ [c])
  /-- The task reports. -/
  | reported (t : TaskInfo Key Value)
      (h : (m.engine.ruleInfo client k).state.taskInfo = some t) (hr : t.reported = false)
      (h' : (m'.engine.ruleInfo client k).state.taskInfo
        = some (t.report ((client.createTask k).finish t.history)))
      (hc : m'.engine.callbacksOf k = m.engine.callbacksOf k)

variable {m m' : Moment Key Value} {k : Key}

/-- A move that does nothing to a rule and to what its task was told. -/
theorem Moment.TaskChange.of_eq
    (h : (m'.engine.ruleInfo client k).state = (m.engine.ruleInfo client k).state)
    (hc : m'.engine.callbacksOf k = m.engine.callbacksOf k) :
  m.TaskChange client m' k
  := by
  cases ht : (m.engine.ruleInfo client k).state.taskInfo with
  | none => exact .none (by rw [h, ht]) hc
  | some t => exact .same t t ht (by rw [h, ht]) rfl rfl rfl hc

/-- A move that changes nothing about a task but what waits for it and what it waits for. -/
theorem Moment.TaskChange.of_modifyTaskInfo {j : Key}
    {f : TaskInfo Key Value → TaskInfo Key Value} (hhistory : ∀ t, (f t).history = t.history)
    (hdiscovered : ∀ t, (f t).discoveredDependencies = t.discoveredDependencies)
    (hreported : ∀ t, (f t).reported = t.reported)
    (h : (m'.engine.ruleInfo client k).state
      = ((m.engine.modifyTaskInfo client j f).ruleInfo client k).state)
    (hc : m'.engine.callbacksOf k = m.engine.callbacksOf k) :
  m.TaskChange client m' k
  := by
  by_cases hj : k = j
  · subst hj
    rw [modifyTaskInfo, ruleInfo_setState_self] at h
    cases ht : (m.engine.ruleInfo client k).state.taskInfo with
    | none =>
      refine .none ?_ hc
      cases hstate : (m.engine.ruleInfo client k).state <;> simp_all [taskInfo, mapTaskInfo]
    | some t =>
      exact .same t (f t) ht (by rw [h]; exact taskInfo_mapTaskInfo ht f)
        (hhistory t) (hdiscovered t) (hreported t) hc
  · rw [ruleInfo_modifyTaskInfo_ne _ hj] at h
    exact .of_eq h hc

variable {t : TaskInfo Key Value}

/-- A task that is waiting has not reported. -/
theorem Moment.Sound.reported_of_waiting (hs : m.Sound client)
    (h : (m.engine.ruleInfo client k).state.taskInfo = some t)
    (hw : ((m.ledger client).stage k).isWaiting = true) :
  t.reported = false
  := by
  have hwaiting := isInProgressWaiting_of_stage hw
  obtain hstate | hstate := taskInfo_eq_some.mp h
  · apply hs.balanced.reported k t.waitCount
    rw [Moment.ledger_stage, stage, hstate]
  · rw [RuleInfo.IsInProgressWaiting, hstate] at hwaiting
    cases hwaiting

variable [DecidableEq Value] in
theorem Move.taskChange (hs : m.Sound client) (h : Move client m m') (k : Key) :
  m.TaskChange client m' k
  := by
  cases h with
  | report event he =>
    refine .of_eq rfl ?_
    rw [callbacksOf_log]
    cases event with
    | callback _ _ => exact he.elim
    | _ => exact append_nil _
  | lookup j => exact .of_eq (by rw [ruleInfo_modifyRuleInfo_id]) rfl
  | store db h => exact .of_eq (by rw [h]) rfl
  | needsToRun j | doesNotNeedToRun j | startScanning j | upToDate j | deferOnScan q j
  | completeRule j | forceBuild j =>
    by_cases hj : k = j
    · subst hj
      exact .none (by simp [taskInfo]) rfl
    · refine .of_eq ?_ rfl
      simp [ruleInfo_modifyRuleInfo, ruleInfo_setState, hj]
  | createTask j h hrest =>
    have hcallbacks := callbacksOf_log k (.createTask j) (m.engine.modifyRuleInfo client j
      (fun r => (r.setState (.inProgressWaiting ⟨[], [], 0, [], [], false⟩)).setDependencies []))
    by_cases hj : k = j
    · subst hj
      refine .created h ?_ (hcallbacks.trans (append_nil _))
      rw [ruleInfo_log, ruleInfo_modifyRuleInfo_self]
      rfl
    · exact .of_eq (by simp [ruleInfo_modifyRuleInfo, hj])
        (hcallbacks.trans (append_nil _))
  | startCallback j t c h hstart hc hcall =>
    by_cases hj : k = j
    · subst hj
      have ht : (m.engine.ruleInfo client k).state.taskInfo = some t := by rw [h]; rfl
      refine .calledBack t c ht ?_ (by simp [taskInfo]) ?_
      · apply hs.reported_of_waiting ht
        exact hs.balanced.starting k hstart
      · rw [callbacksOf_log, callbackOf, if_pos rfl]
        rfl
    · refine .of_eq (by simp [ruleInfo_setState, hj]) ?_
      rw [callbacksOf_log, callbackOf, if_neg (Ne.symm hj)]
      exact append_nil _
  | request j call rest t hc hr h =>
    refine .of_modifyTaskInfo (j := j) (f := fun t => { t with waitCount := t.waitCount + 1 })
      (fun _ => rfl) (fun _ => rfl) (fun _ => rfl) ?_ ?_
    · rw [modifyTaskInfo_waiting client h]
      rfl
    · rw [callbacksOf_log]
      exact append_nil _
  | deferOnTask q input hq hi h =>
    exact .of_modifyTaskInfo (j := input) (f := fun t =>
      { t with deferredScanRequests := t.deferredScanRequests ++ [q] })
      (fun _ => rfl) (fun _ => rfl) (fun _ => rfl) rfl rfl
  | scanned q record hq hi hd h =>
    by_cases hj : k = q.ruleInfo
    · subst hj
      refine .none ?_ rfl
      rw [ruleInfo_setState_self]
      cases q.needsToRun <;> rfl
    · exact .of_eq (by simp [ruleInfo_setState, hj]) rfl
  | rebuilt q input record hq hi hc ho hn hb h hk =>
    by_cases hj : k = q.ruleInfo
    · subst hj
      exact .none (by simp [taskInfo]) rfl
    · exact .of_eq (by simp [ruleInfo_setState, hj]) rfl
  | pauseInput r record hr h =>
    by_cases hj : k = r.inputRuleInfo
    · subst hj
      exact .none (by simp [taskInfo]) rfl
    · exact .of_eq (by simp [ruleInfo_setState, hj]) rfl
  | recordAvailable r j hr hj h => exact .of_eq (by simp) rfl
  | recordPending r j hr hj h =>
    refine .of_modifyTaskInfo (j := r.inputRuleInfo) (f := fun t =>
      { t with requestedBy := t.requestedBy ++ [r] })
      (fun _ => rfl) (fun _ => rfl) (fun _ => rfl) ?_ rfl
    by_cases hk : k = r.inputRuleInfo
    · subst hk
      simp [modifyTaskInfo]
    · rw [ruleInfo_modifyTaskInfo_ne _ hk, ruleInfo_modifyTaskInfo_ne _ hk, state_recordDependency]
  | answer r rest j t c hrest hr hj ho hv h =>
    have hanswered (k : Key) (value : Option Value) :
        ((m.engine.setFinishedInputRequests rest).log (.answered r value)).callbacksOf k
          = m.engine.callbacksOf k := by
      rw [callbacksOf_log]
      exact append_nil _
    by_cases hk : k = j
    · subst hk
      refine .calledBack t c h ?_ ?_ ?_
      · apply hs.reported_of_waiting h
        exact hs.isWaiting (Moment.mem_finished_onTheirWay (by rw [hr]; simp) hj)
      · rw [ruleInfo_log, modifyTaskInfo, ruleInfo_setState_self,
          ruleInfo_log, ruleInfo_setFinishedInputRequests]
        exact taskInfo_mapTaskInfo h _
      · rw [callbacksOf_log, callbackOf, if_pos rfl]
        exact congrArg (· ++ [c]) (hanswered k _)
    · refine .of_eq ?_ ?_
      · rw [ruleInfo_log, ruleInfo_modifyTaskInfo_ne _ hk]
        rfl
      · rw [callbacksOf_log, callbackOf, if_neg (Ne.symm hk)]
        exact (append_nil _).trans (hanswered k _)
  | answerOrderOnly r rest j hrest hr hj ho =>
    refine .of_eq rfl ?_
    rw [callbacksOf_log]
    exact append_nil _
  | decrement r j t ha hc hj h =>
    exact .of_modifyTaskInfo (j := j) (f := fun t => { t with waitCount := t.waitCount - 1 })
      (fun _ => rfl) (fun _ => rfl) (fun _ => rfl) rfl rfl
  | compute j rest t hj hrest hf h =>
    by_cases hk : k = j
    · subst hk
      refine .calledBack t .inputsAvailable h ?_ (by simp [taskInfo]) ?_
      · apply hs.reported_of_waiting h
        exact hs.balanced.isWaiting_of_ready k (by simp [hj])
      · change (log _ _).callbacksOf k = _
        rw [callbacksOf_log, callbackOf, if_pos rfl]
        rfl
    · refine .of_eq (by simp [ruleInfo_setState, hk]) ?_
      change (log _ _).callbacksOf k = _
      rw [callbacksOf_log, callbackOf, if_neg (Ne.symm hk)]
      exact append_nil _
  | reportValue j t h hr c hc =>
    by_cases hj : k = j
    · subst hj
      subst hc
      exact .reported t (by rw [h]; rfl) hr (by simp [taskInfo]) rfl
    · exact .of_eq (by simp [ruleInfo_modifyRuleInfo, hj]) rfl
  | supplyPriorValue j r t hstuck h hb hr =>
    refine .of_modifyTaskInfo (j := j) (f := fun t =>
      { t with requestedBy := t.requestedBy.erase r })
      (fun _ => rfl) (fun _ => rfl) (fun _ => rfl) ?_ rfl
    rw [modifyTaskInfo_waiting client h]
    rfl
  | _ => exact .of_eq rfl rfl

/-! ### The way of the requests -/

/-- The requests of the task of a rule that are in the queue, the next one first. -/
def Moment.queued (k : Key) (m : Moment Key Value) : List (TaskInputRequest Key) :=
  (m.input.toList ++ m.engine.inputRequests).filter (ofTask k).holds

/-- The requests of the task of the rule `k` that are put aside until a rule is scanned. -/
def RuleState.paused (k : Key) : RuleState Key Value → Multiset (TaskInputRequest Key)
  | isScanning (some record) =>
      record.pausedInputRequests.filter (ofTask k).holds
  | _ => 0

/-- The requests of the task of a rule that are put aside. -/
def Moment.paused (k : Key) (m : Moment Key Value) : Multiset (TaskInputRequest Key) :=
  m.engine.sum (RuleState.paused k)

omit [Inhabited Value] in
theorem RuleState.paused_mapTaskInfo (k : Key) (state : RuleState Key Value)
    (f : TaskInfo Key Value → TaskInfo Key Value) :
  (state.mapTaskInfo f).paused k = state.paused k
  := by
  cases state <;> rfl

omit [Inhabited Value] in
theorem RuleState.paused_of_taskInfo {state : RuleState Key Value} (h : state.taskInfo = some t) :
  state.paused k = 0
  := by
  obtain rfl | rfl := taskInfo_eq_some.mp h
  · rfl
  · rfl

omit [Inhabited Value] in
theorem RuleInfo.paused_of_not_isScanned {epoch : ℕ} {r : RuleInfo Key Value}
    (hs : ¬ r.IsScanned epoch) (hn : ¬ r.IsScanning) :
  r.state.paused k = 0
  := by
  obtain h | h := state_of_not_isScanned hs hn
  · rw [h]
    rfl
  · rw [h]
    rfl

namespace Engine

variable (client) in
/-- A change of a rule that keeps what is put aside with it. -/
theorem paused_modifyRuleInfo (k : Key) (s : Engine Key Value) (j : Key)
    (f : RuleInfo Key Value → RuleInfo Key Value)
    (hf : (f (s.ruleInfo client j)).state.paused k = (s.ruleInfo client j).state.paused k) :
  (s.modifyRuleInfo client j f).sum (paused k) = s.sum (paused k)
  := by
  have h := sum_modifyRuleInfo client (paused k) rfl s j f
  rw [hf] at h
  exact add_right_cancel h

variable (client) in
theorem paused_modifyTaskInfo (k : Key) (s : Engine Key Value) (j : Key)
    (f : TaskInfo Key Value → TaskInfo Key Value) :
  (s.modifyTaskInfo client j f).sum (paused k) = s.sum (paused k)
  := paused_modifyRuleInfo client k s j _ (paused_mapTaskInfo k _ f)

variable (client) in
theorem paused_recordDependency (k : Key) (s : Engine Key Value) (j : Key)
    (r : TaskInputRequest Key) :
  (s.recordDependency client j r).sum (paused k) = s.sum (paused k)
  := paused_modifyRuleInfo client k s j _ rfl

/-- What is put aside with a rule whose scan ends. -/
theorem paused_setState_of_record (k : Key) {s : Engine Key Value} {j : Key}
    {record : RuleScanRecord Key}
    (h : (s.ruleInfo client j).state = .isScanning (some record)) (state : RuleState Key Value) :
  (s.setState client j state).sum (paused k)
      + record.pausedInputRequests.filter (ofTask k).holds
    = s.sum (paused k) + state.paused k
  := by
  have hsum := sum_modifyRuleInfo client (paused k) rfl s j (RuleInfo.setState state)
  rw [h] at hsum
  exact hsum

omit [Inhabited Value] in
/-- Nothing is put aside if no request is kept with a rule. -/
theorem paused_eq_zero {s : Engine Key Value} (h : s.sum (countRequests (.ofTask k)) = 0) :
  s.sum (paused k) = 0
  := by
  apply sum_eq_zero
  intro x hx
  obtain ⟨⟨j, r⟩, hr, rfl⟩ := mem_map.mp hx
  have hcount : r.state.countRequests (.ofTask k) = 0 :=
    sum_eq_zero_iff.mp h _ (mem_map.mpr ⟨⟨j, r⟩, hr, rfl⟩)
  rw [countRequests, countP_eq_zero] at hcount
  change r.state.paused k = 0
  cases hstate : r.state with
  | isScanning record =>
    cases record with
    | none => rfl
    | some record =>
      rw [hstate] at hcount
      rw [paused, Multiset.coe_eq_zero, filter_eq_nil_iff]
      exact hcount
  | _ => rfl

end Engine

/-- The dependencies of a rule whose task is at work stay as they are. -/
def Moment.KeepsDependencies (client : Client Key Value) (m m' : Moment Key Value) (k : Key) :
    Prop :=
  (m.engine.ruleInfo client k).IsInProgress → (m'.engine.ruleInfo client k).IsInProgress →
    (m'.engine.ruleInfo client k).result.dependencies
      = (m.engine.ruleInfo client k).result.dependencies

variable [DecidableEq Value]

/-- The dependencies of a rule are kept unless the request in hand is recorded. -/
theorem Move.keepsDependencies (h : Move client m m')
    (hinput : m.input = none ∨ m'.input = m.input) (k : Key) :
  m.KeepsDependencies client m' k
  := by
  intro hk hk'
  obtain ⟨t, ht⟩ := isInProgress_iff.mp hk
  obtain ⟨t', ht'⟩ := isInProgress_iff.mp hk'
  cases h.resultChange k with
  | same h => rw [h]
  | prepared hs hn h => exact absurd (hk.isScanned _) hs
  | created hstate h | upToDate hstate hstate' h =>
    rw [hstate] at ht
    cases ht
  | recorded r hr hk h hnone =>
    obtain hinput | hinput := hinput
    · rw [hinput] at hr
      cases hr
    · rw [← hinput, hnone] at hr
      cases hr
  | reported t hstate hstate' h =>
    rw [h, setValue]
    split_ifs
    · rfl
    · rfl
  | completed rest t hk ht hstate' h =>
    rw [hstate'] at ht'
    cases ht'

/-- What a move can do to the requests of the task of the rule `k`. -/
inductive Moment.RequestChange (client : Client Key Value) (m m' : Moment Key Value) (k : Key) :
    Prop
  /-- Nothing. -/
  | same (hd : m.KeepsDependencies client m' k)
      (hr : m'.engine.requestsOf k = m.engine.requestsOf k)
      (hq : m'.queued k = m.queued k) (hp : m'.paused k = m.paused k)
  /-- A request is made. -/
  | requested (r : TaskInputRequest Key) (hk : (m.engine.ruleInfo client k).IsInProgress)
      (hd : m.KeepsDependencies client m' k)
      (hr : m'.engine.requestsOf k = m.engine.requestsOf k ++ [r])
      (hq : m'.queued k = m.queued k ++ [r]) (hp : m'.paused k = m.paused k)
  /-- The input of a request is recorded as a dependency. -/
  | recorded (r : TaskInputRequest Key)
      (hd : (m'.engine.ruleInfo client k).result.dependencies
        = (m.engine.ruleInfo client k).result.dependencies ++ [r.dependency])
      (hr : m'.engine.requestsOf k = m.engine.requestsOf k)
      (hq : m.queued k = r :: m'.queued k) (hp : m'.paused k = m.paused k)
  /-- A request is put aside. -/
  | paused (r : TaskInputRequest Key) (record : RuleScanRecord Key)
      (hscan : (m.engine.ruleInfo client r.inputRuleInfo).state = .isScanning (some record))
      (hd : m.KeepsDependencies client m' k)
      (hr : m'.engine.requestsOf k = m.engine.requestsOf k)
      (hq : m.queued k = r :: m'.queued k) (hp : m'.paused k = r ::ₘ m.paused k)
  /-- Requests that were put aside go back to the queue. -/
  | resumed (requests : List (TaskInputRequest Key)) (hd : m.KeepsDependencies client m' k)
      (hr : m'.engine.requestsOf k = m.engine.requestsOf k)
      (hq : m'.queued k = m.queued k ++ requests) (hp : m'.paused k + requests = m.paused k)

theorem Move.requestChange (h : Move client m m') (k : Key) :
  m.RequestChange client m' k
  := by
  have hkeeps (hinput : m.input = none ∨ m'.input = m.input) :
      m.KeepsDependencies client m' k := h.keepsDependencies hinput k
  cases h with
  | report event he =>
    refine .same (hkeeps (.inr rfl)) ?_ rfl rfl
    rw [requestsOf_log]
    cases event with
    | requested _ => exact he.elim
    | _ => exact append_nil _
  | lookup j =>
    refine .same (hkeeps (Or.inr rfl)) rfl rfl ?_
    exact paused_modifyRuleInfo client k m.engine j id rfl
  | needsToRun j hm hs hn hu hc | doesNotNeedToRun j hm hs hn hu hd =>
    refine .same (hkeeps (.inr rfl)) rfl rfl ?_
    exact paused_modifyRuleInfo client k m.engine j _
      (paused_of_not_isScanned hs hn).symm
  | startScanning j b hm hs hn hb hd hu hc =>
    refine .same (hkeeps (.inr rfl)) rfl rfl ?_
    exact paused_modifyRuleInfo client k m.engine j
      (fun r => r.prepared.setState (.isScanning (some ⟨[], []⟩)))
      (paused_of_not_isScanned hs hn).symm
  | upToDate j h | deferOnScan q j record hq hi h =>
    refine .same (hkeeps (.inr rfl)) rfl rfl ?_
    exact paused_modifyRuleInfo client k m.engine j _ (by rw [h]; rfl)
  | createTask j h hrest | startCallback j t c h hs hc hcall =>
    refine .same (hkeeps (Or.inr rfl)) ?_ rfl ?_
    · rw [requestsOf_log]
      exact append_nil _
    · exact paused_modifyRuleInfo client k m.engine j _ (by rw [h]; rfl)
  | request j call rest t hc hr h =>
    have hpaused := paused_modifyRuleInfo client k m.engine j (setState
      (.inProgressWaiting { t with waitCount := t.waitCount + 1 })) (by rw [h]; rfl)
    have htask : (call.toRequest j).taskInfo = some j := by cases call <;> rfl
    by_cases hj : k = j
    · subst hj
      refine .requested (call.toRequest k) ?_ (hkeeps (.inr rfl)) ?_ ?_ hpaused
      · exact isInProgress_iff.mpr ⟨t, by rw [h]; rfl⟩
      · simp [madeRequest, ofTask, htask, requestsOf]
      · simp [Moment.queued, ofTask, htask]
    · refine .same (hkeeps (.inr rfl)) ?_ ?_ hpaused
      · simp [madeRequest, ofTask, htask, requestsOf, Ne.symm hj]
      · simp [Moment.queued, ofTask, htask, Ne.symm hj]
  | deferOnTask q input | decrement r input =>
    refine .same (hkeeps (.inr rfl)) rfl rfl ?_
    exact paused_modifyTaskInfo client k m.engine input _
  | scanned q record hq hi hd h =>
    refine .resumed (record.pausedInputRequests.filter (ofTask k).holds)
      (hkeeps (.inr rfl)) rfl (by simp [Moment.queued]) ?_
    refine (paused_setState_of_record k h _).trans ?_
    cases q.needsToRun <;> exact add_zero _
  | rebuilt q input record hq hi hc ho hn hb h hk | forceBuild j record hstuck h =>
    refine .resumed (record.pausedInputRequests.filter (ofTask k).holds)
      (hkeeps (.inr rfl)) rfl (by simp [Moment.queued]) ?_
    exact (paused_setState_of_record k h _).trans (add_zero _)
  | takeInput r rest h hr =>
    exact .same (hkeeps (.inl h)) rfl (by simp [Moment.queued, h, hr]) rfl
  | pauseInput r record hr h =>
    have hrecord := paused_setState_of_record k h (.isScanning (some
      { record with pausedInputRequests := record.pausedInputRequests ++ [r] }))
    simp only [RuleState.paused, filter_append] at hrecord
    have hsame (state : RuleState Key Value) :
        ((m.engine.setState client r.inputRuleInfo state).ruleInfo client k).result.dependencies
          = (m.engine.ruleInfo client k).result.dependencies :=
      congr_modifyRuleInfo (·.result.dependencies) m.engine
        r.inputRuleInfo (setState state) rfl k
    by_cases hk : r.taskInfo = some k
    · refine .paused r record h (fun _ _ => hsame _) rfl ?_ ?_
      · simp [Moment.queued, hr, ofTask, hk]
      · have hr' : [r].filter (ofTask k).holds = [r] := by
          simp [ofTask, hk]
        rw [hr', ← Multiset.coe_add, ← add_assoc, add_right_comm] at hrecord
        rw [Moment.paused, add_right_cancel hrecord, add_comm]
        rfl
    · refine .same (fun _ _ => hsame _) rfl ?_ ?_
      · simp [Moment.queued, hr, ofTask, hk]
      · have hr' : [r].filter (ofTask k).holds = [] := by
          simp [ofTask, hk]
        rw [hr', append_nil] at hrecord
        exact add_right_cancel hrecord
  | dropInput r hr ht h =>
    refine .same (fun _ _ => rfl) rfl ?_ rfl
    simp [Moment.queued, hr, ofTask, ht]
  | recordAvailable r j hr hj h | recordPending r j hr hj h =>
    have hpaused := paused_recordDependency client k m.engine j r
    by_cases hk : k = j
    · subst hk
      refine .recorded r ?_ rfl ?_ ?_
      · simp [recordDependency, TaskInputRequest.dependency]
      · simp [Moment.queued, hr, ofTask, hj]
      · first | exact hpaused | exact (paused_modifyTaskInfo client k _ _ _).trans hpaused
    · refine .same ?_ rfl ?_ ?_
      · intro _ _
        simp [recordDependency, ruleInfo_modifyRuleInfo, hk]
      · simp [Moment.queued, hr, ofTask, hj, Ne.symm hk]
      · first | exact hpaused | exact (paused_modifyTaskInfo client k _ _ _).trans hpaused
  | answer r rest j t c hrest hr hj ho hv h =>
    refine .same (hkeeps (.inr rfl)) ?_ rfl (paused_modifyTaskInfo client k _ j _)
    rw [requestsOf_log]
    refine (append_nil _).trans ?_
    exact (requestsOf_log k (.answered r _) _).trans (append_nil _)
  | answerOrderOnly r rest j hrest hr hj ho =>
    refine .same (hkeeps (Or.inr rfl)) ?_ rfl rfl
    rw [requestsOf_log]
    exact append_nil _
  | compute j rest t hj hrest hf h =>
    refine .same (hkeeps (Or.inr rfl)) ?_ rfl ?_
    · change (log _ _).requestsOf k = _
      rw [requestsOf_log]
      exact append_nil _
    · exact paused_modifyRuleInfo client k (m.engine.setReadyTaskInfos rest) j _
        (RuleState.paused_of_taskInfo h).symm
  | reportValue j t h hr c hc =>
    refine .same (hkeeps (.inr rfl)) rfl rfl ?_
    exact paused_modifyRuleInfo client k m.engine j (fun r =>
      (r.setValue m.engine.currentEpoch c.value c.forceChange).setState
        (.inProgressComputing (t.report c))) (by rw [h]; rfl)
  | completeRule j rest t hj hd h =>
    refine .same (hkeeps (.inr rfl)) rfl rfl ?_
    exact paused_modifyRuleInfo client k (m.engine.setFinishedTaskInfos rest) j _
      (RuleState.paused_of_taskInfo h).symm
  | requestDiscovered d rest hd =>
    refine .same (hkeeps (.inr rfl)) rfl ?_ rfl
    simp [Moment.queued, dummyRequest, ofTask]
  | supplyPriorValue j r t hstuck h hb hr =>
    refine .same (hkeeps (.inr rfl)) rfl rfl ?_
    exact paused_modifyRuleInfo client k (m.engine.addFinishedInputRequests _) j _
      (by rw [ruleInfo_addFinishedInputRequests, h]; rfl)
  | _ => exact .same (hkeeps (.inr rfl)) rfl rfl rfl

end LLBuild

import LLBuild.Core.Steps
import Mathlib.Data.List.Count

/-!
# The accounting of requests

A request of a task is on its way until it is answered: it is in the hand of the engine,
in the queue of input requests, paused in a scan record, held by the task of its input, or
on the stack of finished requests.  No move of the engine loses a request or makes a second
one out of it, so the requests on their way and the ones that were answered together are
the ones that were made.
-/

namespace LLBuild

open List

open Engine Moment RuleState

variable {Key Value : Type}

/-- The input requests that are kept with a rule in the state. -/
def RuleState.requests : RuleState Key Value → List (TaskInputRequest Key)
  | isScanning (some record) => record.pausedInputRequests
  | inProgressWaiting t => t.requestedBy
  | inProgressComputing t => t.requestedBy
  | _ => []

theorem RuleState.requests_of_taskInfo {state : RuleState Key Value} {t : TaskInfo Key Value}
    (h : state.taskInfo = some t) :
  state.requests = t.requestedBy
  := by
  obtain rfl | rfl := taskInfo_eq_some.mp h
  · rfl
  · rfl

/-- The request an event reports to be made. -/
def Event.madeRequest : Event Key Value → Option (TaskInputRequest Key)
  | requested r => some r
  | _ => none

/-- The request an event reports to be answered. -/
def Event.answeredRequest : Event Key Value → Option (TaskInputRequest Key)
  | answered r _ => some r
  | _ => none

/-- A property of the requests made by tasks that does not depend on whether the use of a
prior value is forced. -/
structure RequestProperty (Key : Type) where
  holds : TaskInputRequest Key → Bool
  dummy : ∀ r, r.taskInfo = none → holds r = false
  forced : ∀ r b, holds { r with forcePriorValue := b } = holds r

variable (p : RequestProperty Key)

/-- The number of requests with a property that are kept with a rule in the state. -/
def RuleState.countRequests (state : RuleState Key Value) : ℕ :=
  state.requests.countP p.holds

namespace Engine

/-- The sum of what `g` assigns to the states of the rules. -/
def sum {M : Type} [AddCommMonoid M] (g : RuleState Key Value → M) (s : Engine Key Value) : M :=
  s.ruleInfos.total (fun r => g r.state)

/-- The number of requests with a property that were made during the build. -/
def made (s : Engine Key Value) : ℕ :=
  (s.events.filterMap Event.madeRequest).countP p.holds

/-- The number of requests with a property that were answered during the build. -/
def answered (s : Engine Key Value) : ℕ :=
  (s.events.filterMap Event.answeredRequest).countP p.holds

end Engine

/-- The number of requests with a property that are on their way. -/
def Moment.onTheirWay (m : Moment Key Value) : ℕ :=
  m.input.toList.countP p.holds + m.engine.inputRequests.countP p.holds
    + m.engine.finishedInputRequests.countP p.holds + m.engine.sum (countRequests p)

theorem RuleInfo.requests_of_not_isScanned {epoch : ℕ} {r : RuleInfo Key Value}
    (hs : ¬ r.IsScanned epoch) (hn : ¬ r.IsScanning) :
  r.state.requests = []
  := by
  obtain h | h := RuleInfo.state_of_not_isScanned hs hn <;> rw [h] <;> rfl

namespace Engine

section Sum

variable {M : Type} [AddCommMonoid M] (g : RuleState Key Value → M) (s : Engine Key Value)

@[simp]
theorem sum_log (event : Event Key Value) :
  (s.log event).sum g = s.sum g
  := rfl

variable (requests : List (TaskInputRequest Key))

@[simp]
theorem sum_setInputRequests :
  (s.setInputRequests requests).sum g = s.sum g
  := rfl

@[simp]
theorem sum_addInputRequests :
  (s.addInputRequests requests).sum g = s.sum g
  := rfl

@[simp]
theorem sum_setFinishedInputRequests :
  (s.setFinishedInputRequests requests).sum g = s.sum g
  := rfl

@[simp]
theorem sum_addFinishedInputRequests :
  (s.addFinishedInputRequests requests).sum g = s.sum g
  := rfl

@[simp]
theorem sum_addRuleInfosToScan (requests : List (RuleScanRequest Key)) :
  (s.addRuleInfosToScan requests).sum g = s.sum g
  := rfl

@[simp]
theorem sum_setFinishedTaskInfos (tasks : List Key) :
  (s.setFinishedTaskInfos tasks).sum g = s.sum g
  := rfl

@[simp]
theorem sum_wakeUp (t : TaskInfo Key Value) :
  (s.wakeUp t).sum g = s.sum g
  := rfl

end Sum

end Engine

/-- A move that only changes what the rules hold. -/
theorem Moment.conservation_of_held {p : RequestProperty Key} {m m' : Moment Key Value}
    (hheld : m'.engine.sum (countRequests p) = m.engine.sum (countRequests p))
    (hinput : m'.input = m.input := by rfl)
    (hrequests : m'.engine.inputRequests = m.engine.inputRequests := by rfl)
    (hfinished : m'.engine.finishedInputRequests = m.engine.finishedInputRequests := by rfl)
    (hmade : m'.engine.made p = m.engine.made p := by rfl)
    (hanswered : m'.engine.answered p = m.engine.answered p := by rfl) :
  m'.onTheirWay p + m'.engine.answered p + m.engine.made p
    = m.onTheirWay p + m.engine.answered p + m'.engine.made p
  := by
  simp only [onTheirWay, hheld, hinput, hrequests, hfinished, hmade, hanswered]

variable [LinearOrder Key] [Inhabited Value]
variable {client : Client Key Value}

namespace Engine

variable (client) in
/-- A change of a rule puts its share in the place of the share it had. -/
theorem sum_modifyRuleInfo {M : Type} [AddCommMonoid M] (g : RuleState Key Value → M)
    (hg : g .incomplete = 0) (s : Engine Key Value) (k : Key)
    (f : RuleInfo Key Value → RuleInfo Key Value) :
  (s.modifyRuleInfo client k f).sum g + g (s.ruleInfo client k).state
    = s.sum g + g (f (s.ruleInfo client k)).state
  := by
  have h := Table.total_insert (fun r : RuleInfo Key Value => g r.state) s.ruleInfos k
    (f (s.ruleInfo client k))
  have hold : (s.ruleInfos.lookup k).elim 0 (g ·.state)
      = g (s.ruleInfo client k).state := by
    rw [ruleInfo]
    cases s.ruleInfos.lookup k with
    | none => exact hg.symm
    | some r => rfl
  rw [hold] at h
  exact h

variable (p : RequestProperty Key)

variable (client) in
theorem held_modifyRuleInfo (s : Engine Key Value) (k : Key)
    (f : RuleInfo Key Value → RuleInfo Key Value) :
  (s.modifyRuleInfo client k f).sum (countRequests p)
      + (s.ruleInfo client k).state.requests.countP p.holds
    = s.sum (countRequests p) + (f (s.ruleInfo client k)).state.requests.countP p.holds
  := sum_modifyRuleInfo client (countRequests p) rfl s k f

variable (client) in
theorem held_setState (s : Engine Key Value) (k : Key) (state : RuleState Key Value) :
  (s.setState client k state).sum (countRequests p)
      + (s.ruleInfo client k).state.requests.countP p.holds
    = s.sum (countRequests p) + state.requests.countP p.holds
  := held_modifyRuleInfo client p s k (RuleInfo.setState state)

variable (client) in
/-- A change of a rule that leaves its requests as they are. -/
theorem held_modifyRuleInfo_eq (s : Engine Key Value) (k : Key)
    (f : RuleInfo Key Value → RuleInfo Key Value)
    (hf : (f (s.ruleInfo client k)).state.requests = (s.ruleInfo client k).state.requests) :
  (s.modifyRuleInfo client k f).sum (countRequests p) = s.sum (countRequests p)
  := by
  have h := held_modifyRuleInfo client p s k f
  rw [hf] at h
  omega

variable (client) in
/-- A change of a task that leaves the requests it holds as they are. -/
theorem held_modifyTaskInfo_eq (s : Engine Key Value) (k : Key)
    (f : TaskInfo Key Value → TaskInfo Key Value) (hf : ∀ t, (f t).requestedBy = t.requestedBy) :
  (s.modifyTaskInfo client k f).sum (countRequests p) = s.sum (countRequests p)
  := by
  apply held_modifyRuleInfo_eq
  rw [RuleInfo.setState_state]
  cases (s.ruleInfo client k).state <;> simp [mapTaskInfo, requests, hf]

variable (client) in
/-- A request that is held by the task of its input. -/
theorem held_addRequestedBy (s : Engine Key Value) (k : Key)
    (r : TaskInputRequest Key) (h : (s.ruleInfo client k).IsInProgress) :
  (s.modifyTaskInfo client k (fun t => { t with requestedBy := t.requestedBy ++ [r] })).sum
      (countRequests p)
    = s.sum (countRequests p) + [r].countP p.holds
  := by
  have hheld := held_setState client p s k
    ((s.ruleInfo client k).state.mapTaskInfo (fun t =>
      { t with requestedBy := t.requestedBy ++ [r] }))
  obtain ⟨t, ht⟩ := RuleInfo.taskInfo_of_isInProgress h
  rw [requests_of_taskInfo ht, requests_of_taskInfo
    (taskInfo_mapTaskInfo ht _), countP_append] at hheld
  rw [modifyTaskInfo]
  omega

variable (client) in
@[simp]
theorem held_recordDependency (s : Engine Key Value) (k : Key) (r : TaskInputRequest Key) :
  (s.recordDependency client k r).sum (countRequests p)
    = s.sum (countRequests p)
  := held_modifyRuleInfo_eq client p s k _ rfl

end Engine

variable [DecidableEq Value]

/-- No request is lost or made twice. -/
theorem Move.conservation {m m' : Moment Key Value} (h : Move client m m')
    (p : RequestProperty Key) :
  m'.onTheirWay p + m'.engine.answered p + m.engine.made p
    = m.onTheirWay p + m.engine.answered p + m'.engine.made p
  := by
  cases h with
  | report event he =>
    cases event <;> first | exact he.elim | rfl
  | lookup k =>
    refine conservation_of_held ?_
    exact held_modifyRuleInfo_eq client p m.engine k id rfl
  | needsToRun k hm hs hn | doesNotNeedToRun k hm hs hn =>
    refine conservation_of_held (held_modifyRuleInfo_eq client p m.engine k _ ?_)
    exact (RuleInfo.requests_of_not_isScanned hs hn).symm
  | startScanning k b hm hs hn =>
    refine conservation_of_held ((sum_addRuleInfosToScan _ _ _).trans
      (held_modifyRuleInfo_eq client p m.engine k _ ?_))
    exact (RuleInfo.requests_of_not_isScanned hs hn).symm
  | upToDate k h | createTask k h | startCallback k t c h | deferOnScan q k record hq hi h =>
    refine conservation_of_held (held_modifyRuleInfo_eq client p m.engine k _ ?_)
    rw [h]
    rfl
  | reportValue k t h =>
    refine conservation_of_held ((sum_setFinishedTaskInfos _ _ _).trans
      (held_modifyRuleInfo_eq client p m.engine k _ ?_))
    rw [h]
    rfl
  | request k call rest t hc hr h =>
    have hheld := held_setState client p m.engine k
      (.inProgressWaiting { t with waitCount := t.waitCount + 1 })
    simp [h, requests] at hheld
    simp [onTheirWay, made, answered, Event.madeRequest,
      Event.answeredRequest, filterMap_cons, countP_cons]
    omega
  | deferOnTask q input hq hi h | decrement r input t ha hc hk h =>
    refine conservation_of_held ?_
    exact held_modifyTaskInfo_eq client p m.engine input _ fun t => rfl
  | scanned q record hq hi hd h =>
    have hheld := held_setState client p
      ((m.engine.addRuleInfosToScan record.deferredScanRequests).addInputRequests
          record.pausedInputRequests) q.ruleInfo
            (if q.needsToRun then .needsToRun else .doesNotNeedToRun)
    rw [apply_ite requests] at hheld
    simp [h, requests] at hheld
    simp [onTheirWay, made, answered]
    omega
  | rebuilt q input record hq hi hc ho hn hb h =>
    have hheld := held_setState client p
      ((m.engine.addRuleInfosToScan record.deferredScanRequests).addInputRequests
          record.pausedInputRequests) q.ruleInfo .needsToRun
    simp [h, requests] at hheld
    simp [onTheirWay, made, answered]
    omega
  | takeInput r rest h hr =>
    simp [onTheirWay, made, answered, h, hr, countP_cons]
    omega
  | pauseInput r record hr h =>
    have hheld := held_setState client p m.engine r.inputRuleInfo
      (.isScanning (some { record with pausedInputRequests := record.pausedInputRequests ++ [r] }))
    simp [h, requests] at hheld
    simp [onTheirWay, made, answered, hr]
    omega
  | dropInput r hr ht h =>
    simp [onTheirWay, hr, p.dummy r ht]
  | recordAvailable r k hr ht h =>
    simp [onTheirWay, made, answered, hr, countP_cons]
    omega
  | recordPending r k hr ht h =>
    have hheld := held_addRequestedBy client p (m.engine.recordDependency client k r)
      r.inputRuleInfo r (by
        simpa only [RuleInfo.IsInProgress, RuleInfo.IsInProgressWaiting,
          RuleInfo.IsInProgressComputing, state_recordDependency] using h)
    simp [onTheirWay, made, answered, hr, hheld]
    omega
  | answer r rest k t c hrest hr hk ho hv h =>
    have hheld := held_modifyTaskInfo_eq client p
      ((m.engine.setFinishedInputRequests rest).log (.answered r
        (some (m.engine.ruleInfo client r.inputRuleInfo).result.value))) k
      (fun t => { t with history := t.history ++ [c] }) (fun t => rfl)
    simp [onTheirWay, made, answered, hheld, hr, Event.madeRequest,
      Event.answeredRequest, filterMap_cons, countP_cons]
    omega
  | answerOrderOnly r rest k hrest hr hk ho =>
    simp [onTheirWay, made, answered, hr, Event.madeRequest,
      Event.answeredRequest, filterMap_cons, countP_cons]
    omega
  | compute k rest t hk hrest hf h =>
    refine conservation_of_held
      (held_modifyRuleInfo_eq client p (m.engine.setReadyTaskInfos rest) k _ ?_)
    exact (requests_of_taskInfo h).symm
  | completeRule k rest t hk hd h =>
    have hheld := held_modifyRuleInfo client p (m.engine.setFinishedTaskInfos rest) k
      (fun r => (r.setComplete m.engine.currentEpoch).setDependencies
        (r.result.dependencies ++ t.discoveredDependencies))
    rw [ruleInfo_setFinishedTaskInfos, requests_of_taskInfo h] at hheld
    simp [requests] at hheld
    simp [onTheirWay, made, answered]
    omega
  | requestDiscovered d rest hd =>
    have hdummy := p.dummy (dummyRequest d.key d.orderOnly d.singleUse) rfl
    simp [onTheirWay, made, answered, hdummy]
  | forceBuild k record hstuck h =>
    have hheld := held_modifyRuleInfo client p
      ((m.engine.addRuleInfosToScan record.deferredScanRequests).addInputRequests
        record.pausedInputRequests) k (fun r => (r.setState .needsToRun).setWasForced true)
    simp [h, requests] at hheld
    simp [onTheirWay, made, answered]
    omega
  | supplyPriorValue k r t hstuck h hb hr =>
    have hheld := held_setState client p
      (m.engine.addFinishedInputRequests [{ r with forcePriorValue := true }]) k
      (.inProgressWaiting { t with requestedBy := t.requestedBy.erase r })
    simp [h, requests] at hheld
    have herase := (perm_cons_erase hr).countP_eq p.holds
    simp only [countP_cons] at herase
    simp [onTheirWay, made, answered, countP_cons, p.forced]
    omega
  | _ => rfl

end LLBuild

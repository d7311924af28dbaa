import LLBuild.Core.Runs

/-!
# The results of the rules

What a move does to the result of a rule: a result is touched when the scan of the rule
begins, when its task is created, records a dependency or reports, and when the rule is
complete.
-/

namespace LLBuild

open RuleInfo

open Engine

variable {Key Value : Type} [LinearOrder Key] [DecidableEq Value] [Inhabited Value]
variable {client : Client Key Value}

omit [DecidableEq Value] in
/-- What is the same for each rule still is if one rule is changed in a way that keeps it. -/
theorem Engine.congr_modifyRuleInfo {α : Type} (φ : RuleInfo Key Value → α)
    (s : Engine Key Value) (k : Key) (f : RuleInfo Key Value → RuleInfo Key Value)
    (h : φ (f (s.ruleInfo client k)) = φ (s.ruleInfo client k)) (k' : Key) :
  φ ((s.modifyRuleInfo client k f).ruleInfo client k') = φ (s.ruleInfo client k')
  := by
  rw [ruleInfo_modifyRuleInfo]
  split_ifs with hk
  · rw [hk, h]
  · rfl

omit [DecidableEq Value] in
@[simp]
theorem Engine.result_modifyTaskInfo (s : Engine Key Value) (k k' : Key)
    (f : TaskInfo Key Value → TaskInfo Key Value) :
  ((s.modifyTaskInfo client k f).ruleInfo client k').result = (s.ruleInfo client k').result
  := congr_modifyRuleInfo result s k _ rfl k'

/-- What a move can do to the result of the rule `k`. -/
inductive Moment.ResultChange (client : Client Key Value) (m m' : Moment Key Value) (k : Key) :
    Prop
  /-- Nothing. -/
  | same (h : (m'.engine.ruleInfo client k).result = (m.engine.ruleInfo client k).result)
  /-- The scan of the rule begins. -/
  | prepared (hs : ¬ (m.engine.ruleInfo client k).IsScanned m.engine.currentEpoch)
      (hn : ¬ (m.engine.ruleInfo client k).IsScanning)
      (h : (m'.engine.ruleInfo client k).result
        = (m.engine.ruleInfo client k).prepared.result)
  /-- The task of the rule is created. -/
  | created (hstate : (m.engine.ruleInfo client k).state = .needsToRun)
      (h : (m'.engine.ruleInfo client k).result
        = ((m.engine.ruleInfo client k).setDependencies []).result)
  /-- The task of the rule records a dependency. -/
  | recorded (r : TaskInputRequest Key) (hr : m.input = some r) (hk : r.taskInfo = some k)
      (h : (m'.engine.ruleInfo client k).result
        = ((m.engine.ruleInfo client k).setDependencies
          ((m.engine.ruleInfo client k).result.dependencies
            ++ [⟨r.inputRuleInfo, r.orderOnly, r.singleUse⟩])).result)
      (hinput : m'.input = none)
  /-- The task of the rule reports. -/
  | reported (t : TaskInfo Key Value)
      (hstate : (m.engine.ruleInfo client k).state = .inProgressComputing t)
      (hstate' : (m'.engine.ruleInfo client k).state
        = .inProgressComputing (t.report ((client.createTask k).finish t.history)))
      (h : (m'.engine.ruleInfo client k).result = ((m.engine.ruleInfo client k).setValue
        m.engine.currentEpoch ((client.createTask k).finish t.history).value
          ((client.createTask k).finish t.history).forceChange).result)
  /-- The rule is up to date. -/
  | upToDate (hstate : (m.engine.ruleInfo client k).state = .doesNotNeedToRun)
      (hstate' : (m'.engine.ruleInfo client k).state = .complete)
      (h : (m'.engine.ruleInfo client k).result
        = ((m.engine.ruleInfo client k).setComplete m.engine.currentEpoch).result)
  /-- The rule is complete. -/
  | completed (rest : List Key) (t : TaskInfo Key Value)
      (hk : m.engine.finishedTaskInfos = k :: rest)
      (ht : (m.engine.ruleInfo client k).state.taskInfo = some t)
      (hstate' : (m'.engine.ruleInfo client k).state = .complete)
      (h : (m'.engine.ruleInfo client k).result
        = (((m.engine.ruleInfo client k).setComplete m.engine.currentEpoch).setDependencies
          ((m.engine.ruleInfo client k).result.dependencies ++ t.discoveredDependencies)).result)

theorem Move.resultChange {m m' : Moment Key Value} (h : Move client m m') (k : Key) :
  m.ResultChange client m' k
  := by
  have hsame (s : Engine Key Value) (j : Key) (f : RuleInfo Key Value → RuleInfo Key Value)
      (hf : ∀ r, (f r).result = r.result) :
      ((s.modifyRuleInfo client j f).ruleInfo client k).result = (s.ruleInfo client k).result :=
    congr_modifyRuleInfo result s j f (hf _) k
  have hne (s : Engine Key Value) (j : Key) (f : RuleInfo Key Value → RuleInfo Key Value)
      (hj : k ≠ j) :
      ((s.modifyRuleInfo client j f).ruleInfo client k).result
        = (s.ruleInfo client k).result := by
    rw [ruleInfo_modifyRuleInfo, if_neg hj]
  cases h with
  | lookup j => exact .same (hsame m.engine j id (fun _ => rfl))
  | store db h => exact .same (by rw [h])
  | needsToRun j hm hs hn hu | doesNotNeedToRun j hm hs hn hu hd =>
    by_cases hj : k = j
    · subst hj
      exact .prepared hs hn (by simp)
    · exact .same (hne m.engine j _ hj)
  | startScanning j b hm hs hn hb hd hu hc =>
    by_cases hj : k = j
    · subst hj
      exact .prepared hs hn (by simp)
    · exact .same (by simp [ruleInfo_modifyRuleInfo, hj])
  | upToDate j h =>
    by_cases hj : k = j
    · subst hj
      exact .upToDate h (by simp) (by simp)
    · exact .same (hne m.engine j _ hj)
  | createTask j h hrest =>
    by_cases hj : k = j
    · subst hj
      exact .created h (by simp only [ruleInfo_log, ruleInfo_modifyRuleInfo_self]; rfl)
    · exact .same (by simp [ruleInfo_modifyRuleInfo, hj])
  | startCallback j t c h hs hc hcall | request j call rest t hc hr h
  | answer r rest j t c hrest hr hj ho hv h | decrement r j t ha hc hj h
  | compute j rest t hj hrest hf h | supplyPriorValue j r t hstuck h hb hr =>
    exact .same (hsame m.engine j (setState _) (fun _ => rfl))
  | deferOnScan q input record hq hi h | deferOnTask q input hq hi h =>
    exact .same (hsame m.engine input (setState _) (fun _ => rfl))
  | scanned q record hq hi hd h | rebuilt q input record hq hi hc ho hn hb h =>
    exact .same (hsame m.engine q.ruleInfo (setState _) (fun _ => rfl))
  | pauseInput r record hr h =>
    exact .same (hsame m.engine r.inputRuleInfo (setState _) (fun _ => rfl))
  | recordAvailable r j hr hj h =>
    by_cases hk : k = j
    · subst hk
      exact .recorded r hr hj (by simp [recordDependency]) rfl
    · exact .same (hne m.engine j _ hk)
  | recordPending r j hr hj h =>
    by_cases hk : k = j
    · subst hk
      refine .recorded r hr hj ((result_modifyTaskInfo _ _ _ _).trans ?_) rfl
      simp [recordDependency]
    · refine .same ((result_modifyTaskInfo _ _ _ _).trans ?_)
      exact hne m.engine j _ hk
  | reportValue j t h hr c hc =>
    by_cases hj : k = j
    · subst hj
      subst hc
      exact .reported t h (by simp) (by simp)
    · exact .same (by simp [ruleInfo_modifyRuleInfo, hj])
  | completeRule j rest t hj hd h =>
    by_cases hk : k = j
    · subst hk
      exact .completed rest t hj h (by simp) (by simp)
    · exact .same (by simp [ruleInfo_modifyRuleInfo, hk])
  | forceBuild j record hstuck h =>
    exact .same (hsame m.engine j (fun r => (r.setState .needsToRun).setWasForced true)
      (fun _ => rfl))
  | _ => exact .same rfl

end LLBuild

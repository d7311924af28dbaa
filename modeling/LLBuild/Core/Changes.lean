import LLBuild.Core.Results

/-!
# What happens to a rule

What a move does to a rule: a rule is scheduled when the build looks at it for the first
time, its scan is suspended and ends in a decision, unless the rule is forced to run, its
task is created and works, and in the end the rule is complete.  Until a build looks at a
rule the rule is as it was when the build opened.
-/

namespace LLBuild

open RuleInfo

variable {Key Value : Type} {r : RuleInfo Key Value}

theorem RuleInfo.isInProgress_iff :
  r.IsInProgress ↔ ∃ t, r.state.taskInfo = some t
  := by
  constructor
  · exact taskInfo_of_isInProgress
  · rintro ⟨t, ht⟩
    obtain h | h := RuleState.taskInfo_eq_some.mp ht
    · left
      rw [RuleInfo.IsInProgressWaiting, h]
      rfl
    · right
      rw [RuleInfo.IsInProgressComputing, h]
      rfl

theorem RuleInfo.not_isComplete_of_taskInfo {epoch : ℕ}
    {t : TaskInfo Key Value} (h : r.state.taskInfo = some t) :
  ¬ r.IsComplete epoch
  := by
  rintro ⟨hkind, -⟩
  obtain hstate | hstate := RuleState.taskInfo_eq_some.mp h
  · rw [hstate] at hkind
    cases hkind
  · rw [hstate] at hkind
    cases hkind

theorem RuleInfo.IsInProgress.isScanned (h : r.IsInProgress) (epoch : ℕ) :
  r.IsScanned epoch
  := by
  right
  obtain h | h := h
  · rw [h]
    rfl
  · rw [h]
    rfl

/-- The dependencies of a rule that was built before have to be scanned, as its result may
still be of use or as it wants them checked before it runs. -/
def Client.HasDependenciesToScan (client : Client Key Value) (k : Key)
    (r : RuleInfo Key Value) : Prop :=
  r.result.builtAt ≠ 0 ∧ cleanSingleUseDependencies r.result.dependencies ≠ []
    ∧ (client.HasUsableResult k r ∨ client.checksDependenciesBeforeRunning k = true)

/-- The states a rule can be put in when the build looks at it for the first time. -/
inductive Client.Schedules (client : Client Key Value) (k : Key) (r : RuleInfo Key Value) :
    RuleState Key Value → Prop
  | needsToRun (h : r.result.builtAt = 0 ∨ client.checksDependenciesBeforeRunning k = false
      ∨ cleanSingleUseDependencies r.result.dependencies = []) :
      Schedules client k r .needsToRun
  | doesNotNeedToRun : Schedules client k r .doesNotNeedToRun
  | isScanning (h : client.HasDependenciesToScan k r) :
      Schedules client k r (.isScanning (some ⟨[], []⟩))

/-- The ways in which the scan of a rule ends. -/
inductive Client.Decides (client : Client Key Value) (r : RuleInfo Key Value)
    (q : RuleScanRequest Key) : RuleState Key Value → Prop
  | scanned (hi : q.inputRuleInfo = none) (hd : q.inputIndex = r.result.dependencies.length) :
      Decides client r q (if q.needsToRun then .needsToRun else .doesNotNeedToRun)
  | rebuilt (h : client.checksDependenciesBeforeRunning q.ruleInfo = false) :
      Decides client r q .needsToRun

variable [LinearOrder Key] [Inhabited Value]
variable {client : Client Key Value}

/-- What a move can do to the rule `k`. -/
inductive Moment.RuleChange (client : Client Key Value) (m m' : Moment Key Value) (k : Key) :
    Prop
  /-- Nothing. -/
  | same (h : m'.engine.ruleInfo client k = m.engine.ruleInfo client k)
  /-- The build looks at the rule for the first time. -/
  | scheduled (state : RuleState Key Value)
      (hs : ¬ (m.engine.ruleInfo client k).IsScanned m.engine.currentEpoch)
      (hn : ¬ (m.engine.ruleInfo client k).IsScanning)
      (hstate : client.Schedules k (m.engine.ruleInfo client k) state)
      (h : m'.engine.ruleInfo client k = (m.engine.ruleInfo client k).prepared.setState state)
  /-- Something is suspended until the rule is scanned. -/
  | suspended (record record' : RuleScanRecord Key)
      (hstate : (m.engine.ruleInfo client k).state = .isScanning (some record))
      (h : m'.engine.ruleInfo client k
        = (m.engine.ruleInfo client k).setState (.isScanning (some record')))
  /-- The scan of the rule ends. -/
  | decided (q : RuleScanRequest Key) (hq : m.scan = some q) (hk : q.ruleInfo = k)
      (record : RuleScanRecord Key)
      (hstate : (m.engine.ruleInfo client k).state = .isScanning (some record))
      (state : RuleState Key Value)
      (hd : client.Decides (m.engine.ruleInfo client k) q state)
      (h : m'.engine.ruleInfo client k = (m.engine.ruleInfo client k).setState state)
  /-- The rule is forced to run. -/
  | forced (record : RuleScanRecord Key)
      (hstate : (m.engine.ruleInfo client k).state = .isScanning (some record))
      (h : m'.engine.ruleInfo client k
        = ((m.engine.ruleInfo client k).setState .needsToRun).setWasForced true)
  /-- The task of the rule is created. -/
  | created (hstate : (m.engine.ruleInfo client k).state = .needsToRun)
      (h : (m'.engine.ruleInfo client k).IsInProgress)
      (hd : (m'.engine.ruleInfo client k).result.dependencies = [])
  /-- The task of the rule is at work. -/
  | working (h : (m.engine.ruleInfo client k).IsInProgress)
      (h' : (m'.engine.ruleInfo client k).IsInProgress)
  /-- The rule is up to date. -/
  | upToDate (hstate : (m.engine.ruleInfo client k).state = .doesNotNeedToRun)
      (h : m'.engine.ruleInfo client k
        = (m.engine.ruleInfo client k).setComplete m.engine.currentEpoch)
  /-- The rule is complete. -/
  | completed (rest : List Key) (t : TaskInfo Key Value)
      (hk : m.engine.finishedTaskInfos = k :: rest)
      (ht : (m.engine.ruleInfo client k).state.taskInfo = some t)
      (h : m'.engine.ruleInfo client k
        = ((m.engine.ruleInfo client k).setComplete m.engine.currentEpoch).setDependencies
          ((m.engine.ruleInfo client k).result.dependencies ++ t.discoveredDependencies))

namespace Engine

theorem isInProgress_modifyTaskInfo {s : Engine Key Value} {k : Key}
    (h : (s.ruleInfo client k).IsInProgress) (j : Key)
    (f : TaskInfo Key Value → TaskInfo Key Value) :
  ((s.modifyTaskInfo client j f).ruleInfo client k).IsInProgress
  := by
  rw [modifyTaskInfo, ruleInfo_setState]
  split_ifs with hk
  · subst hk
    obtain ⟨t, ht⟩ := isInProgress_iff.mp h
    exact isInProgress_iff.mpr ⟨f t, RuleState.taskInfo_mapTaskInfo ht f⟩
  · exact h

theorem ruleInfo_modifyTaskInfo_ne (s : Engine Key Value) {j k : Key} (hk : k ≠ j)
    (f : TaskInfo Key Value → TaskInfo Key Value) :
  (s.modifyTaskInfo client j f).ruleInfo client k = s.ruleInfo client k
  := by
  rw [modifyTaskInfo, ruleInfo_setState, if_neg hk]

end Engine

open Engine

variable {m m' : Moment Key Value}

/-- A task whose request is in hand is waiting. -/
theorem Moment.Sound.isInProgress_of_input (hs : m.Sound client)
    {r : TaskInputRequest Key} {k : Key} (hr : m.input = some r) (hk : r.taskInfo = some k) :
  (m.engine.ruleInfo client k).IsInProgress
  := by
  left
  apply isInProgressWaiting_of_stage (hs.isWaiting _)
  rw [Moment.onTheirWay, hr]
  simp [RequestProperty.ofTask, hk]

variable [DecidableEq Value]

theorem Move.ruleChange (hs : m.Sound client) (h : Move client m m') (k : Key) :
  m.RuleChange client m' k
  := by
  have hne (s : Engine Key Value) (j : Key) (f : RuleInfo Key Value → RuleInfo Key Value)
      (hj : k ≠ j) :
      (s.modifyRuleInfo client j f).ruleInfo client k = s.ruleInfo client k := by
    rw [ruleInfo_modifyRuleInfo, if_neg hj]
  have hwaiting {r : RuleInfo Key Value} (t : TaskInfo Key Value)
      (ht : r.state = .inProgressWaiting t) : r.IsInProgress :=
    isInProgress_iff.mpr ⟨t, by rw [ht]; rfl⟩
  have hcomputing {r : RuleInfo Key Value} (t : TaskInfo Key Value)
      (ht : r.state = .inProgressComputing t) : r.IsInProgress :=
    isInProgress_iff.mpr ⟨t, by rw [ht]; rfl⟩
  cases h with
  | lookup j => exact .same (ruleInfo_modifyRuleInfo_id client m.engine j k)
  | store db h => exact .same (h k)
  | needsToRun j hm hs hn hu hc =>
    by_cases hj : k = j
    · subst hj
      exact .scheduled .needsToRun hs hn (.needsToRun hc) (by simp)
    · exact .same (hne m.engine j _ hj)
  | doesNotNeedToRun j hm hs hn hu hd =>
    by_cases hj : k = j
    · subst hj
      exact .scheduled .doesNotNeedToRun hs hn .doesNotNeedToRun (by simp)
    · exact .same (hne m.engine j _ hj)
  | startScanning j b hm hs hn hb hd hu hc =>
    by_cases hj : k = j
    · subst hj
      refine .scheduled (.isScanning (some ⟨[], []⟩)) hs hn (.isScanning ⟨hb, hd, ?_⟩) (by simp)
      cases b with
      | false => exact .inl (hu rfl)
      | true => exact .inr (hc rfl)
    · exact .same (by simp [ruleInfo_modifyRuleInfo, hj])
  | upToDate j h =>
    by_cases hj : k = j
    · subst hj
      exact .upToDate h (ruleInfo_modifyRuleInfo_self client m.engine k _)
    · exact .same (hne m.engine j _ hj)
  | createTask j h hrest =>
    by_cases hj : k = j
    · subst hj
      refine .created h (hwaiting ⟨[], [], 0, [], [], false⟩ ?_) ?_
      · rw [ruleInfo_log, ruleInfo_modifyRuleInfo_self]
        rfl
      · rw [ruleInfo_log, ruleInfo_modifyRuleInfo_self]
        rfl
    · exact .same (by simp [ruleInfo_modifyRuleInfo, hj])
  | startCallback j t c h | request j call rest t hc hr h | supplyPriorValue j r t hstuck h =>
    by_cases hj : k = j
    · subst hj
      exact .working (hwaiting t h) (hwaiting _ (by simp; rfl))
    · exact .same (by simp [ruleInfo_setState, hj])
  | deferOnScan q input record hq hi h =>
    by_cases hj : k = input
    · subst hj
      exact .suspended record _ h (ruleInfo_setState_self client m.engine k _)
    · exact .same (hne m.engine input _ hj)
  | deferOnTask q input hq hi h =>
    by_cases hj : k = input
    · subst hj
      exact .working h (isInProgress_modifyTaskInfo h k _)
    · exact .same (ruleInfo_modifyTaskInfo_ne m.engine hj _)
  | scanned q record hq hi hd h =>
    by_cases hj : k = q.ruleInfo
    · subst hj
      exact .decided q hq rfl record h _ (.scanned hi hd) (by simp)
    · exact .same (by simp [ruleInfo_setState, hj])
  | rebuilt q input record hq hi hc ho hn hb h hk =>
    by_cases hj : k = q.ruleInfo
    · subst hj
      exact .decided q hq rfl record h _ (.rebuilt hk) (by simp)
    · exact .same (by simp [ruleInfo_setState, hj])
  | pauseInput r record hr h =>
    by_cases hj : k = r.inputRuleInfo
    · subst hj
      exact .suspended record _ h (ruleInfo_setState_self client m.engine _ _)
    · exact .same (hne m.engine r.inputRuleInfo _ hj)
  | recordAvailable r j hr hj h =>
    by_cases hk : k = j
    · subst hk
      have hprogress := hs.isInProgress_of_input hr hj
      refine .working hprogress ?_
      obtain ⟨t, ht⟩ := isInProgress_iff.mp hprogress
      exact isInProgress_iff.mpr ⟨t, by simpa using ht⟩
    · exact .same (hne m.engine j _ hk)
  | recordPending r j hr hj h =>
    have hprogress (hk : (m.engine.ruleInfo client k).IsInProgress) :
        (((m.engine.recordDependency client j r).modifyTaskInfo client r.inputRuleInfo
          (fun t => { t with requestedBy := t.requestedBy ++ [r] })).ruleInfo
            client k).IsInProgress := by
      apply isInProgress_modifyTaskInfo
      obtain ⟨t, ht⟩ := isInProgress_iff.mp hk
      exact isInProgress_iff.mpr ⟨t, by simpa using ht⟩
    by_cases hk : k = j
    · subst hk
      have hwait := hs.isInProgress_of_input hr hj
      exact .working hwait (hprogress hwait)
    · by_cases hi : k = r.inputRuleInfo
      · subst hi
        exact .working h (hprogress h)
      · exact .same ((ruleInfo_modifyTaskInfo_ne _ hi _).trans (hne m.engine j _ hk))
  | answer r rest j t c hrest hr hj ho hv h | decrement r j t ha hc hj h =>
    by_cases hk : k = j
    · subst hk
      have hprogress := isInProgress_iff.mpr ⟨t, h⟩
      exact .working hprogress (isInProgress_modifyTaskInfo hprogress k _)
    · exact .same (ruleInfo_modifyTaskInfo_ne _ hk _)
  | compute j rest t hj hrest hf h =>
    by_cases hk : k = j
    · subst hk
      exact .working (isInProgress_iff.mpr ⟨t, h⟩)
        (hcomputing { t with history := t.history ++ [.inputsAvailable] } (by simp))
    · exact .same (by simp [ruleInfo_setState, hk])
  | reportValue j t h hr c hc =>
    by_cases hj : k = j
    · subst hj
      exact .working (hcomputing t h) (hcomputing (t.report c) (by simp))
    · exact .same (by simp [ruleInfo_modifyRuleInfo, hj])
  | completeRule j rest t hj hd h =>
    by_cases hk : k = j
    · subst hk
      exact .completed rest t hj h (by simp)
    · exact .same (by simp [ruleInfo_modifyRuleInfo, hk])
  | forceBuild j record hstuck h =>
    by_cases hj : k = j
    · subst hj
      exact .forced record h (by simp)
    · exact .same (by simp [ruleInfo_modifyRuleInfo, hj])
  | _ => exact .same rfl

/-! ### The rules that are scanned -/

/-- The rules a build that opened in the state `s₀` has not looked at are as they were, and
the rules that are being scanned had dependencies to scan. -/
structure Moment.Scheduled (client : Client Key Value) (s₀ : Engine Key Value)
    (m : Moment Key Value) : Prop where
  untouched : ∀ k, ¬ (m.engine.ruleInfo client k).IsScanned m.engine.currentEpoch →
    ¬ (m.engine.ruleInfo client k).IsScanning →
      m.engine.ruleInfo client k = s₀.ruleInfo client k
  scanning : ∀ k record, (m.engine.ruleInfo client k).state = .isScanning (some record) →
    client.HasDependenciesToScan k (s₀.ruleInfo client k)

theorem Moment.Scheduled.move {s₀ : Engine Key Value}
    (hs : m.Sound client) (hp : m.Scheduled client s₀) (h : Move client m m') :
  m'.Scheduled client s₀
  := by
  constructor
  · intro k hscanned hscanning
    rw [h.currentEpoch] at hscanned
    cases h.ruleChange hs k with
    | same hsame =>
      rw [hsame] at hscanned hscanning ⊢
      exact hp.untouched k hscanned hscanning
    | scheduled state hs' hn hstate hk =>
      rw [hk] at hscanned hscanning
      cases hstate with
      | needsToRun _ | doesNotNeedToRun => exact absurd (.inr rfl) hscanned
      | isScanning _ => exact absurd rfl hscanning
    | suspended record record' hstate hk =>
      rw [hk] at hscanning
      exact absurd rfl hscanning
    | decided q hq hk' record hstate state hd hk =>
      rw [hk] at hscanned
      cases hd with
      | scanned _ _ => exact absurd (.inr (by cases q.needsToRun <;> rfl)) hscanned
      | rebuilt _ => exact absurd (.inr rfl) hscanned
    | forced record hstate hk =>
      rw [hk] at hscanned
      exact absurd (.inr rfl) hscanned
    | created hstate hprogress | working _ hprogress =>
      exact absurd (hprogress.isScanned _) hscanned
    | upToDate hstate hk | completed rest t hk' ht hk =>
      rw [hk] at hscanned
      exact absurd (.inl ⟨rfl, rfl⟩) hscanned
  · intro k record hrecord
    have hnot (hscanned : (m'.engine.ruleInfo client k).IsScanned m.engine.currentEpoch) :
        False := by
      obtain ⟨hkind, -⟩ | hpast := hscanned
      · rw [hrecord] at hkind
        cases hkind
      · rw [hrecord] at hpast
        cases hpast
    cases h.ruleChange hs k with
    | same hsame =>
      rw [hsame] at hrecord
      exact hp.scanning k record hrecord
    | scheduled state hs' hn hstate hk =>
      rw [hk] at hrecord
      obtain rfl : state = .isScanning (some record) := hrecord
      rw [← hp.untouched k hs' hn]
      cases hstate with
      | isScanning hd => exact hd
    | suspended record₁ record' hstate hk | decided q hq hk' record₁ hstate state hd hk
    | forced record₁ hstate hk => exact hp.scanning k record₁ hstate
    | created hstate hprogress | working _ hprogress => exact (hnot (hprogress.isScanned _)).elim
    | upToDate hstate hk | completed rest t hk' ht hk =>
      rw [hk] at hrecord
      cases hrecord

omit [DecidableEq Value] in
theorem Engine.Quiet.scheduled {s : Engine Key Value} (hq : s.Quiet) (client : Client Key Value)
    (key : Key) :
  (s.opening key).Scheduled client s
  := by
  constructor
  · intro k _ _
    rfl
  · intro k record hrecord
    have hquiet := (hq.ruleInfo client k).1
    rw [show (s.ruleInfo client k).state = .isScanning (some record) from hrecord] at hquiet
    exact hquiet.elim

end LLBuild

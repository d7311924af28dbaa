import LLBuild.Core.Tasks

/-!
# The creation of tasks

A task is created in two kinds of steps, the scan of an input of a rule and the processing of
an input request, and only if the rule is found to need to run.  Nothing but the rule itself
has changed at that moment.
-/

namespace LLBuild

variable {Key Value : Type} [LinearOrder Key] [Inhabited Value]
variable {client : Client Key Value}

/-- The rule whose task an event reports to be created. -/
def Event.createdTask : Event Key Value → Option Key
  | createTask k => some k
  | _ => none

namespace Engine

/-- The rules whose task was created during the build, the latest first. -/
def creations (s : Engine Key Value) : List Key :=
  s.events.filterMap Event.createdTask

omit [LinearOrder Key] [Inhabited Value] in
@[simp]
theorem creations_log (s : Engine Key Value) (event : Event Key Value) :
  (s.log event).creations = event.createdTask.toList ++ s.creations
  := by
  rw [creations, log_events, List.filterMap_cons]
  cases event.createdTask <;> rfl

section

variable (s : Engine Key Value) (k : Key)

variable (client) in
@[simp]
theorem creations_getRuleInfoForKey :
  (s.getRuleInfoForKey client k).creations = s.creations
  := by
  rw [getRuleInfoForKey]
  split_ifs
  · rfl
  · split <;> rfl

theorem creations_addTaskInputRequest (key : Key) (inputID : UInt64) (orderOnly singleUse : Bool) :
  (s.addTaskInputRequest client k key inputID orderOnly singleUse).creations = s.creations
  := by
  rw [addTaskInputRequest]
  split_ifs
  · rw [creations_log]
    exact creations_getRuleInfoForKey client s key
  · rfl

theorem creations_taskCalls (calls : List (TaskCall Key)) :
  (calls.foldl (taskCall client k) s).creations = s.creations
  := by
  induction calls generalizing s with
  | nil => rfl
  | cons call calls ih =>
    rw [List.foldl_cons, ih]
    cases call with
    | request key inputID | requestSingleUse key inputID =>
      rw [taskCall]
      split_ifs
      · rfl
      · apply creations_addTaskInputRequest
    | mustFollow key => exact creations_addTaskInputRequest s k key _ true false

@[simp]
theorem creations_callback (c : Callback Key Value) :
  (s.callback client k c).creations = s.creations
  := by
  rw [callback]
  split
  · rfl
  · exact creations_taskCalls _ k _

@[simp]
theorem creations_readyIfNotWaiting :
  (s.readyIfNotWaiting client k).creations = s.creations
  := by
  rw [readyIfNotWaiting]
  split <;> rfl

theorem creations_startTask :
  (s.startTask client k).creations = k :: s.creations
  := by
  rw [startTask, creations_readyIfNotWaiting]
  split_ifs
  · rw [creations_callback, creations_callback]
    rfl
  · rw [creations_callback]
    rfl

variable (client) in
theorem creations_scanRule :
  (s.scanRule client k).2.creations = s.creations
  := by
  have houtcome := scanRule_outcome client s k
  generalize s.scanRule client k = result at houtcome
  cases houtcome <;> rfl

theorem creations_finishScanRequest (state : RuleState Key Value) :
  (s.finishScanRequest client k state).creations = s.creations
  := by
  rw [finishScanRequest]
  split <;> rfl

theorem creations_modifyScanRecord (f : RuleScanRecord Key → RuleScanRecord Key) :
  (s.modifyScanRecord client k f).creations = s.creations
  := by
  rw [modifyScanRecord]
  split <;> rfl

variable (q : RuleScanRequest Key)

theorem creations_endOfInputs :
  (s.endOfInputs client q).2.creations = s.creations
  := by
  rw [endOfInputs]
  split_ifs
  · rfl
  · exact creations_finishScanRequest s q.ruleInfo _
  · exact creations_finishScanRequest s q.ruleInfo _

theorem creations_checkInput :
  (s.checkInput client q k).2.creations = s.creations
  := by
  rw [checkInput]
  split_ifs
  · exact creations_endOfInputs s _
  · exact creations_finishScanRequest s q.ruleInfo _
  · rw [creations_endOfInputs]
    rfl
  · exact creations_endOfInputs s _

theorem creations_processFinishedInputRequest (r : TaskInputRequest Key) :
  (s.processFinishedInputRequest client r).creations = s.creations
  := by
  rw [processFinishedInputRequest]
  split
  · rfl
  · rw [decrementTaskWaitCount, creations_readyIfNotWaiting]
    split_ifs
    · rfl
    · exact creations_callback _ _ _

theorem creations_processReadyTask :
  (s.processReadyTask client k).creations = s.creations
  := by
  rw [processReadyTask]
  split
  · rfl
  · exact creations_callback _ _ _

theorem creations_recordResult (t : TaskInfo Key Value) :
  (s.recordResult client k t).2.creations = s.creations
  := by
  have hset : (s.setRuleResult client k).2.creations = s.creations := by
    rw [setRuleResult]
    split
    · rfl
    · split <;> rfl
  rw [recordResult]
  split
  next message s₁ h =>
    rw [h] at hset
    exact hset
  next s₁ h =>
    rw [h] at hset
    exact hset

theorem creations_processFinishedTask :
  (s.processFinishedTask client k).2.creations = s.creations
  := by
  have hdiscovered (ds : List (Dependency Key)) (s : Engine Key Value) :
      (ds.foldl (requestDiscovered client) s).creations = s.creations := by
    induction ds generalizing s with
    | nil => rfl
    | cons d ds ih =>
      rw [List.foldl_cons, ih]
      exact creations_getRuleInfoForKey client s d.key
  rw [processFinishedTask]
  split
  · rfl
  · rw [creations_recordResult, hdiscovered]
    rfl

variable (client) in
theorem creations_breakCycleFrom (cycle keys : List Key) :
  (s.breakCycleFrom client cycle keys).2.creations = s.creations
  := by
  induction keys with
  | nil => rfl
  | cons key rest ih =>
    rw [breakCycleFrom]
    split
    · split_ifs
      · rfl
      · exact creations_finishScanRequest _ key _
    · cases rest with
      | nil => split_ifs <;> exact ih
      | cons next tail =>
        dsimp only
        split_ifs
        · exact ih
        · split
          · exact ih
          · rfl
        · split
          · exact ih
          · rfl
    · exact ih

theorem creations_resolveCycle :
  (s.resolveCycle client k).2.creations = s.creations
  := by
  rw [resolveCycle]
  split_ifs
  · rfl
  · rcases hb : s.breakCycle client (s.findCycle k) with ⟨broken, s₁⟩
    have hbreak := creations_breakCycleFrom client s (s.findCycle k)
      (s.findCycle k).reverse
    rw [show s.breakCycleFrom client _ _ = (broken, s₁) from hb] at hbreak
    dsimp only
    rw [hb]
    cases broken with
    | true => exact hbreak
    | false => exact hbreak

end

variable (client) in
/-- The scan of a rule changes at most the rule itself, which is not complete then and has
not been forced. -/
theorem scanRule_cases (s : Engine Key Value) (k : Key) :
  (s.scanRule client k).2 = s ∨ (s.scanRule client k).2.currentEpoch = s.currentEpoch
    ∧ ∃ state : RuleState Key Value, state.kind ≠ .complete
      ∧ ∀ j, (s.scanRule client k).2.ruleInfo client j
        = if j = k then (s.ruleInfo client k).prepared.setState state else s.ruleInfo client j
  := by
  have hset := ruleInfo_setRuleInfo client s k
  have houtcome := scanRule_outcome client s k
  generalize s.scanRule client k = result at houtcome
  cases houtcome with
  | scanned | scanning => exact .inl rfl
  | needsToRun =>
    exact .inr ⟨rfl, .needsToRun, (by intro h; cases h), fun j => hset j _⟩
  | checks | depends =>
    exact .inr ⟨rfl, .isScanning (some ⟨[], []⟩), (by intro h; cases h), fun j => hset j _⟩
  | doesNotNeedToRun =>
    exact .inr ⟨rfl, .doesNotNeedToRun, (by intro h; cases h), fun j => hset j _⟩

/-- A scanned rule that is demanded is started if it needs to run. -/
theorem demandRule_creations {s : Engine Key Value} {k : Key}
    (h : (s.ruleInfo client k).IsScanned s.currentEpoch) :
  (s.demandRule client k).2.creations = s.creations
    ∨ (s.ruleInfo client k).state = .needsToRun
      ∧ (s.demandRule client k).2.creations = k :: s.creations
  := by
  rw [demandRule]
  split_ifs with hcomplete hprogress hnot
  · exact .inl rfl
  · exact .inl rfl
  · exact .inl rfl
  · right
    refine ⟨?_, creations_startTask s k⟩
    obtain hscanned | hpast := h
    · exact absurd hscanned hcomplete
    · cases hr : (s.ruleInfo client k).state with
      | needsToRun => rfl
      | _ => simp_all [RuleState.kind, StateKind.isPastScanning]

end Engine

/-! ### The steps that create a task -/

variable [DecidableEq Value]

/-- The rule `k` is found to need to run after some moves that change no other rule, and the
rule at most by looking at it for the first time. -/
structure Moment.Finds (client : Client Key Value) (m : Moment Key Value) (k : Key)
    (m' : Moment Key Value) : Prop where
  moves : Moves client m m'
  currentEpoch : m'.engine.currentEpoch = m.engine.currentEpoch
  state : (m'.engine.ruleInfo client k).state = .needsToRun
  ruleInfo : m'.engine.ruleInfo client k = m.engine.ruleInfo client k
    ∨ m'.engine.ruleInfo client k = (m.engine.ruleInfo client k).prepared.setState .needsToRun
  others : ∀ j, j ≠ k → m'.engine.ruleInfo client j = m.engine.ruleInfo client j

namespace Moment.Finds

/-- The moves that come before may look up rules, and change what is in hand. -/
theorem head {m₀ m m' : Moment Key Value} {k : Key} (h : m.Finds client k m')
    (hmoves : Moves client m₀ m) (he : m.engine.currentEpoch = m₀.engine.currentEpoch)
    (hrules : ∀ j, m.engine.ruleInfo client j = m₀.engine.ruleInfo client j) :
  m₀.Finds client k m'
  := by
  refine ⟨hmoves.trans h.moves, h.currentEpoch.trans he, h.state, ?_, ?_⟩
  · rw [← hrules k]
    exact h.ruleInfo
  · intro j hj
    rw [h.others j hj, hrules j]

/-- No rule becomes complete on the way. -/
theorem isComplete {m m' : Moment Key Value} {k j : Key} (h : m.Finds client k m')
    (hj : (m'.engine.ruleInfo client j).IsComplete m'.engine.currentEpoch) :
  (m.engine.ruleInfo client j).IsComplete m.engine.currentEpoch
  := by
  have hne : j ≠ k := by
    rintro rfl
    rw [RuleInfo.IsComplete, h.state] at hj
    cases hj.1
  rw [h.others j hne, h.currentEpoch] at hj
  exact hj

end Moment.Finds

namespace Engine

variable {m : Moment Key Value}

variable (client) in
/-- A rule that is scanned and demanded is started when it is found to need to run. -/
theorem scanRule_finds {k : Key} (hm : m.Demands k)
    (hscanned : (m.engine.scanRule client k).1 = true) :
  ((m.engine.scanRule client k).2.demandRule client k).2.creations = m.engine.creations
    ∨ ((m.engine.scanRule client k).2.demandRule client k).2.creations = k :: m.engine.creations
      ∧ m.Finds client k { m with engine := (m.engine.scanRule client k).2 }
  := by
  obtain ⟨b, s, hscan, hmoves, hspec⟩ := scanRule_spec client m k hm
  have hcases := scanRule_cases client m.engine k
  have hcreations := creations_scanRule client m.engine k
  rw [hscan] at hscanned hcases hcreations ⊢
  obtain rfl : b = true := hscanned
  obtain hsame | ⟨hstate, hnew⟩ := demandRule_creations (k := k) hspec
  · exact .inl (hsame.trans hcreations)
  · right
    refine ⟨hnew.trans (congrArg _ hcreations), ?_⟩
    obtain hsame | ⟨hepoch, state, -, hrules⟩ := hcases
    · obtain rfl : s = m.engine := hsame
      exact ⟨hmoves, rfl, hstate, .inl rfl, fun _ _ => rfl⟩
    · refine ⟨hmoves, hepoch, hstate, .inr ?_, ?_⟩
      · have hk := hrules k
        rw [if_pos rfl] at hk
        change (s.ruleInfo client k) = _ at hk
        change (s.ruleInfo client k).state = _ at hstate
        rw [hk] at hstate ⊢
        rw [show state = .needsToRun from hstate]
      · intro j hj
        exact (hrules j).trans (if_neg hj)

variable (client) in
theorem creations_scanInput {q : RuleScanRequest Key} {input : Key}
    (hq : m.scan = some q) (hi : q.inputRuleInfo = some input) :
  (m.engine.scanInput client q input).2.creations = m.engine.creations
    ∨ ∃ m', (m.engine.scanInput client q input).2.creations = input :: m.engine.creations
      ∧ m.Finds client input m'
  := by
  have hscan := creations_scanRule client m.engine input
  have hfinds := scanRule_finds client (k := input) (.inr ⟨q, hq, hi⟩)
  rw [scanInput]
  rcases hresult : m.engine.scanRule client input with ⟨_ | _, s⟩ <;>
    rw [hresult] at hscan hfinds
  · left
    exact (creations_modifyScanRecord s input _).trans hscan
  · have hdemand : ∀ s' : Engine Key Value,
        (if !(s.demandRule client input).1 then
            ((none : Option (RuleScanRequest Key)), s'.deferOnTask client input q)
          else s'.checkInput client q input).2.creations = s'.creations := by
      intro s'
      split_ifs
      · rfl
      · exact creations_checkInput s' input q
    simp only [Bool.not_true, Bool.false_eq_true, ↓reduceIte]
    rw [hdemand]
    obtain hsame | ⟨hnew, hfinds⟩ := hfinds rfl
    · exact .inl hsame
    · exact .inr ⟨_, hnew, hfinds⟩

variable (client) in
theorem creations_processRuleScanRequest {q : RuleScanRequest Key} (hq : m.scan = some q) :
  (m.engine.processRuleScanRequest client q).2.creations = m.engine.creations
    ∨ ∃ k m', (m.engine.processRuleScanRequest client q).2.creations = k :: m.engine.creations
      ∧ m.Finds client k m'
  := by
  rw [processRuleScanRequest]
  split
  next input hi =>
    obtain hsame | ⟨m', hnew, hfinds⟩ := creations_scanInput client hq hi
    · exact .inl hsame
    · exact .inr ⟨input, m', hnew, hfinds⟩
  next hi =>
    split
    next => exact .inl rfl
    next d hd =>
      split_ifs with hskip
      · exact .inl (creations_endOfInputs _ _)
      · have hlookup := getRuleInfoForKey_moves client m d.key
        have hmoves := hlookup.tail (.considerInput _ q d hq hi
          (by rw [ruleInfo_getRuleInfoForKey, hd]))
        have hcreations := creations_getRuleInfoForKey client m.engine d.key
        obtain hsame | ⟨m', hnew, hfinds⟩ := creations_scanInput client
          (m := { m with
            engine := m.engine.getRuleInfoForKey client d.key
            scan := some { q with
              inputRuleInfo := some d.key, orderOnly := d.orderOnly, singleUse := d.singleUse } })
          rfl rfl
        · exact .inl (hsame.trans hcreations)
        · refine .inr ⟨d.key, m', hnew.trans (congrArg _ hcreations), ?_⟩
          apply hfinds.head hmoves
          · exact currentEpoch_getRuleInfoForKey m.engine d.key
          · exact ruleInfo_getRuleInfoForKey m.engine d.key

omit [DecidableEq Value] in
/-- The request itself is recorded and answered without creating a task. -/
theorem creations_processInputRequest_of_scanRule {s s' : Engine Key Value}
    {r : TaskInputRequest Key} (h : s.scanRule client r.inputRuleInfo = (true, s')) :
  (s.processInputRequest client r).creations
    = (s'.demandRule client r.inputRuleInfo).2.creations
  := by
  rw [processInputRequest, h]
  simp only [Bool.not_true, Bool.false_eq_true, ↓reduceIte]
  split
  · rfl
  · split_ifs <;> rfl

variable (client) in
theorem creations_processInputRequest {r : TaskInputRequest Key} (hr : m.input = some r) :
  (m.engine.processInputRequest client r).creations = m.engine.creations
    ∨ ∃ k m', (m.engine.processInputRequest client r).creations = k :: m.engine.creations
      ∧ m.Finds client k m'
  := by
  have hscan := creations_scanRule client m.engine r.inputRuleInfo
  have hfinds := scanRule_finds client (k := r.inputRuleInfo) (.inl ⟨r, hr, rfl⟩)
  rcases hresult : m.engine.scanRule client r.inputRuleInfo with ⟨_ | _, s⟩ <;>
    rw [hresult] at hscan hfinds
  · left
    rw [processInputRequest, hresult]
    exact (creations_modifyScanRecord s r.inputRuleInfo _).trans hscan
  · rw [creations_processInputRequest_of_scanRule hresult]
    obtain hsame | ⟨hnew, hfinds⟩ := hfinds rfl
    · exact .inl hsame
    · exact .inr ⟨_, _, hnew, hfinds⟩

end Engine

open Engine

namespace Execution

/-- A step creates a task if its rule was found to need to run. -/
theorem step_creations {e e' : Execution Key Value} {a : Action Key}
    (hstep : e.step client a = some e') :
  e'.engine.creations = e.engine.creations
    ∨ e.engine.trap = none ∧ e.IsLive
      ∧ ∃ k m, e'.engine.creations = k :: e.engine.creations ∧ e.moment.Finds client k m
  := by
  cases a with
  | work =>
    obtain ⟨htrap, hwork⟩ := step_work hstep
    cases works_of_work hwork with
    | scan q hp =>
      have hq : e.moment.scan = some q := by
        change e.current = some q
        rw [current, hp]
      obtain hsame | hnew := creations_processRuleScanRequest client hq
      · exact .inl hsame
      · exact .inr ⟨htrap, by rw [IsLive, hp]; trivial, hnew⟩
    | input r rest hp hr =>
      have htake := (Move.takeInput e.moment r rest rfl hr : Move client _ _).moves
      obtain hsame | ⟨k, m, hnew, hfinds⟩ := creations_processInputRequest
        client (m := { e.moment with
          engine := e.engine.setInputRequests rest, input := some r }) rfl
      · exact .inl hsame
      · refine .inr ⟨htrap, by rw [IsLive, hp]; trivial, k, m, hnew, ?_⟩
        exact hfinds.head htake rfl (fun _ => rfl)
    | answer r rest hp hr => exact .inl (creations_processFinishedInputRequest _ r)
    | ready k rest hp hk => exact .inl (creations_processReadyTask _ k)
    | finish k rest hp hk hr | finishFailed k rest hp hk hr =>
      exact .inl (creations_processFinishedTask _ k)
    | resolved hp hd ho ht h | unresolved hp hd ho ht h =>
      exact .inl (creations_resolveCycle _ _)
    | cancelTasks unrecorded hp ho => cases unrecorded <;> exact .inl rfl
    | _ => exact .inl rfl
  | complete k =>
    obtain ⟨t, hstate, -, -, rfl⟩ := step_complete hstep
    left
    exact congrArg (List.filterMap Event.createdTask) (finishTask_events hstate).1
  | cancel =>
    cases hstep
    exact .inl rfl

end Execution

omit [DecidableEq Value] [Inhabited Value] in
theorem Engine.countP_isCreateTask (s : Engine Key Value) (k : Key) :
  s.events.countP (Event.isCreateTask k) = s.creations.count k
  := by
  rw [creations, List.count, List.countP_filterMap]
  congr 1
  funext event
  cases event with
  | createTask j => rfl
  | _ => rfl

end LLBuild

import LLBuild.Core.Move
import Mathlib.Logic.Relation

/-!
# Builds are sequences of moves

Each operation of the engine, and with it each step of a build, is a sequence of moves.
-/

namespace LLBuild

open RuleInfo

open Move

open RuleState

variable {Key Value : Type} [LinearOrder Key] [DecidableEq Value] [Inhabited Value]
variable {client : Client Key Value}

/-- A sequence of moves. -/
abbrev Moves (client : Client Key Value) : Moment Key Value → Moment Key Value → Prop :=
  Relation.ReflTransGen (Move client)

variable {m m' : Moment Key Value}

theorem Move.moves (h : Move client m m') :
  Moves client m m'
  := .single h

theorem Moves.report (h : Moves client m m') (event : Event Key Value) (he : event.IsReport) :
  Moves client m { m' with engine := m'.engine.log event }
  := h.tail (.report m' event he)

/-- A sequence of moves, or a sequence that ends in undefined behaviour. The engine does
not use a task that is not in progress. -/
def Reaches (client : Client Key Value) (m m' : Moment Key Value) : Prop :=
  Moves client m m' ∨ m'.engine.trap = some .danglingScanRecord
    ∨ m'.engine.trap = some .pastTheEnd

theorem Moves.reaches (h : Moves client m m') :
  Reaches client m m'
  := .inl h

theorem Moves.trans_reaches {m'' : Moment Key Value} (h : Moves client m m')
    (h' : Reaches client m' m'') :
  Reaches client m m''
  := h'.imp_left (h.trans ·)

namespace Engine

/-! ### Looking up and scanning a rule -/

variable {s : Engine Key Value} {k : Key}

omit [DecidableEq Value] in
theorem modifyRuleInfo_id (h : s.ruleInfos.lookup k = none) :
  s.modifyRuleInfo client k id = s.setRuleInfo k (client.newRuleInfo s.db k)
  := by
  rw [modifyRuleInfo, ruleInfo, h]
  rfl

variable (client) in
theorem getRuleInfoForKey_moves (m : Moment Key Value) (k : Key) :
  Moves client m { m with engine := m.engine.getRuleInfoForKey client k }
  := by
  rw [getRuleInfoForKey]
  split_ifs with h
  · rfl
  · have hlookup := (lookup m k : Move client _ _).moves
    rw [modifyRuleInfo_id (Option.not_isSome_iff_eq_none.mp h)] at hlookup
    split
    next message _ _ =>
      have hreport := hlookup.report (.error message) trivial
      apply hreport.tail (.cancelBuild _)
    next => apply hlookup

omit [DecidableEq Value] in
variable (client) in
@[simp]
theorem ruleInfo_modifyRuleInfo_id (s : Engine Key Value) (k k' : Key) :
  (s.modifyRuleInfo client k id).ruleInfo client k' = s.ruleInfo client k'
  := by
  rw [modifyRuleInfo, ruleInfo_setRuleInfo]
  split_ifs with h
  · rw [h, id]
  · rfl

section

variable (s : Engine Key Value)

omit [DecidableEq Value] in
@[simp]
theorem ruleInfo_getRuleInfoForKey (k k' : Key) :
  (s.getRuleInfoForKey client k).ruleInfo client k' = s.ruleInfo client k'
  := by
  rw [getRuleInfoForKey]
  split_ifs with h
  · rfl
  · have hlookup := ruleInfo_modifyRuleInfo_id client s k k'
    rw [modifyRuleInfo_id (Option.not_isSome_iff_eq_none.mp h)] at hlookup
    split
    · apply hlookup
    · apply hlookup

omit [DecidableEq Value] in
@[simp]
theorem currentEpoch_getRuleInfoForKey (k : Key) :
  (s.getRuleInfoForKey client k).currentEpoch = s.currentEpoch
  := by
  rw [getRuleInfoForKey]
  split_ifs
  · rfl
  · split <;> rfl

omit [DecidableEq Value] in
theorem setState_setRuleInfo (k : Key) (r : RuleInfo Key Value) (state : RuleState Key Value) :
  (s.setRuleInfo k r).setState client k state = s.setRuleInfo k (r.setState state)
  := by
  rw [setState, modifyRuleInfo, ruleInfo_setRuleInfo_self, setRuleInfo_setRuleInfo]

omit [DecidableEq Value] in
theorem setState_log (event : Event Key Value) (k : Key) (state : RuleState Key Value) :
  (s.log event).setState client k state = (s.setState client k state).log event
  := rfl

end

/-- What the scan of a rule comes to: whether the rule is scanned, and the engine afterwards.
A rule that is looked at for the first time is reported to be scanning. -/
inductive ScanOutcome (client : Client Key Value) (s : Engine Key Value) (k : Key) :
    Bool × Engine Key Value → Prop
  | scanned (hs : (s.ruleInfo client k).IsScanned s.currentEpoch) :
      ScanOutcome client s k (true, s)
  | scanning (hn : (s.ruleInfo client k).IsScanning) : ScanOutcome client s k (false, s)
  /-- The rule needs to run, and has nothing to check before. -/
  | needsToRun (reason : RunReason)
      (hs : ¬ (s.ruleInfo client k).IsScanned s.currentEpoch)
      (hn : ¬ (s.ruleInfo client k).IsScanning)
      (hu : ¬ client.HasUsableResult k (s.ruleInfo client k))
      (hc : (s.ruleInfo client k).result.builtAt = 0
        ∨ client.checksDependenciesBeforeRunning k = false
        ∨ (s.ruleInfo client k).prepared.result.dependencies = []) :
      ScanOutcome client s k (true,
        ((s.setRuleInfo k ((s.ruleInfo client k).prepared.setState .needsToRun)).log
          (.updateStatus k .isScanning)).log (.determinedRuleNeedsToRun k reason none))
  /-- The rule needs to run, and its dependencies are scanned before. -/
  | checks (reason : RunReason)
      (hs : ¬ (s.ruleInfo client k).IsScanned s.currentEpoch)
      (hn : ¬ (s.ruleInfo client k).IsScanning)
      (hb : (s.ruleInfo client k).result.builtAt ≠ 0)
      (hd : (s.ruleInfo client k).prepared.result.dependencies ≠ [])
      (hc : client.checksDependenciesBeforeRunning k = true) :
      ScanOutcome client s k (false,
        (((s.setRuleInfo k ((s.ruleInfo client k).prepared.setState
          (.isScanning (some ⟨[], []⟩)))).log
          (.updateStatus k .isScanning)).log
            (.determinedRuleNeedsToRun k reason none)).addRuleInfosToScan
          [⟨k, 0, none, false, false, true⟩])
  | doesNotNeedToRun
      (hs : ¬ (s.ruleInfo client k).IsScanned s.currentEpoch)
      (hn : ¬ (s.ruleInfo client k).IsScanning)
      (hu : client.HasUsableResult k (s.ruleInfo client k))
      (hd : (s.ruleInfo client k).prepared.result.dependencies = []) :
      ScanOutcome client s k (true,
        (s.setRuleInfo k ((s.ruleInfo client k).prepared.setState .doesNotNeedToRun)).log
          (.updateStatus k .isScanning))
  /-- Whether the rule needs to run depends on its dependencies. -/
  | depends
      (hs : ¬ (s.ruleInfo client k).IsScanned s.currentEpoch)
      (hn : ¬ (s.ruleInfo client k).IsScanning)
      (hu : client.HasUsableResult k (s.ruleInfo client k))
      (hd : (s.ruleInfo client k).prepared.result.dependencies ≠ []) :
      ScanOutcome client s k (false,
        ((s.setRuleInfo k ((s.ruleInfo client k).prepared.setState
          (.isScanning (some ⟨[], []⟩)))).log
          (.updateStatus k .isScanning)).addRuleInfosToScan
          [⟨k, 0, none, false, false, false⟩])

omit [DecidableEq Value] in
theorem scheduleChecksBeforeRunning_outcome
    (hs : ¬ (s.ruleInfo client k).IsScanned s.currentEpoch)
    (hn : ¬ (s.ruleInfo client k).IsScanning) (hb : (s.ruleInfo client k).result.builtAt ≠ 0)
    (hu : ¬ client.HasUsableResult k (s.ruleInfo client k)) (reason : RunReason) :
  let result := (((s.setRuleInfo k ((s.ruleInfo client k).prepared.setState .needsToRun)).log
    (.updateStatus k .isScanning)).log
      (.determinedRuleNeedsToRun k reason none)).scheduleChecksBeforeRunning client k
  ScanOutcome client s k (!result.1, result.2)
  := by
  intro result
  simp only [result, scheduleChecksBeforeRunning, startScanning, setState_log,
    setState_setRuleInfo, ruleInfo_log, ruleInfo_setRuleInfo_self]
  split_ifs with hcheck
  · rw [Bool.or_eq_true, Bool.not_eq_true', List.isEmpty_iff] at hcheck
    exact .needsToRun reason hs hn hu (.inr hcheck)
  · rw [Bool.or_eq_true, Bool.not_eq_true', List.isEmpty_iff, not_or, Bool.not_eq_false] at hcheck
    exact .checks reason hs hn hb hcheck.2 hcheck.1

omit [DecidableEq Value] in
variable (client) in
/-- The scan has one of the outcomes. -/
theorem scanRule_outcome (s : Engine Key Value) (k : Key) :
  ScanOutcome client s k (s.scanRule client k)
  := by
  rw [scanRule]
  by_cases hs : (s.ruleInfo client k).IsScanned s.currentEpoch
  · rw [if_pos hs]
    exact .scanned hs
  by_cases hn : (s.ruleInfo client k).IsScanning
  · rw [if_neg hs, if_pos hn]
    exact .scanning hn
  rw [if_neg hs, if_neg hn]
  dsimp only
  by_cases hb : (s.ruleInfo client k).prepared.result.builtAt = 0
  · rw [if_pos hb, setState_log, setState_setRuleInfo]
    exact .needsToRun .neverBuilt hs hn (·.1 hb) (.inl hb)
  by_cases hsignature : (s.ruleInfo client k).prepared.signature
      ≠ (s.ruleInfo client k).prepared.result.signature
  · rw [if_neg hb, if_pos hsignature, setState_log, setState_setRuleInfo]
    exact scheduleChecksBeforeRunning_outcome hs hn hb (hsignature ·.2.1) _
  rw [if_neg hb, if_neg hsignature]
  cases hvalid : client.isResultValid k (s.ruleInfo client k).prepared.result.value with
  | false =>
    rw [Bool.not_false, if_pos rfl, setState_log, setState_setRuleInfo]
    exact scheduleChecksBeforeRunning_outcome hs hn hb
      (fun hu => Bool.noConfusion (hvalid.symm.trans hu.2.2)) _
  | true =>
    have hu : client.HasUsableResult k (s.ruleInfo client k) :=
      ⟨hb, not_not.mp hsignature, hvalid⟩
    rw [Bool.not_true, if_neg Bool.false_ne_true]
    by_cases hd : (s.ruleInfo client k).prepared.result.dependencies = []
    · rw [if_pos (List.isEmpty_iff.mpr hd), setState_log, setState_setRuleInfo]
      exact .doesNotNeedToRun hs hn hu hd
    · rw [if_neg (mt List.isEmpty_iff.mp hd), startScanning, setState_log, setState_setRuleInfo]
      exact .depends hs hn hu hd

variable (client) in
/-- The scan of a rule is a sequence of moves, after which the rule is scanned, if that is
what is reported, and scanning otherwise. -/
theorem scanRule_spec (m : Moment Key Value) (k : Key) (hm : m.Demands k) :
  ∃ b s, m.engine.scanRule client k = (b, s) ∧ Moves client m { m with engine := s }
    ∧ if b then (s.ruleInfo client k).IsScanned s.currentEpoch
      else (s.ruleInfo client k).IsScanning
  := by
  have houtcome := scanRule_outcome client m.engine k
  generalize m.engine.scanRule client k = result at houtcome
  cases houtcome with
  | scanned hs | scanning hs => exact ⟨_, _, rfl, .refl, hs⟩
  | needsToRun reason hs hn hu hc =>
    refine ⟨_, _, rfl, ?_, .inr (by simp; rfl)⟩
    have hmove := (Move.needsToRun m k hm hs hn hu hc).moves
    exact (hmove.report (.updateStatus k .isScanning) trivial).report
      (.determinedRuleNeedsToRun k reason none) trivial
  | checks reason hs hn hb hd hc =>
    refine ⟨_, _, rfl, ?_, by simp; rfl⟩
    have hmove := (Move.startScanning m k true hm hs hn hb hd Bool.noConfusion (fun _ => hc)).moves
    exact (hmove.report (.updateStatus k .isScanning) trivial).report
      (.determinedRuleNeedsToRun k reason none) trivial
  | doesNotNeedToRun hs hn hu hd =>
    refine ⟨_, _, rfl, ?_, .inr (by simp; rfl)⟩
    have hmove := (Move.doesNotNeedToRun m k hm hs hn hu hd).moves
    exact hmove.report (.updateStatus k .isScanning) trivial
  | depends hs hn hu hd =>
    refine ⟨_, _, rfl, ?_, by simp; rfl⟩
    have hmove := (Move.startScanning m k false hm hs hn hu.1 hd (fun _ => hu)
      Bool.noConfusion).moves
    exact hmove.report (.updateStatus k .isScanning) trivial

/-! ### The calls of a task -/

/-- The calls of the task of the rule `k` change nothing about the rules but the wait count
of the task. -/
def OnlyWaitCount (client : Client Key Value) (k : Key) (s s' : Engine Key Value) : Prop :=
  s'.currentEpoch = s.currentEpoch ∧ ∃ n, ∀ k', s'.ruleInfo client k' =
    if k' = k then
      (s.ruleInfo client k).setState
        ((s.ruleInfo client k).state.mapTaskInfo (fun t => { t with waitCount := n }))
    else s.ruleInfo client k'

omit [DecidableEq Value] in
theorem OnlyWaitCount.of_eq {s' : Engine Key Value} (he : s'.currentEpoch = s.currentEpoch)
    (h : ∀ k', s'.ruleInfo client k' = s.ruleInfo client k') :
  OnlyWaitCount client k s s'
  := by
  refine ⟨he, ((s.ruleInfo client k).state.taskInfo.elim 0 TaskInfo.waitCount), ?_⟩
  intro k'
  rw [h]
  split_ifs with hk
  · subst hk
    obtain ⟨signature, result, state, wasForced⟩ := s.ruleInfo client k'
    cases state <;> rfl
  · rfl

omit [DecidableEq Value] in
theorem OnlyWaitCount.trans {s' s'' : Engine Key Value}
    (h : OnlyWaitCount client k s s') (h' : OnlyWaitCount client k s' s'') :
  OnlyWaitCount client k s s''
  := by
  obtain ⟨he, n, hn⟩ := h
  obtain ⟨he', n', hn'⟩ := h'
  refine ⟨he'.trans he, n', ?_⟩
  intro k'
  rw [hn', hn, hn]
  split_ifs with hk hk'
  · cases (s.ruleInfo client k).state <;> rfl
  · exact absurd rfl hk'
  · rfl

variable (m : Moment Key Value)

theorem addTaskInputRequest_spec (k : Key) (call : TaskCall Key)
    (rest : List (Key × TaskCall Key)) (hc : m.calls = (k, call) :: rest)
    (hr : ¬ call.IsReserved) (key : Key) (inputID : UInt64) (orderOnly singleUse : Bool)
    (hcall : call.toRequest k = ⟨some k, inputID, key, orderOnly, false, singleUse⟩)
    (s : Engine Key Value)
    (hs : s = m.engine.addTaskInputRequest client k key inputID orderOnly singleUse) :
  Moves client m { m with engine := s, calls := rest } ∧ OnlyWaitCount client k m.engine s
  := by
  simp only [addTaskInputRequest] at hs
  split_ifs at hs with hwaiting
  · subst hs
    obtain ⟨t, ht⟩ := kind_eq_inProgressWaiting.mp hwaiting
    have hs : ((m.engine.getRuleInfoForKey client key).ruleInfo client k).state
        = .inProgressWaiting t := by
      rw [ruleInfo_getRuleInfoForKey, ht]
    have hlookup := getRuleInfoForKey_moves client m key
    have hmove : Move client _ _ := request
      { m with engine := m.engine.getRuleInfoForKey client key } k call rest t hc hr hs
    rw [hcall] at hmove
    rw [modifyTaskInfo_waiting client (t := t) (by exact hs)]
    constructor
    · exact hlookup.tail hmove
    · refine ⟨?_, t.waitCount + 1, ?_⟩
      · apply currentEpoch_getRuleInfoForKey
      · intro k'
        rw [ht, ruleInfo_log, ruleInfo_setState]
        rw [ruleInfo_addInputRequests, ruleInfo_addInputRequests, ruleInfo_getRuleInfoForKey,
          ruleInfo_getRuleInfoForKey]
        rfl
  · subst hs
    exact ⟨(abort m k call rest hc hwaiting).moves, .of_eq rfl (fun _ => rfl)⟩

variable (client) in
theorem taskCall_spec (m : Moment Key Value) (k : Key) (call : TaskCall Key)
    (rest : List (Key × TaskCall Key)) (hc : m.calls = (k, call) :: rest) :
  Moves client m { m with engine := m.engine.taskCall client k call, calls := rest }
    ∧ OnlyWaitCount client k m.engine (m.engine.taskCall client k call)
  := by
  have hreject (message : String) (hr : call.IsReserved) :
      Moves client m { m with engine := m.engine.errorCancel message, calls := rest }
        ∧ OnlyWaitCount client k m.engine (m.engine.errorCancel message) := by
    constructor
    · have hmove := (report m (.error message) trivial : Move client _ _).moves
      exact (hmove.tail (.cancelBuild _)).tail (.reject _ k call rest hc hr)
    · exact .of_eq rfl (fun _ => rfl)
  cases call with
  | request key inputID | requestSingleUse key inputID =>
    rw [taskCall]
    split_ifs with h
    · apply hreject _ h
    · apply addTaskInputRequest_spec m k _ rest hc h key inputID false _ rfl _ rfl
  | mustFollow key =>
    rw [taskCall]
    apply addTaskInputRequest_spec m k _ rest hc id key kMustFollowInputID true false rfl _ rfl

variable (client) in
/-- The calls a task makes in response to a callback are a sequence of moves. -/
theorem taskCalls_spec (m : Moment Key Value) (k : Key) (calls : List (TaskCall Key))
    (hc : m.calls = calls.map (k, ·)) :
  Moves client m { m with engine := calls.foldl (taskCall client k) m.engine, calls := [] }
    ∧ OnlyWaitCount client k m.engine (calls.foldl (taskCall client k) m.engine)
  := by
  induction calls generalizing m with
  | nil =>
    constructor
    · rw [List.map_nil] at hc
      rw [List.foldl_nil, ← hc]
    · exact .of_eq rfl (fun _ => rfl)
  | cons call calls ih =>
    obtain ⟨hmoves, honly⟩ := taskCall_spec client m k call _ hc
    obtain ⟨hmoves', honly'⟩ := ih
      { m with engine := m.engine.taskCall client k call, calls := calls.map (k, ·) } rfl
    exact ⟨hmoves.trans hmoves', honly.trans honly'⟩

/-! ### Demanding a rule -/

theorem startCallback_spec (k : Key) (t : TaskInfo Key Value)
    (c : Callback Key Value)
    (h : (m.engine.ruleInfo client k).state = .inProgressWaiting t)
    (hs : m.starting = some k) (hc : m.calls = [])
    (hcall : c = .start ∧ t.history = []
      ∨ c = .providePriorValue (m.engine.ruleInfo client k).result.value
        ∧ t.history = [.start]) :
  Moves client m { m with engine := m.engine.callback client k c }
    ∧ ∃ n, (m.engine.callback client k c).ruleInfo client k =
      (m.engine.ruleInfo client k).setState
        (.inProgressWaiting { t with history := t.history ++ [c], waitCount := n })
  := by
  have htask : (m.engine.ruleInfo client k).state.taskInfo = some t := by
    rw [h]
    rfl
  have hmove := (startCallback m k t c h hs hc hcall).moves
  obtain ⟨hmoves, -, n, hn⟩ := taskCalls_spec client { m with
      engine := (m.engine.setState client k
        (.inProgressWaiting { t with history := t.history ++ [c] })).log (.callback k c)
      calls := ((client.createTask k).respond (t.history ++ [c])).map (k, ·) }
    k _ rfl
  rw [callback, htask]
  rw [modifyTaskInfo_waiting client h]
  constructor
  · have hall := hmove.trans hmoves
    rw [← hc] at hall
    exact hall
  · rw [hn]
    simp [mapTaskInfo, RuleInfo.setState]

theorem readyIfNotWaiting_spec (k : Key) (t : TaskInfo Key Value)
    (h : (m.engine.ruleInfo client k).state = .inProgressWaiting t) (hs : m.starting = some k)
    (hc : m.calls = []) (ht : t.history ≠ []) :
  Moves client m { m with engine := m.engine.readyIfNotWaiting client k, starting := none }
    ∧ ((m.engine.readyIfNotWaiting client k).ruleInfo client k).IsInProgress
  := by
  have hmove := (started m k t h hs hc ht).moves
  have htask : (m.engine.ruleInfo client k).state.taskInfo = some t := by
    rw [h]
    rfl
  rw [readyIfNotWaiting, htask]
  constructor
  · exact hmove
  · left
    rw [ruleInfo_addReadyTaskInfos, RuleInfo.IsInProgressWaiting, h]
    rfl

variable (client) in
/-- The callbacks a task gets when it is started. -/
theorem start_spec (m : Moment Key Value) (k : Key) (t : TaskInfo Key Value)
    (h : (m.engine.ruleInfo client k).state = .inProgressWaiting t)
    (ht : t.history = []) (hs : m.starting = some k) (hc : m.calls = []) :
  Moves client m { m with
      engine := (m.engine.callback client k .start).readyIfNotWaiting client k
      starting := none }
    ∧ (((m.engine.callback client k .start).readyIfNotWaiting client k).ruleInfo
      client k).IsInProgress
  := by
  obtain ⟨hstart, n, hn⟩ := startCallback_spec m k t .start h hs hc (.inl ⟨rfl, ht⟩)
  obtain ⟨hready, hprogress⟩ := readyIfNotWaiting_spec
    { m with engine := m.engine.callback client k .start } k _
    (congrArg state hn) hs hc (by simp)
  exact ⟨hstart.trans hready, hprogress⟩

variable (client) in
/-- The callbacks a task gets when it is started, if there is a prior value. -/
theorem start_prior_spec (m : Moment Key Value) (k : Key) (t : TaskInfo Key Value)
    (h : (m.engine.ruleInfo client k).state = .inProgressWaiting t)
    (ht : t.history = []) (hs : m.starting = some k) (hc : m.calls = [])
    (v : Value) (hv : v = (m.engine.ruleInfo client k).result.value) :
  Moves client m { m with
      engine := ((m.engine.callback client k .start).callback client k
        (.providePriorValue v)).readyIfNotWaiting client k
      starting := none }
    ∧ ((((m.engine.callback client k .start).callback client k
        (.providePriorValue v)).readyIfNotWaiting client k).ruleInfo client k).IsInProgress
  := by
  obtain ⟨hstart, n, hn⟩ := startCallback_spec m k t .start h hs hc (.inl ⟨rfl, ht⟩)
  obtain ⟨hprior, n', hn'⟩ := startCallback_spec
    { m with engine := m.engine.callback client k .start } k _ (.providePriorValue v)
    (congrArg state hn) hs hc (.inr ⟨by rw [hv, hn]; rfl, by rw [ht]; rfl⟩)
  obtain ⟨hready, hprogress⟩ := readyIfNotWaiting_spec
    { m with
      engine := (m.engine.callback client k .start).callback client k (.providePriorValue v) }
    k _
    (congrArg state hn') hs hc (by simp)
  exact ⟨(hstart.trans hprior).trans hready, hprogress⟩

theorem startTask_spec (k : Key)
    (h : (m.engine.ruleInfo client k).state = .needsToRun) (hrest : m.IsAtRest) :
  Moves client m { m with engine := m.engine.startTask client k }
    ∧ ((m.engine.startTask client k).ruleInfo client k).IsInProgress
  := by
  obtain ⟨hs, -, hc⟩ := id hrest
  have hcreate := (createTask m k h hrest).moves
  let m₁ : Moment Key Value := { m with
    engine := (m.engine.modifyRuleInfo client k (fun r =>
      (r.setState (.inProgressWaiting ⟨[], [], 0, [], [], false⟩)).setDependencies [])).log
      (.createTask k)
    starting := some k }
  rw [startTask, hs]
  split_ifs with hprior
  · obtain ⟨hmoves, hprogress⟩ := start_prior_spec client m₁ k ⟨[], [], 0, [], [], false⟩
      (by simp [m₁]) rfl rfl hc _ (by simp [m₁]; rfl)
    exact ⟨hcreate.trans hmoves, hprogress⟩
  · obtain ⟨hmoves, hprogress⟩ := start_spec client m₁ k ⟨[], [], 0, [], [], false⟩
      (by simp [m₁]) rfl rfl hc
    exact ⟨hcreate.trans hmoves, hprogress⟩

/-- Demanding a scanned rule is a sequence of moves, after which the rule is complete, if
that is what is reported, and in progress otherwise. -/
theorem demandRule_spec (k : Key)
    (h : (m.engine.ruleInfo client k).IsScanned m.engine.currentEpoch) (hrest : m.IsAtRest) :
  ∃ b s, m.engine.demandRule client k = (b, s) ∧ Moves client m { m with engine := s }
    ∧ if b then (s.ruleInfo client k).IsComplete s.currentEpoch
      else (s.ruleInfo client k).IsInProgress
  := by
  rw [demandRule]
  split_ifs with hcomplete hprogress hnot
  · exact ⟨_, _, rfl, .refl, hcomplete⟩
  · exact ⟨_, _, rfl, .refl, hprogress⟩
  · refine ⟨_, _, rfl, ?_, ?_⟩
    · have hmove := (upToDate m k (kind_eq_doesNotNeedToRun.mp hnot)).moves
      exact hmove.report (.updateStatus k .isUpToDate) trivial
    · rw [ruleInfo_log, ruleInfo_setRuleInfo_self]
      exact ⟨rfl, rfl⟩
  · have hstate : (m.engine.ruleInfo client k).state = .needsToRun := by
      obtain hscanned | hpast := h
      · exact absurd hscanned hcomplete
      · cases hr : (m.engine.ruleInfo client k).state with
        | needsToRun => rfl
        | _ => simp_all [kind, StateKind.isPastScanning]
    obtain ⟨hmoves, hprogress⟩ := startTask_spec m k hstate hrest
    exact ⟨_, _, rfl, hmoves, hprogress⟩

/-! ### Scan requests -/

variable (q : RuleScanRequest Key)

theorem endOfInputs_spec (hq : m.scan = some q) (hi : q.inputRuleInfo = none) :
  Reaches client m { m with
    engine := (m.engine.endOfInputs client q).2, scan := (m.engine.endOfInputs client q).1 }
  := by
  rw [endOfInputs]
  split_ifs with hd hn
  · rw [← hq]
    exact .inl .refl
  all_goals
    rw [finishScanRequest]
    split
    next => exact .inr (.inl rfl)
    next record hr =>
      have hmove := (scanned m q record hq hi (not_not.mp hd) (scanRecord_eq_some.mp hr)).moves
      simp only [hn] at hmove
      exact hmove.reaches

theorem checkInput_spec (input : Key) (hq : m.scan = some q) (hi : q.inputRuleInfo = some input)
    (hc : (m.engine.ruleInfo client input).IsComplete m.engine.currentEpoch) :
  Reaches client m { m with
    engine := (m.engine.checkInput client q input).2
    scan := (m.engine.checkInput client q input).1 }
  := by
  rw [checkInput]
  split_ifs with hignore hbuilt hcheck
  · have hmove := (Move.checkInput m q input _ hq hi hc (.ignored hignore)).moves
    exact hmove.trans_reaches (endOfInputs_spec _ _ rfl rfl)
  · rw [not_or, Bool.not_eq_true, Bool.not_eq_true] at hignore
    rw [Bool.not_eq_true'] at hcheck
    rw [finishScanRequest]
    split
    next => exact .inr (.inl rfl)
    next record hr =>
      have hmove := (Move.rebuilt m q input record hq hi hc hignore.1 hignore.2 hbuilt
        (scanRecord_eq_some.mp hr) hcheck).moves
      exact (hmove.report (.determinedRuleNeedsToRun q.ruleInfo .inputRebuilt (some input))
        trivial).reaches
  · rw [not_or, Bool.not_eq_true, Bool.not_eq_true] at hignore
    rw [Bool.not_eq_true, Bool.not_eq_false'] at hcheck
    have hmove := (Move.checkInput m q input _ hq hi hc
      (.rebuilt hignore.1 hignore.2 hbuilt hcheck)).moves
    have hreport := hmove.report
      (.determinedRuleNeedsToRun q.ruleInfo .inputRebuilt (some input)) trivial
    exact hreport.trans_reaches (endOfInputs_spec _ _ rfl rfl)
  · rw [not_or, Bool.not_eq_true, Bool.not_eq_true] at hignore
    have hmove := (Move.checkInput m q input _ hq hi hc
      (.unchanged hignore.1 hignore.2 (not_lt.mp hbuilt))).moves
    rw [hignore.2]
    exact hmove.trans_reaches (endOfInputs_spec _ _ rfl rfl)

theorem scanInput_spec (input : Key)
    (hq : m.scan = some q) (hi : q.inputRuleInfo = some input) (hrest : m.IsAtRest) :
  Reaches client m { m with
    engine := (m.engine.scanInput client q input).2
    scan := (m.engine.scanInput client q input).1 }
  := by
  obtain ⟨b, s, hscan, hmoves, hspec⟩ := scanRule_spec client m input (.inr ⟨q, hq, hi⟩)
  rw [scanInput, hscan]
  cases b with
  | false =>
    apply hmoves.trans_reaches
    simp only [Bool.not_false, ↓reduceIte, deferOnScan, modifyScanRecord]
    split
    next => exact .inr (.inl rfl)
    next record hr =>
      exact (Move.deferOnScan { m with engine := s } q input record hq hi
        (scanRecord_eq_some.mp hr)).moves.reaches
  | true =>
    apply hmoves.trans_reaches
    obtain ⟨b, s', hdemand, hmoves', hspec'⟩ :=
      demandRule_spec { m with engine := s } input hspec hrest
    simp only
    rw [hdemand]
    apply hmoves'.trans_reaches
    cases b with
    | false =>
      exact (Move.deferOnTask { m with engine := s' } q input hq hi hspec').moves.reaches
    | true =>
      exact checkInput_spec { m with engine := s' } q input hq hi hspec'

variable (client) in
/-- Processing a scan request is a sequence of moves. -/
theorem processRuleScanRequest_spec (m : Moment Key Value) (q : RuleScanRequest Key)
    (hq : m.scan = some q) (hrest : m.IsAtRest) :
  Reaches client m { m with
    engine := (m.engine.processRuleScanRequest client q).2
    scan := (m.engine.processRuleScanRequest client q).1 }
  := by
  rw [processRuleScanRequest]
  split
  next input hi => exact scanInput_spec m q input hq hi hrest
  next hi =>
    split
    next => exact .inr (.inr rfl)
    next d hd =>
      split_ifs with hskip
      · rw [Bool.and_eq_true, Bool.not_eq_true'] at hskip
        have hmove := (skipInput m q d hq hi hskip.1 hd hskip.2).moves
        exact hmove.trans_reaches (endOfInputs_spec _ _ rfl hi)
      · have hlookup := getRuleInfoForKey_moves client m d.key
        have hmove := hlookup.tail (.considerInput _ q d hq hi
          (by rw [ruleInfo_getRuleInfoForKey, hd]))
        exact Moves.trans_reaches hmove (scanInput_spec _ _ d.key rfl rfl hrest)

/-! ### Input requests -/

variable (r : TaskInputRequest Key)

/-- Processing an input request is a sequence of moves. -/
theorem processInputRequest_spec (hr : m.input = some r) (hrest : m.IsAtRest) :
  Reaches client m { m with engine := m.engine.processInputRequest client r, input := none }
  := by
  obtain ⟨b, s, hscan, hmoves, hspec⟩ := scanRule_spec client m r.inputRuleInfo
    (.inl ⟨r, hr, rfl⟩)
  rw [processInputRequest, hscan]
  apply hmoves.trans_reaches
  cases b with
  | false =>
    simp only [Bool.not_false, ↓reduceIte, pauseInputRequest, modifyScanRecord]
    split
    next => exact .inr (.inl rfl)
    next record hrecord =>
      exact (pauseInput { m with engine := s } r record hr
        (scanRecord_eq_some.mp hrecord)).moves.reaches
  | true =>
    obtain ⟨b, s', hdemand, hmoves', hspec'⟩ :=
      demandRule_spec { m with engine := s } r.inputRuleInfo hspec hrest
    simp only [Bool.not_true, Bool.false_eq_true, ↓reduceIte]
    rw [hdemand]
    apply hmoves'.trans_reaches
    have hcomplete_or : (s'.ruleInfo client r.inputRuleInfo).IsComplete s'.currentEpoch
        ∨ (s'.ruleInfo client r.inputRuleInfo).IsInProgress := by
      cases b
      · exact .inr hspec'
      · exact .inl hspec'
    split
    next ht =>
      exact (dropInput { m with engine := s' } r hr ht hcomplete_or).moves.reaches
    next k ht =>
      cases b with
      | false =>
        exact (recordPending { m with engine := s' } r k hr ht hspec').moves.reaches
      | true =>
        exact (recordAvailable { m with engine := s' } r k hr ht hspec').moves.reaches

/-! ### Finished input requests -/

theorem decrementTaskWaitCount_spec (k : Key)
    (t : TaskInfo Key Value) (ha : m.answering = some r) (hc : m.calls = [])
    (hk : r.taskInfo = some k) (h : (m.engine.ruleInfo client k).state.taskInfo = some t) :
  Moves client m
    { m with engine := m.engine.decrementTaskWaitCount client k, answering := none }
  := by
  have hmove := (decrement m r k t ha hc hk h).moves
  have htask := taskInfo_mapTaskInfo h (fun t => { t with waitCount := t.waitCount - 1 })
  rw [decrementTaskWaitCount, readyIfNotWaiting, modifyTaskInfo, ruleInfo_setState_self,
    setState_state, htask]
  exact hmove

/-- The calls a task makes in response to an answer, and the end of the answer. -/
theorem answerCalls_spec (k : Key)
    (calls : List (TaskCall Key)) (ha : m.answering = some r) (hc : m.calls = calls.map (k, ·))
    (hk : r.taskInfo = some k) (h : ∃ t, (m.engine.ruleInfo client k).state.taskInfo = some t) :
  Moves client m { m with
    engine := (calls.foldl (taskCall client k) m.engine).decrementTaskWaitCount client k
    answering := none
    calls := [] }
  := by
  obtain ⟨t, ht⟩ := h
  obtain ⟨hcalls, -, n, honly⟩ := taskCalls_spec client m k calls hc
  refine hcalls.trans (decrementTaskWaitCount_spec _ r k { t with waitCount := n } ha rfl hk ?_)
  rw [honly, if_pos rfl, setState_state, taskInfo_mapTaskInfo ht]

/-- Answering a request of a task in progress is a sequence of moves. -/
theorem processFinishedInputRequest_spec
    (rest : List (TaskInputRequest Key)) (k : Key)
    (hr : m.engine.finishedInputRequests = r :: rest) (hrest : m.IsAtRest)
    (hk : r.taskInfo = some k) (h : (m.engine.ruleInfo client k).IsInProgress) :
  Moves client m { m with
    engine := (m.engine.setFinishedInputRequests rest).processFinishedInputRequest client r }
  := by
  obtain ⟨t, ht⟩ := taskInfo_of_isInProgress h
  obtain ⟨-, ha, hc⟩ := id hrest
  rw [processFinishedInputRequest, hk]
  dsimp only
  split_ifs with ho
  · have hmove := (answerOrderOnly m r rest k hrest hr hk ho : Move client _ _).moves
    rw [ha]
    exact hmove.trans (decrementTaskWaitCount_spec _ r k t rfl hc hk ht)
  · rw [Bool.not_eq_true] at ho
    have hmove := (answer m r rest k t _ hrest hr hk ho rfl ht).moves
    have hlog : (((m.engine.setFinishedInputRequests rest).log (.answered r
        (some (m.engine.ruleInfo client r.inputRuleInfo).result.value))).ruleInfo client k)
          = m.engine.ruleInfo client k := rfl
    rw [callback, ruleInfo_setFinishedInputRequests, hlog, ht, ha, hc]
    refine hmove.trans (answerCalls_spec _ r k _ rfl rfl hk ?_)
    use { t with history := t.history ++ [.provideValue r.inputID r.inputRuleInfo
      (m.engine.ruleInfo client r.inputRuleInfo).result.value] }
    rw [ruleInfo_log, modifyTaskInfo, ruleInfo_setState_self, setState_state, hlog,
      taskInfo_mapTaskInfo ht]

end Engine

end LLBuild

import LLBuild.Core.Ledger
import LLBuild.Core.Requests

/-!
# The life of the tasks

Most moves of the engine leave the ledger of the build as it is; the others are the moves
of the ledger, as long as the ledger is balanced.  So the ledger is balanced in every state
of a build.
-/

namespace LLBuild

open Function

open RequestProperty

open Stage

open RuleState

open Event

open RuleInfo

variable {Key Value : Type}

/-- The stage a rule is in, in the build `epoch`. -/
def RuleInfo.stage (epoch : ℕ) (r : RuleInfo Key Value) : Stage :=
  match r.state with
  | .inProgressWaiting t => .waiting t.waitCount t.reported
  | .inProgressComputing t => .computing t.reported
  | .complete => if r.result.builtAt = epoch then .complete else .idle
  | _ => .idle

variable {r : RuleInfo Key Value} {epoch : ℕ} {t : TaskInfo Key Value}

theorem RuleInfo.state_of_isWaiting
    (h : (r.stage epoch).isWaiting = true) (ht : r.state.taskInfo = some t) :
  r.state = .inProgressWaiting t
  := by
  obtain hstate | hstate := taskInfo_eq_some.mp ht
  · exact hstate
  · rw [stage, hstate] at h
    exact absurd h (by simp [isWaiting])

theorem RuleInfo.state_of_isComputing
    (h : (r.stage epoch).isComputing = true) (ht : r.state.taskInfo = some t) :
  r.state = .inProgressComputing t
  := by
  obtain hstate | hstate := taskInfo_eq_some.mp ht
  · rw [stage, hstate] at h
    exact absurd h (by simp [isComputing])
  · exact hstate

/-- The task of a rule was created. -/
def Event.isCreateTask [DecidableEq Key] (k : Key) : Event Key Value → Bool
  | createTask k' => k' = k
  | _ => false

/-- The task of a rule was told that its inputs are available. -/
def Event.isInputsAvailable [DecidableEq Key] (k : Key) : Event Key Value → Bool
  | callback k' .inputsAvailable => k' = k
  | _ => false

/-- The requests made by the task of a rule. -/
def RequestProperty.ofTask [DecidableEq Key] (k : Key) : RequestProperty Key where
  holds := fun r => r.taskInfo = some k
  dummy := by
    intro r hr
    simp [hr]
  forced := fun _ _ => rfl

/-- A rule the build has not touched keeps its stage when its scan begins or ends. -/
theorem RuleInfo.stage_of_not_isScanned (hs : ¬ r.IsScanned epoch) (hn : ¬ r.IsScanning) :
  .idle = r.stage epoch
  := by
  rw [stage]
  obtain h | h := state_of_not_isScanned hs hn
  · rw [h]
  · rw [h]
    rw [if_neg]
    intro hb
    exact hs (Or.inl ⟨by rw [h]; rfl, hb⟩)

variable [LinearOrder Key] [Inhabited Value]
variable {client : Client Key Value}

namespace Engine

/-- The number of rules whose task is computing. -/
def computing (s : Engine Key Value) : ℕ :=
  s.sum (fun state => if state.kind = .inProgressComputing then 1 else 0)

omit [LinearOrder Key] [Inhabited Value] in
theorem kind_eq_inProgressComputing_iff (epoch : ℕ) (r : RuleInfo Key Value) :
  r.state.kind = .inProgressComputing ↔ (r.stage epoch).isComputing
  := by
  rw [stage]
  cases r.state with
  | complete =>
    by_cases h : r.result.builtAt = epoch <;> simp [h, kind, isComputing]
  | _ => simp [kind, isComputing]

variable (client) in
theorem computing_modifyRuleInfo (s : Engine Key Value) (k : Key)
    (f : RuleInfo Key Value → RuleInfo Key Value) :
  (s.modifyRuleInfo client k f).computing
      + (if (s.ruleInfo client k).state.kind = .inProgressComputing then 1 else 0)
    = s.computing
      + (if (f (s.ruleInfo client k)).state.kind = .inProgressComputing then 1 else 0)
  := sum_modifyRuleInfo client
    (if ·.kind = .inProgressComputing then 1 else 0) rfl s k f

/-- The rules are in the same stages. -/
structure SameStages (client : Client Key Value) (s s' : Engine Key Value) : Prop where
  stage : ∀ k, (s'.ruleInfo client k).stage s'.currentEpoch
    = (s.ruleInfo client k).stage s.currentEpoch
  computing : s'.computing = s.computing

variable (client) in
theorem SameStages.modifyRuleInfo (s : Engine Key Value) (k : Key)
    (f : RuleInfo Key Value → RuleInfo Key Value)
    (h : (f (s.ruleInfo client k)).stage s.currentEpoch
      = (s.ruleInfo client k).stage s.currentEpoch) :
  SameStages client s (s.modifyRuleInfo client k f)
  := by
  constructor
  · intro k'
    rw [ruleInfo_modifyRuleInfo]
    split_ifs with hk
    · rw [hk]
      exact h
    · rfl
  · have hc := computing_modifyRuleInfo client s k f
    have hiff : (f (s.ruleInfo client k)).state.kind = .inProgressComputing
        ↔ (s.ruleInfo client k).state.kind = .inProgressComputing := by
      rw [kind_eq_inProgressComputing_iff s.currentEpoch, h, ← kind_eq_inProgressComputing_iff]
    simp only [hiff] at hc
    omega

theorem SameStages.trans {s s' s'' : Engine Key Value} (h : SameStages client s s')
    (h' : SameStages client s' s'') :
  SameStages client s s''
  := ⟨fun k => (h'.stage k).trans (h.stage k), h'.computing.trans h.computing⟩

variable (client) in
theorem SameStages.modifyTaskInfo (s : Engine Key Value) (k : Key)
    (f : TaskInfo Key Value → TaskInfo Key Value) (hw : ∀ t, (f t).waitCount = t.waitCount)
    (hr : ∀ t, (f t).reported = t.reported) :
  SameStages client s (s.modifyTaskInfo client k f)
  := by
  apply SameStages.modifyRuleInfo
  rw [RuleInfo.stage, RuleInfo.stage]
  simp only [RuleInfo.setState_state, RuleInfo.setState_result]
  cases (s.ruleInfo client k).state <;> simp [mapTaskInfo, hw, hr]

variable (client) in
theorem SameStages.recordDependency (s : Engine Key Value) (k : Key) (r : TaskInputRequest Key) :
  SameStages client s (s.recordDependency client k r)
  := .modifyRuleInfo client s k _ rfl

end Engine

variable [DecidableEq Value]

namespace Moment

/-- The ledger of a build. -/
@[simps]
def ledger (client : Client Key Value) (m : Moment Key Value) : Ledger Key where
  stage := fun k => (m.engine.ruleInfo client k).stage m.engine.currentEpoch
  computing := m.engine.computing
  outstanding := m.engine.numOutstandingUnfinishedTasks
  unanswered := fun k => m.onTheirWay (.ofTask k)
  ready := m.engine.readyTaskInfos
  finished := m.engine.finishedTaskInfos
  starting := m.starting
  answering := m.answering.bind TaskInputRequest.taskInfo
  callers := m.calls.map Prod.fst
  created := fun k => m.engine.events.countP (isCreateTask k)
  available := fun k => m.engine.events.countP (isInputsAvailable k)

end Moment

omit [LinearOrder Key] in
theorem Moment.callers_eq (k : Key) (calls : List (TaskCall Key)) :
  ∀ c ∈ (calls.map (k, ·)).map Prod.fst, c = k
  := by
  simp

open Moment

variable {m m' : Moment Key Value}

section

variable (h : Move client m m')
include h

/-- The requests of a task that are unanswered after a move. -/
theorem Move.onTheirWay_eq
    (hmade : ∀ p, m'.engine.made p = m.engine.made p := by exact fun _ => rfl)
    (hanswered : ∀ p, m'.engine.answered p = m.engine.answered p := by exact fun _ => rfl) :
  (fun k => m'.onTheirWay (.ofTask k)) = fun k => m.onTheirWay (.ofTask k)
  := by
  funext k
  have hc := h.conservation (.ofTask k)
  rw [hmade, hanswered] at hc
  omega

/-- A move that changes neither the stages of the rules nor the queues of the tasks. -/
theorem Move.ledger_eq
    (hsame : m.engine.SameStages client m'.engine)
    (hevents : m'.engine.events = m.engine.events := by rfl)
    (houtstanding : m'.engine.numOutstandingUnfinishedTasks
      = m.engine.numOutstandingUnfinishedTasks := by rfl)
    (hready : m'.engine.readyTaskInfos = m.engine.readyTaskInfos := by rfl)
    (hfinished : m'.engine.finishedTaskInfos = m.engine.finishedTaskInfos := by rfl)
    (hstarting : m'.starting = m.starting := by rfl)
    (hanswering : m'.answering = m.answering := by rfl) (hcalls : m'.calls = m.calls := by rfl) :
  m'.ledger client = m.ledger client
  := by
  apply Ledger.ext
  · exact funext hsame.stage
  · exact hsame.computing
  · exact houtstanding
  · refine h.onTheirWay_eq ?_ ?_
    · intro p
      simp only [Engine.made, hevents]
    · intro p
      simp only [Engine.answered, hevents]
  · exact hready
  · exact hfinished
  · exact hstarting
  · simp only [ledger_answering, hanswering]
  · simp only [ledger_callers, hcalls]
  · funext k
    simp only [ledger_created, hevents]
  · funext k
    simp only [ledger_available, hevents]

/-- One request of a task less is unanswered after a move that answers it. -/
theorem Move.onTheirWay_answer
    (r : TaskInputRequest Key) (k : Key) (hk : r.taskInfo = some k)
    (hmade : m'.engine.events.filterMap madeRequest
      = m.engine.events.filterMap madeRequest)
    (hanswered : m'.engine.events.filterMap answeredRequest
      = r :: m.engine.events.filterMap answeredRequest) :
  ∃ n, m.onTheirWay (.ofTask k) = n + 1
    ∧ (fun k' => m'.onTheirWay (.ofTask k'))
      = update (fun k' => m.onTheirWay (.ofTask k')) k n
  := by
  have hc (k' : Key) := h.conservation (.ofTask k')
  simp only [Engine.made, hmade, Engine.answered, hanswered, List.countP_cons] at hc
  refine ⟨m'.onTheirWay (.ofTask k), ?_, ?_⟩
  · have hck := hc k
    simp only [ofTask, hk, decide_true, if_true] at hck ⊢
    omega
  · funext k'
    rw [update_apply]
    split_ifs with hk'
    · rw [hk']
    · have hck := hc k'
      have hne : ¬ (some k = some k') := fun he => hk' (Option.some.inj he).symm
      simp only [ofTask, hk, hne] at hck ⊢
      simpa using hck

end

/-- One rule enters a stage. -/
structure Engine.SetsStage (client : Client Key Value) (s s' : Engine Key Value) (k : Key)
    (entered : Stage) : Prop where
  stage : (fun k' => (s'.ruleInfo client k').stage s'.currentEpoch)
    = update (fun k' => (s.ruleInfo client k').stage s.currentEpoch) k entered
  computing : s'.computing
      + (if ((s.ruleInfo client k).stage s.currentEpoch).isComputing then 1 else 0)
    = s.computing + (if entered.isComputing then 1 else 0)

omit [DecidableEq Value] in
variable (client) in
theorem Engine.SetsStage.modifyRuleInfo (s : Engine Key Value) (k : Key)
    (f : RuleInfo Key Value → RuleInfo Key Value) (stage : Stage)
    (h : (f (s.ruleInfo client k)).stage s.currentEpoch = stage) :
  SetsStage client s (s.modifyRuleInfo client k f) k stage
  := by
  constructor
  · funext k'
    rw [ruleInfo_modifyRuleInfo, update_apply, ← h]
    split_ifs with hk
    · rfl
    · rfl
  · have hc := computing_modifyRuleInfo client s k f
    simpa only [kind_eq_inProgressComputing_iff s.currentEpoch, h] using hc

omit [DecidableEq Value] in
theorem Engine.SetsStage.computing_eq {s s' : Engine Key Value} {k : Key} {entered : Stage}
    (h : SetsStage client s s' k entered)
    (hsame : ((s.ruleInfo client k).stage s.currentEpoch).isComputing = entered.isComputing) :
  s'.computing = s.computing
  := by
  have hc := h.computing
  rw [hsame] at hc
  exact Nat.add_right_cancel hc

/-- A move is a move of the ledger, or leaves it as it is. -/
theorem Move.ledger (hb : (m.ledger client).Balanced) (h : Move client m m') :
  m'.ledger client = m.ledger client ∨ Ledger.Move (m.ledger client) (m'.ledger client)
  := by
  have hmove := h
  cases h with
  | report event he =>
    left
    have hcreate (k : Key) : event.isCreateTask k = false := by
      cases event <;> first | exact he.elim | rfl
    have havailable (k : Key) : event.isInputsAvailable k = false := by
      cases event <;> first | exact he.elim | rfl
    apply Ledger.ext <;> try rfl
    · funext k
      simp [hcreate]
    · funext k
      simp [havailable]
  | lookup k =>
    left
    refine hmove.ledger_eq ?_
    exact .modifyRuleInfo client m.engine k _ rfl
  | store db h =>
    refine .inl (hmove.ledger_eq ⟨fun k => ?_, rfl⟩)
    rw [h]
    rfl
  | needsToRun k hm hs hn | doesNotNeedToRun k hm hs hn =>
    left
    refine hmove.ledger_eq ?_
    dsimp only
    apply Engine.SameStages.modifyRuleInfo
    exact stage_of_not_isScanned hs hn
  | startScanning k b hm hs hn =>
    have hsame := Engine.SameStages.modifyRuleInfo client m.engine k
      (fun r => r.prepared.setState (.isScanning (some ⟨[], []⟩)))
      (stage_of_not_isScanned hs hn)
    exact .inl (hmove.ledger_eq ⟨hsame.1, hsame.2⟩)
  | upToDate k h =>
    right
    have hidle : (m.ledger client).stage k = .idle := by simp [stage, h]
    have hsets := Engine.SetsStage.modifyRuleInfo client m.engine k
      (setComplete m.engine.currentEpoch) .complete (by simp [stage])
    refine (Ledger.Move.upToDate (m.ledger client) k hidle).congr ?_
    apply Ledger.ext <;> try rfl
    · exact hsets.stage
    · exact hsets.computing_eq (by simp [stage, h, isComputing])
    · exact hmove.onTheirWay_eq
  | createTask k h hrest =>
    right
    have hidle : (m.ledger client).stage k = .idle := by simp [stage, h]
    have hsets := Engine.SetsStage.modifyRuleInfo client m.engine k (fun r =>
      (r.setState (.inProgressWaiting ⟨[], [], 0, [], [], false⟩)).setDependencies [])
      (.waiting 0 false) rfl
    refine (Ledger.Move.create (m.ledger client) k hidle hrest.1 (by simp [hrest.2.1])
      (by simp [hrest.2.2])).congr ?_
    apply Ledger.ext <;> try rfl
    · exact hsets.stage
    · exact hsets.computing_eq (by simp [stage, h, isComputing])
    · exact hmove.onTheirWay_eq
    · funext k'
      by_cases hk : k' = k <;> simp [isCreateTask, hk, eq_comm (a := k)]
  | startCallback k t c h hs hc hcall =>
    right
    have hsame := Engine.SameStages.modifyRuleInfo client m.engine k
      (setState (.inProgressWaiting { t with history := t.history ++ [c] }))
      (by simp [stage, h])
    refine (Ledger.Move.start (m.ledger client) k _ hs (by simp [hc])
      (callers_eq k ((client.createTask k).respond (t.history ++ [c])))).congr ?_
    apply Ledger.ext <;> try rfl
    · exact funext hsame.stage
    · exact hsame.computing
    · exact hmove.onTheirWay_eq
    · funext k'
      obtain ⟨rfl, -⟩ | ⟨rfl, -⟩ := hcall <;> simp [isInputsAvailable]
  | request k call rest t hc hr h =>
    right
    have hsets := Engine.SetsStage.modifyRuleInfo client m.engine k
      (setState (.inProgressWaiting { t with waitCount := t.waitCount + 1 }))
      (.waiting (t.waitCount + 1) t.reported) rfl
    refine (Ledger.Move.request (m.ledger client) k (rest.map Prod.fst) t.waitCount t.reported
      (by simp [hc]) (by simp [stage, h])).congr ?_
    apply Ledger.ext <;> try rfl
    · exact hsets.stage
    · exact hsets.computing_eq (by simp [stage, h, isComputing])
    · funext k'
      have hcons := hmove.conservation (.ofTask k')
      have htask : (call.toRequest k).taskInfo = some k := by cases call <;> rfl
      by_cases hk : k' = k
      all_goals
        simp [Engine.made, Engine.answered, madeRequest, answeredRequest,
          List.filterMap_cons, ofTask, htask, hk, eq_comm (a := k)] at hcons ⊢
        omega
  | reject k call rest hc hr | abort k call rest hc h =>
    right
    refine (Ledger.Move.reject (m.ledger client) k (rest.map Prod.fst) (by simp [hc])).congr ?_
    rfl
  | started k t h hs hc ht =>
    right
    refine (Ledger.Move.started (m.ledger client) k t.waitCount t.reported
      (by simp [stage, h]) hs (by simp [hc])).congr ?_
    rfl
  | deferOnScan q k record hq hi h | pauseInput r record hr h =>
    left
    refine hmove.ledger_eq ?_
    apply Engine.SameStages.modifyRuleInfo
    simp [stage, h]
  | deferOnTask q input hq hi h =>
    left
    refine hmove.ledger_eq ?_
    exact .modifyTaskInfo client m.engine input _ (fun _ => rfl) (fun _ => rfl)
  | scanned q record hq hi hd h =>
    have hsame := Engine.SameStages.modifyRuleInfo client m.engine q.ruleInfo
      (setState (if q.needsToRun then .needsToRun else .doesNotNeedToRun))
      (by cases q.needsToRun <;> simp [stage, h])
    exact .inl (hmove.ledger_eq ⟨hsame.1, hsame.2⟩)
  | rebuilt q input record hq hi hc ho hn hbuilt h =>
    have hsame := Engine.SameStages.modifyRuleInfo client m.engine q.ruleInfo
      (setState .needsToRun) (by simp [stage, h])
    exact .inl (hmove.ledger_eq ⟨hsame.1, hsame.2⟩)
  | takeInput r rest h hr | dropInput r hr ht h | requestDiscovered d rest hd =>
    exact .inl (hmove.ledger_eq ⟨fun _ => rfl, rfl⟩)
  | recordAvailable r k hr ht h =>
    have hsame := Engine.SameStages.recordDependency client m.engine k r
    exact .inl (hmove.ledger_eq ⟨hsame.1, hsame.2⟩)
  | recordPending r k hr ht h =>
    have hsame := (Engine.SameStages.recordDependency client m.engine k r).trans
      (Engine.SameStages.modifyTaskInfo client _ r.inputRuleInfo (fun t =>
        { t with requestedBy := t.requestedBy ++ [r] }) (fun _ => rfl) (fun _ => rfl))
    exact .inl (hmove.ledger_eq hsame)
  | answer r rest k t c hrest hr hk ho hv h =>
    right
    have hsame := Engine.SameStages.modifyTaskInfo client
      ((m.engine.setFinishedInputRequests rest).log (.answered r
        (some (m.engine.ruleInfo client r.inputRuleInfo).result.value))) k
      (fun t => { t with history := t.history ++ [c] }) (fun _ => rfl) (fun _ => rfl)
    obtain ⟨n, hn, hunanswered⟩ := hmove.onTheirWay_answer r k hk rfl rfl
    refine (Ledger.Move.answer (m.ledger client) k _ n hrest.1 (by simp [hrest.2.1])
      (by simp [hrest.2.2]) hn
        (callers_eq k ((client.createTask k).respond (t.history ++ [c])))).congr ?_
    apply Ledger.ext <;> try rfl
    · exact funext hsame.stage
    · exact hsame.computing
    · exact hunanswered
    · simp [hk]
    · funext k'
      simp [isInputsAvailable, hv]
  | answerOrderOnly r rest k hrest hr hk ho =>
    right
    obtain ⟨n, hn, hunanswered⟩ := hmove.onTheirWay_answer r k hk rfl rfl
    refine (Ledger.Move.answer (m.ledger client) k [] n hrest.1 (by simp [hrest.2.1])
      (by simp [hrest.2.2]) hn (by simp)).congr ?_
    apply Ledger.ext <;> try rfl
    · exact hunanswered
    · simp [hk]
    · simp [hrest.2.2]
  | decrement r k t ha hc hk h =>
    right
    have hstage := hb.isWaiting_of_answering k (by simp [ha, hk])
    have hstate := state_of_isWaiting hstage h
    have hsets := Engine.SetsStage.modifyRuleInfo client m.engine k
      (setState ((m.engine.ruleInfo client k).state.mapTaskInfo
        (fun t => { t with waitCount := t.waitCount - 1 })))
      (.waiting (t.waitCount - 1) t.reported)
      (by simp [stage, hstate, mapTaskInfo])
    refine (Ledger.Move.decrement (m.ledger client) k t.waitCount t.reported (by simp [ha, hk])
      (by simp [hc]) (by simp [stage, hstate])).congr ?_
    apply Ledger.ext <;> try rfl
    · exact hsets.stage
    · exact hsets.computing_eq (by simp [stage, hstate, isComputing])
    · exact hmove.onTheirWay_eq
  | compute k rest t hk hrest hf h =>
    right
    have hstage := hb.isWaiting_of_ready k (by simp [hk])
    have hstate := state_of_isWaiting hstage h
    have hsets := Engine.SetsStage.modifyRuleInfo client (m.engine.setReadyTaskInfos rest) k
      (setState (.inProgressComputing
        { t with history := t.history ++ [.inputsAvailable] })) (.computing t.reported) rfl
    refine (Ledger.Move.compute (m.ledger client) k rest _ t.waitCount t.reported hk
      (by simp [hrest.2.2]) (by simp [stage, hstate]) (callers_eq k
        ((client.createTask k).respond (t.history ++ [.inputsAvailable])))).congr ?_
    apply Ledger.ext <;> try rfl
    · exact hsets.stage
    · have hcomputing := hsets.computing
      simp only [Engine.ruleInfo_setReadyTaskInfos, stage, hstate] at hcomputing
      exact hcomputing
    · exact hmove.onTheirWay_eq
    · funext k'
      by_cases hk : k' = k <;> simp [isInputsAvailable, hk, eq_comm (a := k)]
  | reportValue k t h hr c hc =>
    right
    have hsets := Engine.SetsStage.modifyRuleInfo client m.engine k (fun r =>
      (r.setValue m.engine.currentEpoch c.value c.forceChange).setState
        (.inProgressComputing (t.report c))) (.computing true) rfl
    refine (Ledger.Move.report (m.ledger client) k (by simp [stage, h, hr])).congr ?_
    apply Ledger.ext <;> try rfl
    · exact hsets.stage
    · exact hsets.computing_eq (by simp [stage, h, isComputing])
    · exact hmove.onTheirWay_eq
  | completeRule k rest t hk hd h =>
    right
    have hstage := hb.isComputing_of_finished k (by simp [hk])
    have hstate := state_of_isComputing hstage h
    have hsets := Engine.SetsStage.modifyRuleInfo client (m.engine.setFinishedTaskInfos rest) k
      (fun r => (r.setComplete m.engine.currentEpoch).setDependencies
        (r.result.dependencies ++ t.discoveredDependencies)) .complete
      (by simp [stage])
    refine (Ledger.Move.complete (m.ledger client) k rest t.reported hk
      (by simp [stage, hstate])).congr ?_
    apply Ledger.ext <;> try rfl
    · exact hsets.stage
    · have hcomputing := hsets.computing
      simp only [Engine.ruleInfo_setFinishedTaskInfos, stage, hstate] at hcomputing
      exact Nat.eq_sub_of_add_eq hcomputing
    · exact hmove.onTheirWay_eq
  | forceBuild k record hstuck h =>
    have hsame := Engine.SameStages.modifyRuleInfo client m.engine k
      (fun r => (r.setState .needsToRun).setWasForced true) (by simp [stage, h])
    exact .inl (hmove.ledger_eq ⟨hsame.1, hsame.2⟩)
  | supplyPriorValue k r t hstuck h hbuilt hr =>
    have hsame := Engine.SameStages.modifyRuleInfo client m.engine k
      (setState (.inProgressWaiting { t with requestedBy := t.requestedBy.erase r }))
      (by simp [stage, h])
    exact .inl (hmove.ledger_eq ⟨hsame.1, hsame.2⟩)
  | _ => exact Or.inl rfl

end LLBuild

import LLBuild.Core.Build
import LLBuild.Core.Tasks

/-!
# What holds in every state of a build

A request that is kept with a rule is a request for this rule, and the ledger of a build is
balanced.  Both hold when a build starts, since nothing is left of the builds before, and
are kept by every move; so what is kept by the moves of a build holds in every state the
build passes through before it is cancelled.
-/

namespace LLBuild

open List

open RuleInfo

variable {Key Value : Type}

/-- The requests that wait for the task of a rule are requests for it, made by tasks. -/
def TaskInfo.Located (k : Key) (t : TaskInfo Key Value) : Prop :=
  (∀ r ∈ t.requestedBy, r.taskInfo.isSome ∧ r.inputRuleInfo = k)
    ∧ ∀ q ∈ t.deferredScanRequests, q.inputRuleInfo = some k

/-- The requests that are kept with a rule are requests for it. -/
def RuleState.Located (k : Key) : RuleState Key Value → Prop
  | isScanning (some record) =>
      (∀ r ∈ record.pausedInputRequests, r.inputRuleInfo = k)
        ∧ ∀ q ∈ record.deferredScanRequests, q.inputRuleInfo = some k
  | inProgressWaiting t => t.Located k
  | inProgressComputing t => t.Located k
  | _ => True

variable {k : Key}

theorem RuleState.Located.of_taskInfo {s : RuleState Key Value}
    {t : TaskInfo Key Value} (h : s.Located k) (ht : s.taskInfo = some t) :
  t.Located k
  := by
  obtain rfl | rfl := RuleState.taskInfo_eq_some.mp ht
  · exact h
  · exact h

theorem RuleState.Located.mapTaskInfo {s : RuleState Key Value}
    (h : s.Located k) (f : TaskInfo Key Value → TaskInfo Key Value)
    (hf : ∀ t, s.taskInfo = some t → (f t).Located k) :
  (s.mapTaskInfo f).Located k
  := by
  cases s with
  | inProgressWaiting t => exact hf t rfl
  | inProgressComputing t => exact hf t rfl
  | _ => exact h

variable [LinearOrder Key] [Inhabited Value]
variable {client : Client Key Value} {s : Engine Key Value}

/-- What holds of each rule still does if one rule is changed and it holds of the new one. -/
theorem Engine.forall_modifyRuleInfo {P : Key → RuleInfo Key Value → Prop}
    (h : ∀ k, P k (s.ruleInfo client k)) (k : Key)
    (f : RuleInfo Key Value → RuleInfo Key Value) (hf : P k (f (s.ruleInfo client k))) :
  ∀ k', P k' ((s.modifyRuleInfo client k f).ruleInfo client k')
  := by
  intro k'
  rw [ruleInfo_modifyRuleInfo]
  split_ifs with hk
  · rw [hk]
    exact hf
  · exact h k'

/-- The requests kept with the rules are where they belong. -/
def Engine.Located (client : Client Key Value) (s : Engine Key Value) : Prop :=
  ∀ k, (s.ruleInfo client k).state.Located k

theorem Engine.Located.setState (h : s.Located client) (k : Key)
    (f : RuleInfo Key Value → RuleInfo Key Value) (hf : (f (s.ruleInfo client k)).state.Located k) :
  (s.modifyRuleInfo client k f).Located client
  := forall_modifyRuleInfo (P := fun k r => r.state.Located k) h k f hf

theorem Engine.Located.of_state (h : s.Located client)
    {state : RuleState Key Value} (hs : (s.ruleInfo client k).state = state) :
  state.Located k
  := hs ▸ h k

variable {m m' : Moment Key Value}

variable [DecidableEq Value] in
theorem Move.located (hl : m.engine.Located client) (h : Move client m m') :
  m'.engine.Located client
  := by
  cases h with
  | lookup k => exact hl.setState k id (hl k)
  | store db h =>
    intro k
    rw [h]
    exact hl k
  | needsToRun k hm hs hn hu | doesNotNeedToRun k hm hs hn hu hd | upToDate k h =>
    exact hl.setState k _ trivial
  | startScanning k b hm hs hn hb hd hu hc =>
    exact hl.setState k (fun r => r.prepared.setState (.isScanning (some ⟨[], []⟩)))
      ⟨by simp, by simp⟩
  | createTask k h hrest =>
    exact hl.setState k (fun r =>
      (r.setState (.inProgressWaiting ⟨[], [], 0, [], [], false⟩)).setDependencies [])
      ⟨by simp, by simp⟩
  | startCallback k t c h | request k call rest t hc hr h =>
    have ht : t.Located k := hl.of_state h
    exact hl.setState k _ ht
  | reportValue k t h hr c hc =>
    have ht : t.Located k := hl.of_state h
    exact hl.setState k (fun r => (r.setValue m.engine.currentEpoch c.value
      c.forceChange).setState (.inProgressComputing (t.report c))) ht
  | deferOnScan q input record hq hi h =>
    obtain ⟨hpaused, hdeferred⟩ := hl.of_state h
    refine hl.setState input (setState (.isScanning (some
      { record with deferredScanRequests := record.deferredScanRequests ++ [q] })))
      ⟨hpaused, ?_⟩
    intro q' hq'
    obtain hq' | hq' := mem_append.mp hq'
    · exact hdeferred q' hq'
    · rw [mem_singleton.mp hq', hi]
  | deferOnTask q input hq hi h =>
    refine hl.setState input _ ((hl input).mapTaskInfo _ ?_)
    intro t ht
    obtain ⟨hrequested, hdeferred⟩ := (hl input).of_taskInfo ht
    refine ⟨hrequested, ?_⟩
    intro q' hq'
    obtain hq' | hq' := mem_append.mp hq'
    · exact hdeferred q' hq'
    · rw [mem_singleton.mp hq', hi]
  | scanned q record hq hi hd h =>
    refine hl.setState q.ruleInfo (setState
      (if q.needsToRun then .needsToRun else .doesNotNeedToRun)) ?_
    split_ifs
    · trivial
    · trivial
  | rebuilt q input record hq hi hc ho hn hb h =>
    exact hl.setState q.ruleInfo (setState .needsToRun) trivial
  | pauseInput r record hr h =>
    obtain ⟨hpaused, hdeferred⟩ := hl.of_state h
    refine hl.setState r.inputRuleInfo (setState (.isScanning (some
      { record with pausedInputRequests := record.pausedInputRequests ++ [r] })))
      ⟨?_, hdeferred⟩
    intro r' hr'
    obtain hr' | hr' := mem_append.mp hr'
    · exact hpaused r' hr'
    · rw [mem_singleton.mp hr']
  | recordAvailable r k hr ht h => exact hl.setState k _ (hl k)
  | recordPending r k hr ht h =>
    have hl' : (m.engine.recordDependency client k r).Located client := hl.setState k _ (hl k)
    refine hl'.setState r.inputRuleInfo _ ((hl' r.inputRuleInfo).mapTaskInfo _ ?_)
    intro t ht'
    obtain ⟨hrequested, hdeferred⟩ := (hl' r.inputRuleInfo).of_taskInfo ht'
    refine ⟨?_, hdeferred⟩
    intro r' hr'
    obtain hr' | hr' := mem_append.mp hr'
    · exact hrequested r' hr'
    · rw [mem_singleton.mp hr', ht]
      exact ⟨rfl, rfl⟩
  | answer r rest k t c hrest hr hk ho hv h | decrement r k t ha hc hk h =>
    exact hl.setState k _ ((hl k).mapTaskInfo _ (fun t ht => (hl k).of_taskInfo (t := t) ht))
  | compute k rest t hk hrest hf h =>
    have ht := (hl k).of_taskInfo h
    exact hl.setState k (setState (.inProgressComputing
      { t with history := t.history ++ [.inputsAvailable] })) ht
  | completeRule k rest t hk hd h =>
    exact hl.setState k (fun r => (r.setComplete m.engine.currentEpoch).setDependencies
      (r.result.dependencies ++ t.discoveredDependencies)) trivial
  | forceBuild k record hstuck h =>
    exact hl.setState k (fun r => (r.setState .needsToRun).setWasForced true) trivial
  | supplyPriorValue k r t hstuck h hb hr =>
    obtain ⟨hrequested, hdeferred⟩ := hl.of_state h
    exact hl.setState k (setState (.inProgressWaiting
      { t with requestedBy := t.requestedBy.erase r }))
      ⟨fun r' hr' => hrequested r' (mem_of_mem_erase hr'), hdeferred⟩
  | _ => exact hl

variable [DecidableEq Value] in
theorem Move.currentEpoch (h : Move client m m') :
  m'.engine.currentEpoch = m.engine.currentEpoch
  := by
  cases h <;> rfl

/-- No rule is complete in a build that is still to come. -/
def Engine.Timely (client : Client Key Value) (s : Engine Key Value) : Prop :=
  ∀ k, (s.ruleInfo client k).state.kind = .complete →
    (s.ruleInfo client k).result.builtAt ≤ s.currentEpoch

theorem Engine.Timely.modifyRuleInfo (h : s.Timely client) (k : Key)
    (f : RuleInfo Key Value → RuleInfo Key Value)
    (hf : (f (s.ruleInfo client k)).state.kind = .complete →
      (f (s.ruleInfo client k)).result.builtAt ≤ s.currentEpoch) :
  (s.modifyRuleInfo client k f).Timely client
  := forall_modifyRuleInfo (P := fun _ r =>
      r.state.kind = .complete → r.result.builtAt ≤ s.currentEpoch) h k f hf

theorem Engine.Timely.modifyTaskInfo (h : s.Timely client) (k : Key)
    (f : TaskInfo Key Value → TaskInfo Key Value) :
  (s.modifyTaskInfo client k f).Timely client
  := by
  refine h.modifyRuleInfo k _ ?_
  have hk := h k
  cases hstate : (s.ruleInfo client k).state with
  | complete =>
    rw [hstate] at hk
    exact hk
  | _ => exact nofun

variable [DecidableEq Value] in
theorem Move.timely (ht : m.engine.Timely client) (h : Move client m m') :
  m'.engine.Timely client
  := by
  cases h with
  | lookup k => exact ht.modifyRuleInfo k id (ht k)
  | store db h =>
    intro k
    rw [h]
    exact ht k
  | needsToRun k | doesNotNeedToRun k => exact ht.modifyRuleInfo k (fun r => .setState _ _) nofun
  | startScanning k b hm hs hn hb hd hu hc =>
    exact ht.modifyRuleInfo k (fun r => r.prepared.setState (.isScanning (some ⟨[], []⟩))) nofun
  | upToDate k h =>
    exact ht.modifyRuleInfo k (setComplete m.engine.currentEpoch) (fun _ => le_rfl)
  | createTask k h hrest =>
    exact ht.modifyRuleInfo k (fun r =>
      (r.setState (.inProgressWaiting ⟨[], [], 0, [], [], false⟩)).setDependencies []) nofun
  | startCallback k | request k | deferOnScan q k | compute k | supplyPriorValue k =>
    exact ht.modifyRuleInfo k (setState _) nofun
  | deferOnTask q input hq hi h => exact ht.modifyTaskInfo input _
  | scanned q record hq hi hd h =>
    refine ht.modifyRuleInfo q.ruleInfo (setState
      (if q.needsToRun then .needsToRun else .doesNotNeedToRun)) ?_
    split_ifs
    · exact nofun
    · exact nofun
  | rebuilt q input record hq hi hc ho hn hb h =>
    exact ht.modifyRuleInfo q.ruleInfo (setState .needsToRun) nofun
  | pauseInput r => exact ht.modifyRuleInfo r.inputRuleInfo (setState _) nofun
  | recordAvailable r k hr htask h => exact ht.modifyRuleInfo k _ (ht k)
  | recordPending r k hr htask h =>
    have ht' : (m.engine.recordDependency client k r).Timely client :=
      ht.modifyRuleInfo k _ (ht k)
    exact ht'.modifyTaskInfo r.inputRuleInfo _
  | answer r rest k t c hrest hr hk ho hv h | decrement r k t ha hc hk h =>
    exact ht.modifyTaskInfo k _
  | reportValue k t h hr c hc =>
    exact ht.modifyRuleInfo k (fun r =>
      (r.setValue m.engine.currentEpoch c.value c.forceChange).setState
        (.inProgressComputing (t.report c))) nofun
  | completeRule k rest t hk hd h =>
    exact ht.modifyRuleInfo k (fun r => (r.setComplete m.engine.currentEpoch).setDependencies
      (r.result.dependencies ++ t.discoveredDependencies)) (fun _ => le_rfl)
  | forceBuild k record hstuck h =>
    exact ht.modifyRuleInfo k (fun r => (r.setState .needsToRun).setWasForced true) nofun
  | _ => exact ht

/-! ### Sound states -/

/-- What holds of the engine at every moment of a build. -/
structure Moment.Sound (client : Client Key Value) (m : Moment Key Value) : Prop where
  balanced : (m.ledger client).Balanced
  located : m.engine.Located client
  timely : m.engine.Timely client
  fromTasks : ∀ r ∈ m.engine.finishedInputRequests, r.taskInfo.isSome

variable [DecidableEq Value] in
theorem Moment.Sound.move (hs : m.Sound client) (h : Move client m m') :
  m'.Sound client
  := by
  refine ⟨?_, h.located hs.located, h.timely hs.timely, ?_⟩
  · obtain hl | hl := h.ledger hs.balanced
    · rw [hl]
      exact hs.balanced
    · exact hs.balanced.move hl
  · have hf := hs.fromTasks
    cases h with
    | recordAvailable r k hr ht h =>
      intro r' hr'
      obtain hr' | hr' := mem_append.mp hr'
      · rw [mem_singleton.mp (mem_reverse.mp hr'), ht]
        rfl
      · exact hf r' hr'
    | answer r rest k t c hrest hr hk ho hv h | answerOrderOnly r rest k hrest hr hk ho =>
      intro r' hr'
      exact hf r' (by rw [hr]; exact mem_cons_of_mem r hr')
    | completeRule k rest t hk hd h =>
      intro r' hr'
      obtain hr' | hr' := mem_append.mp hr'
      · exact (((hs.located k).of_taskInfo h).1 r' (mem_reverse.mp hr')).1
      · exact hf r' hr'
    | supplyPriorValue k r t hstuck h hb hr =>
      intro r' hr'
      obtain hr' | hr' := mem_append.mp hr'
      · have ht : t.Located k := hs.located.of_state h
        rw [mem_singleton.mp (mem_reverse.mp hr')]
        exact (ht.1 r hr).1
      · exact hf r' hr'
    | _ => exact hf

/-- The requests on their way are requests of tasks that wait for them. -/
theorem Moment.Sound.isWaiting (hs : m.Sound client) (h : 0 < m.onTheirWay (.ofTask k)) :
  ((m.ledger client).stage k).isWaiting = true
  := by
  have hw := hs.balanced.waitCount k
  have hu : (m.ledger client).unanswered k = m.onTheirWay (.ofTask k) := rfl
  exact Stage.isWaiting_of_waitCount (by omega)

omit [LinearOrder Key] [Inhabited Value] in
theorem RuleInfo.isInProgressWaiting_of_stage {epoch : ℕ} {r : RuleInfo Key Value}
    (h : (r.stage epoch).isWaiting = true) :
  r.IsInProgressWaiting
  := by
  rw [RuleInfo.IsInProgressWaiting]
  rw [stage] at h
  cases hs : r.state with
  | inProgressWaiting t => rfl
  | complete =>
    rw [hs] at h
    split_ifs at h
    · cases h
    · cases h
  | _ =>
    rw [hs] at h
    cases h

omit [LinearOrder Key] [Inhabited Value] in
theorem RuleInfo.isInProgressComputing_of_stage {epoch : ℕ} {r : RuleInfo Key Value}
    (h : (r.stage epoch).isComputing = true) :
  r.IsInProgressComputing
  := (Engine.kind_eq_inProgressComputing_iff epoch r).mpr h

omit [Inhabited Value] in
theorem Moment.mem_finished_onTheirWay {r : TaskInputRequest Key}
    (hr : r ∈ m.engine.finishedInputRequests) (hk : r.taskInfo = some k) :
  0 < m.onTheirWay (.ofTask k)
  := by
  have hpos : 0 < m.engine.finishedInputRequests.countP (RequestProperty.ofTask k).holds :=
    countP_pos_iff.mpr ⟨r, hr, by simp [RequestProperty.ofTask, hk]⟩
  rw [Moment.onTheirWay]
  omega

theorem Moment.Sound.tasksInProgress (hs : m.Sound client) :
  m.engine.TasksInProgress client
  := by
  constructor
  · intro r hr
    obtain ⟨k, hk⟩ := Option.isSome_iff_exists.mp (hs.fromTasks r hr)
    have hwaiting := hs.isWaiting (Moment.mem_finished_onTheirWay hr hk)
    exact ⟨k, hk, .inl (isInProgressWaiting_of_stage hwaiting)⟩
  · intro k hk
    have hwaiting := hs.balanced.isWaiting_of_ready k hk
    exact .inl (isInProgressWaiting_of_stage hwaiting)
  · intro k hk
    have hcomputing := hs.balanced.isComputing_of_finished k hk
    exact .inr (isInProgressComputing_of_stage hcomputing)

/-! ### The start of a build -/

/-- The states a rule can be left in between builds. -/
def RuleState.IsQuiet : RuleState Key Value → Prop
  | isScanning (some _) => False
  | inProgressWaiting _ => False
  | inProgressComputing _ => False
  | _ => True

/-- Nothing is left of the builds before. -/
structure Engine.Quiet (s : Engine Key Value) : Prop where
  inputRequests : s.inputRequests = []
  ruleInfosToScan : s.ruleInfosToScan = []
  readyTaskInfos : s.readyTaskInfos = []
  finishedTaskInfos : s.finishedTaskInfos = []
  numOutstandingUnfinishedTasks : s.numOutstandingUnfinishedTasks = 0
  trap : s.trap = none
  state : ∀ k r, s.ruleInfos.lookup k = some r → r.state.IsQuiet
  builtAt : ∀ k r, s.ruleInfos.lookup k = some r → r.state.kind = .complete →
    r.result.builtAt ≤ s.currentEpoch

namespace Engine

/-- The engine as it opens a build: the number of the build is incremented, and the key is
about to be requested. -/
def opening (key : Key) (s : Engine Key Value) : Moment Key Value :=
  ⟨{ s with currentEpoch := s.currentEpoch + 1, events := [], finishedInputRequests := [] },
    none, none, none, none, [], [⟨key, false, false⟩]⟩

variable [DecidableEq Value] in
theorem opening_moves (key : Key) (s : Engine Key Value) :
  Moves client (s.opening key) (Execution.start client key s).moment
  := by
  have hlookup := getRuleInfoForKey_moves client (s.opening key) key
  exact hlookup.tail (.requestDiscovered _ ⟨key, false, false⟩ [] rfl)

variable (client) in
theorem Quiet.ruleInfo (hq : s.Quiet) (k : Key) :
  (s.ruleInfo client k).state.IsQuiet
    ∧ ((s.ruleInfo client k).state.kind = .complete →
      (s.ruleInfo client k).result.builtAt ≤ s.currentEpoch)
  := by
  rw [Engine.ruleInfo]
  cases h : s.ruleInfos.lookup k with
  | none =>
    constructor
    · trivial
    · intro hkind
      cases hkind
  | some r => exact ⟨hq.state k r h, hq.builtAt k r h⟩

section

variable (hq : s.Quiet)
include hq

theorem Quiet.stage (k : Key) :
  (s.ruleInfo client k).stage (s.currentEpoch + 1) = .idle
  := by
  obtain ⟨hstate, hbuilt⟩ := hq.ruleInfo client k
  rw [RuleInfo.stage]
  cases h : (s.ruleInfo client k).state with
  | inProgressWaiting t | inProgressComputing t =>
    rw [h] at hstate
    exact hstate.elim
  | complete =>
    rw [h] at hbuilt
    have := hbuilt rfl
    rw [if_neg (by omega)]
  | _ => rfl

omit [Inhabited Value] in
/-- What is zero for the states a rule can be left in adds up to zero. -/
theorem Quiet.sum {M : Type} [AddCommMonoid M]
    {g : RuleState Key Value → M} (hg : ∀ state, state.IsQuiet → g state = 0) :
  s.sum g = 0
  := Table.total_of_eq_zero (fun k r hr => hg r.state (hq.state k r hr))

omit [Inhabited Value] in
theorem Quiet.held (p : RequestProperty Key) :
  s.sum (RuleState.countRequests p) = 0
  := by
  apply hq.sum
  intro state hstate
  cases state with
  | isScanning record =>
    cases record with
    | none => rfl
    | some record => exact hstate.elim
  | inProgressWaiting | inProgressComputing => exact hstate.elim
  | _ => rfl

omit [Inhabited Value] in
theorem Quiet.computing :
  s.computing = 0
  := by
  apply hq.sum
  intro state hstate
  cases state with
  | inProgressComputing t => exact hstate.elim
  | _ => rfl

theorem Quiet.located :
  s.Located client
  := by
  intro k
  obtain ⟨hstate, -⟩ := hq.ruleInfo client k
  cases h : (s.ruleInfo client k).state with
  | isScanning record =>
    rw [h] at hstate
    cases record with
    | none => trivial
    | some record => exact hstate.elim
  | inProgressWaiting t | inProgressComputing t =>
    rw [h] at hstate
    exact hstate.elim
  | _ => trivial

omit [Inhabited Value] in
theorem Quiet.onTheirWay (key : Key) (p : RequestProperty Key) :
  (s.opening key).onTheirWay p = 0
  := by
  have hheld : (s.opening key).engine.sum (RuleState.countRequests p) = 0 := hq.held p
  have hinput : (s.opening key).engine.inputRequests = [] := hq.inputRequests
  rw [Moment.onTheirWay, hheld, hinput]
  rfl

theorem Quiet.sound (key : Key) :
  (s.opening key).Sound client
  := by
  refine ⟨?_, hq.located, ?_, nofun⟩
  · have hstage (k : Key) : ((s.opening key).ledger client).stage k = .idle := hq.stage k
    have hunanswered (k : Key) : ((s.opening key).ledger client).unanswered k = 0 :=
      hq.onTheirWay key (.ofTask k)
    have hready : ((s.opening key).ledger client).ready = [] := hq.readyTaskInfos
    have hfinished : ((s.opening key).ledger client).finished = [] := hq.finishedTaskInfos
    have houtstanding : ((s.opening key).ledger client).outstanding = 0 :=
      hq.numOutstandingUnfinishedTasks
    have hcomputing : ((s.opening key).ledger client).computing = 0 := hq.computing
    have hcreated (k : Key) : ((s.opening key).ledger client).created k = 0 := rfl
    have havailable (k : Key) : ((s.opening key).ledger client).available k = 0 := rfl
    constructor
    · intro k
      rw [hstage, hunanswered]
      rfl
    · intro k n b h
      rw [hstage] at h
      cases h
    · rw [houtstanding, hcomputing]
    · intro k
      rw [hready, hstage]
      rfl
    · intro k
      rw [hfinished, hstage]
      rfl
    · exact nofun
    · exact .inl rfl
    · exact nofun
    · intro k
      rw [hstage]
      rfl
    · intro k
      rw [hcreated]
      exact Nat.zero_le 1
    · intro k _
      exact hcreated k
    · intro k h
      rw [hstage] at h
      cases h
  · intro k hkind
    have := (hq.ruleInfo client k).2 hkind
    exact Nat.le_succ_of_le this

end

end Engine

end LLBuild

import LLBuild.Core.Accounting
import LLBuild.Core.Changes
import LLBuild.Core.Creations
import LLBuild.Core.Schedule

/-!
# Checks before running

A rule may want some of its dependencies checked before it runs, even if it is going to run
anyway.  The scan of such a rule goes on to the end, and skips the dependencies that need not
be checked: when the rule is found to need to run, each dependency it wants checked has been
brought up to date by the build.
-/

namespace LLBuild

open Execution

open Option

open Event

open RuleState

open RuleInfo

open List

variable {Key Value : Type}

/-- The scan requests that are kept with a rule in the state. -/
def RuleState.deferred : RuleState Key Value → List (RuleScanRequest Key)
  | isScanning (some record) => record.deferredScanRequests
  | inProgressWaiting t => t.deferredScanRequests
  | inProgressComputing t => t.deferredScanRequests
  | _ => []

variable {f : TaskInfo Key Value → TaskInfo Key Value}

theorem RuleState.deferred_mapTaskInfo (state : RuleState Key Value)
    (hf : ∀ t, (f t).deferredScanRequests = t.deferredScanRequests) :
  (state.mapTaskInfo f).deferred = state.deferred
  := by
  cases state with
  | inProgressWaiting t => exact hf t
  | inProgressComputing t => exact hf t
  | _ => rfl

theorem RuleState.deferred_of_taskInfo {state : RuleState Key Value} {t : TaskInfo Key Value}
    (h : state.taskInfo = some t) :
  state.deferred = t.deferredScanRequests
  := by
  obtain rfl | rfl := taskInfo_eq_some.mp h
  · rfl
  · rfl

variable [LinearOrder Key] [Inhabited Value]
variable {client : Client Key Value}

/-! ### The scan requests -/

/-- The scan request is on the stack, in hand or deferred. -/
def Moment.HasScan (client : Client Key Value) (m : Moment Key Value)
    (q : RuleScanRequest Key) : Prop :=
  q ∈ m.engine.ruleInfosToScan ∨ m.scan = some q
    ∨ ∃ k, q ∈ (m.engine.ruleInfo client k).state.deferred

/-- Where a scan request after a move comes from. -/
inductive Moment.ScanOrigin (client : Client Key Value) (m m' : Moment Key Value) :
    RuleScanRequest Key → Prop
  /-- It was there before. -/
  | held (q : RuleScanRequest Key) (h : m.HasScan client q) : ScanOrigin client m m' q
  /-- The scan of a rule begins. -/
  | started (k : Key) (b : Bool) (hk : (m'.engine.ruleInfo client k).IsScanning) :
      ScanOrigin client m m' ⟨k, 0, none, false, false, b⟩
  /-- The next input of a rule is considered. -/
  | considered (q : RuleScanRequest Key) (d : Dependency Key) (hq : m.scan = some q)
      (hd : (m.engine.ruleInfo client q.ruleInfo).result.dependencies[q.inputIndex]? = some d) :
      ScanOrigin client m m' { q with
        inputRuleInfo := some d.key, orderOnly := d.orderOnly, singleUse := d.singleUse }
  /-- An input that need not be checked is skipped. -/
  | skipped (q : RuleScanRequest Key) (d : Dependency Key) (hq : m.scan = some q)
      (hi : q.inputRuleInfo = none)
      (hd : (m.engine.ruleInfo client q.ruleInfo).result.dependencies[q.inputIndex]? = some d)
      (hm : client.mustCheckDependencyBeforeRunning q.ruleInfo d.key = false) :
      ScanOrigin client m m' { q with inputIndex := q.inputIndex + 1 }
  /-- An input is available. -/
  | checked (q : RuleScanRequest Key) (input : Key) (b : Bool) (hq : m.scan = some q)
      (hi : q.inputRuleInfo = some input)
      (hc : (m.engine.ruleInfo client input).IsComplete m.engine.currentEpoch) :
      ScanOrigin client m m' (Engine.nextInput q b)

namespace Engine

/-- A change of a rule that defers no scan request. -/
theorem deferred_modifyRuleInfo {s : Engine Key Value} {j : Key}
    {f : RuleInfo Key Value → RuleInfo Key Value}
    (hf : (f (s.ruleInfo client j)).state.deferred ⊆ (s.ruleInfo client j).state.deferred)
    (k : Key) :
  ((s.modifyRuleInfo client j f).ruleInfo client k).state.deferred
    ⊆ (s.ruleInfo client k).state.deferred
  := by
  rw [ruleInfo_modifyRuleInfo]
  split_ifs with hk
  · rw [hk]
    exact hf
  · exact .refl _

variable (client) in
theorem deferred_modifyTaskInfo (s : Engine Key Value) (j : Key)
    (hf : ∀ t, (f t).deferredScanRequests = t.deferredScanRequests) (k : Key) :
  ((s.modifyTaskInfo client j f).ruleInfo client k).state.deferred
    ⊆ (s.ruleInfo client k).state.deferred
  := by
  apply deferred_modifyRuleInfo
  rw [setState_state, deferred_mapTaskInfo _ hf]
  exact .refl _

end Engine

variable {m m' : Moment Key Value}

variable [DecidableEq Value]

theorem Move.scanOrigin (h : Move client m m')
    {q : RuleScanRequest Key} (hq : m'.HasScan client q) :
  m.ScanOrigin client m' q
  := by
  have hkeep (hstack : ∀ q ∈ m'.engine.ruleInfosToScan, m.HasScan client q)
      (hscan : ∀ q, m'.scan = some q → m.ScanOrigin client m' q)
      (hdeferred : ∀ k, (m'.engine.ruleInfo client k).state.deferred
        ⊆ (m.engine.ruleInfo client k).state.deferred) : m.ScanOrigin client m' q := by
    obtain hq | hq | ⟨k, hq⟩ := hq
    · exact .held q (hstack q hq)
    · exact hscan q hq
    · exact .held q (.inr (.inr ⟨k, hdeferred k hq⟩))
  have hrules (hstack : m'.engine.ruleInfosToScan = m.engine.ruleInfosToScan)
      (hscan : m'.scan = m.scan)
      (hdeferred : ∀ k, (m'.engine.ruleInfo client k).state.deferred
        ⊆ (m.engine.ruleInfo client k).state.deferred) : m.ScanOrigin client m' q := by
    refine hkeep ?_ ?_ hdeferred
    · intro q hq
      rw [hstack] at hq
      exact .inl hq
    · intro q hq
      rw [hscan] at hq
      exact .held q (.inr (.inl hq))
  -- the scans that wait for a rule go back to the stack
  have hwake (j : Key) (requests : List (RuleScanRequest Key))
      (hj : requests ⊆ (m.engine.ruleInfo client j).state.deferred) :
      ∀ q ∈ requests.reverse ++ m.engine.ruleInfosToScan, m.HasScan client q := by
    intro q hq
    obtain hq | hq := mem_append.mp hq
    · exact .inr (.inr ⟨j, hj (mem_reverse.mp hq)⟩)
    · exact .inl hq
  cases h with
  | lookup j | recordAvailable r j hr hj h =>
    exact hrules rfl rfl (Engine.deferred_modifyRuleInfo (.refl _))
  | store db h => exact hrules rfl rfl (fun k => by rw [h]; exact .refl _)
  | needsToRun j hm hs hn hu hc | doesNotNeedToRun j hm hs hn hu hd =>
    exact hrules rfl rfl (Engine.deferred_modifyRuleInfo (nil_subset _))
  | startScanning j b hm hs hn hb hd hu hc =>
    obtain hq | hq | ⟨k, hq⟩ := hq
    · obtain hq | hq := mem_append.mp hq
      · rw [mem_singleton.mp (mem_reverse.mp hq)]
        exact .started j b (by simp; rfl)
      · exact .held q (.inl hq)
    · exact .held q (.inr (.inl hq))
    · exact .held q (.inr (.inr ⟨k, Engine.deferred_modifyRuleInfo (f := fun r =>
        r.prepared.setState (.isScanning (some ⟨[], []⟩))) (nil_subset _) k hq⟩))
  | upToDate j h => exact hrules rfl rfl (Engine.deferred_modifyRuleInfo (nil_subset _))
  | createTask j h hrest =>
    exact hrules rfl rfl (Engine.deferred_modifyRuleInfo (f := fun r =>
      (r.setState (.inProgressWaiting ⟨[], [], 0, [], [], false⟩)).setDependencies [])
      (nil_subset _))
  | startCallback j t c h hs hc hcall | request j call rest t hc hr h | pauseInput r record hr h =>
    exact hrules rfl rfl (Engine.deferred_modifyRuleInfo (by rw [h]; exact .refl _))
  | takeScan q' rest h hq' hs =>
    refine hkeep ?_ ?_ (fun _ => .refl _)
    · intro q hq
      exact .inl (by rw [hq']; exact .tail _ hq)
    · intro q hq
      cases hq
      exact .held _ (.inl (by rw [hq']; exact .head _))
  | dropScan q' rest h hq' hs =>
    refine hkeep ?_ (fun q hq => .held q (.inr (.inl hq))) (fun _ => .refl _)
    intro q hq
    exact .inl (by rw [hq']; exact .tail _ hq)
  | considerInput q' d hq' hi hd =>
    refine hkeep (fun _ => .inl) ?_ (fun _ => .refl _)
    rintro _ ⟨⟩
    exact .considered q' d hq' hd
  | skipInput q' d hq' hi hn hd hm =>
    refine hkeep (fun _ => .inl) ?_ (fun _ => .refl _)
    rintro _ ⟨⟩
    exact .skipped q' d hq' hi hd hm
  | checkInput q' input b hq' hi hc hb =>
    refine hkeep (fun _ => .inl) ?_ (fun _ => .refl _)
    rintro _ ⟨⟩
    exact .checked q' input b hq' hi hc
  | deferOnScan q' input record hq' hi h =>
    obtain hq | hq | ⟨k, hq⟩ := hq
    · exact .held q (.inl hq)
    · cases hq
    · rw [Engine.ruleInfo_setState] at hq
      split_ifs at hq with hk
      · obtain hq | hq := mem_append.mp hq
        · exact .held q (.inr (.inr ⟨input, by rw [h]; exact hq⟩))
        · rw [mem_singleton.mp hq]
          exact .held q' (.inr (.inl hq'))
      · exact .held q (.inr (.inr ⟨k, hq⟩))
  | deferOnTask q' input hq' hi h =>
    obtain hq | hq | ⟨k, hq⟩ := hq
    · exact .held q (.inl hq)
    · cases hq
    · obtain ⟨t, ht⟩ := isInProgress_iff.mp h
      rw [Engine.deferOnTask, Engine.modifyTaskInfo, Engine.ruleInfo_setState] at hq
      split_ifs at hq with hk
      · rw [setState_state, deferred_of_taskInfo (taskInfo_mapTaskInfo ht _)] at hq
        obtain hq | hq := mem_append.mp hq
        · exact .held q (.inr (.inr ⟨input, by
            rw [deferred_of_taskInfo ht]; exact hq⟩))
        · rw [mem_singleton.mp hq]
          exact .held q' (.inr (.inl hq'))
      · exact .held q (.inr (.inr ⟨k, hq⟩))
  | scanned q' record hq' hi hd h =>
    refine hkeep (hwake q'.ruleInfo _ (by rw [h]; exact .refl _)) (by rintro _ ⟨⟩)
      (Engine.deferred_modifyRuleInfo
        (f := setState (if q'.needsToRun then .needsToRun else .doesNotNeedToRun)) ?_)
    cases q'.needsToRun <;> exact nil_subset _
  | rebuilt q' input record hq' hi hc ho hn hb h hk =>
    exact hkeep (hwake q'.ruleInfo _ (by rw [h]; exact List.Subset.refl _)) (by rintro _ ⟨⟩)
      (Engine.deferred_modifyRuleInfo (f := setState .needsToRun) (nil_subset _))
  | recordPending r j hr hj h =>
    refine hrules rfl rfl (fun k => ?_)
    have hpending := Engine.deferred_modifyTaskInfo client (m.engine.recordDependency client j r)
      r.inputRuleInfo (f := fun t => { t with requestedBy := t.requestedBy ++ [r] })
      (fun _ => rfl) k
    rw [Engine.state_recordDependency] at hpending
    exact hpending
  | answer r rest j t c hrest hr hj ho hv h | decrement r j t ha hc hj h =>
    exact hrules rfl rfl (Engine.deferred_modifyTaskInfo client _ j (fun _ => rfl))
  | compute j rest t hj hrest hf h =>
    refine hrules rfl rfl (Engine.deferred_modifyRuleInfo (f := setState
      (.inProgressComputing { t with history := t.history ++ [.inputsAvailable] })) ?_)
    rw [Engine.ruleInfo_setReadyTaskInfos, deferred_of_taskInfo h]
    exact .refl _
  | reportValue j t h hr c hc =>
    refine hrules rfl rfl (Engine.deferred_modifyRuleInfo (f := fun r =>
      (r.setValue m.engine.currentEpoch c.value c.forceChange).setState
        (.inProgressComputing (t.report c))) ?_)
    rw [h]
    exact .refl _
  | completeRule j rest t hj hd h =>
    refine hkeep (hwake j t.deferredScanRequests ?_) (fun q hq => .held q (.inr (.inl hq)))
      (Engine.deferred_modifyRuleInfo (f := fun r => .setDependencies _ _) (nil_subset _))
    rw [deferred_of_taskInfo h]
    exact .refl _
  | forceBuild j record hstuck h =>
    exact hkeep (hwake j _ (by rw [h]; exact .refl _))
      (fun q hq => .held q (.inr (.inl hq))) (Engine.deferred_modifyRuleInfo
        (f := fun r => (r.setState .needsToRun).setWasForced true) (nil_subset _))
  | supplyPriorValue j r t hstuck h hb hr =>
    refine hrules rfl rfl (Engine.deferred_modifyRuleInfo (f := setState
      (.inProgressWaiting { t with requestedBy := t.requestedBy.erase r })) ?_)
    rw [Engine.ruleInfo_addFinishedInputRequests, h]
    exact .refl _
  | _ => exact hrules rfl rfl (fun _ => .refl _)

/-! ### The dependencies that were checked -/

/-- Every dependency before the one the scan request considers that must be checked is
complete, and the input it considers is the next dependency. -/
structure Moment.Covers (client : Client Key Value) (m : Moment Key Value)
    (q : RuleScanRequest Key) : Prop where
  input : ∀ input, q.inputRuleInfo = some input →
    ∃ d, (m.engine.ruleInfo client q.ruleInfo).result.dependencies[q.inputIndex]? = some d
      ∧ d.key = input
  complete : ∀ i d, i < q.inputIndex →
    (m.engine.ruleInfo client q.ruleInfo).result.dependencies[i]? = some d →
      client.mustCheckDependencyBeforeRunning q.ruleInfo d.key = true →
        (m.engine.ruleInfo client d.key).IsComplete m.engine.currentEpoch

/-- What holds of the scan of the rule `k` at every moment of a build that opened in the
state `s₀`. -/
structure Moment.Checks (client : Client Key Value) (s₀ : Engine Key Value) (k : Key)
    (m : Moment Key Value) : Prop where
  touched : ∀ q, m.HasScan client q → q.ruleInfo = k →
    (m.engine.ruleInfo client k).IsScanned m.engine.currentEpoch
      ∨ (m.engine.ruleInfo client k).IsScanning
  prepared : ((m.engine.ruleInfo client k).state = .needsToRun
      ∨ ∃ record, (m.engine.ruleInfo client k).state = .isScanning (some record)) →
    (m.engine.ruleInfo client k).result = (s₀.ruleInfo client k).prepared.result
  covers : ∀ q, m.HasScan client q → q.ruleInfo = k →
    (∃ record, (m.engine.ruleInfo client k).state = .isScanning (some record)) →
      m.Covers client q
  needsToRun : (m.engine.ruleInfo client k).state = .needsToRun →
    (m.engine.ruleInfo client k).wasForced = false →
      (m.engine.ruleInfo client k).result.builtAt ≠ 0 →
        client.checksDependenciesBeforeRunning k = true →
          ∀ d ∈ (m.engine.ruleInfo client k).result.dependencies,
            client.mustCheckDependencyBeforeRunning k d.key = true →
              (m.engine.ruleInfo client d.key).IsComplete m.engine.currentEpoch

theorem Moment.Sound.isComplete_move (hs : m.Sound client) (h : Move client m m') {k : Key}
    (hk : (m.engine.ruleInfo client k).IsComplete m.engine.currentEpoch) :
  (m'.engine.ruleInfo client k).IsComplete m'.engine.currentEpoch
  := isComplete_iff_stage.mpr (hs.stage_complete h (isComplete_iff_stage.mp hk))

/-- The scan of a rule whose dependencies stay as they are goes on. -/
theorem Moment.Covers.move {q : RuleScanRequest Key}
    (hs : m.Sound client) (h : Move client m m') (hq : m.ScanOrigin client m' q)
    (hresult : (m'.engine.ruleInfo client q.ruleInfo).result
      = (m.engine.ruleInfo client q.ruleInfo).result)
    (hc : ∀ q₀, m.HasScan client q₀ → q₀.ruleInfo = q.ruleInfo → m.Covers client q₀) :
  m'.Covers client q
  := by
  cases hq with
  | held q hheld =>
    obtain ⟨hinput, hcomplete⟩ := hc q hheld rfl
    constructor
    · rw [hresult]
      exact hinput
    · rw [hresult]
      intro i d hi hd hmust
      exact hs.isComplete_move h (hcomplete i d hi hd hmust)
  | started k b hk => exact ⟨nofun, fun i d hi => absurd hi (Nat.not_lt_zero i)⟩
  | considered q d hq hd =>
    obtain ⟨-, hcomplete⟩ := hc q (.inr (.inl hq)) rfl
    constructor
    · rintro _ ⟨rfl⟩
      exact ⟨d, by rw [hresult]; exact hd, rfl⟩
    · rw [hresult]
      intro i d hi hd hmust
      exact hs.isComplete_move h (hcomplete i d hi hd hmust)
  | skipped q d hq hi hd hm =>
    obtain ⟨-, hcomplete⟩ := hc q (.inr (.inl hq)) rfl
    constructor
    · intro input hinput
      rw [hi] at hinput
      cases hinput
    · rw [hresult]
      intro i d' hlt hd' hmust
      obtain hlt | rfl := Nat.lt_succ_iff_lt_or_eq.mp hlt
      · exact hs.isComplete_move h (hcomplete i d' hlt hd' hmust)
      · obtain rfl := some.inj (hd.symm.trans hd')
        rw [hm] at hmust
        cases hmust
  | checked q input b hq hi hcomplete =>
    obtain ⟨hinput, hbefore⟩ := hc q (.inr (.inl hq)) rfl
    refine ⟨nofun, ?_⟩
    rw [hresult]
    intro i d' hlt hd' hmust
    obtain hlt | rfl := Nat.lt_succ_iff_lt_or_eq.mp hlt
    · exact hs.isComplete_move h (hbefore i d' hlt hd' hmust)
    · obtain ⟨d, hd, rfl⟩ := hinput input hi
      obtain rfl := some.inj (hd.symm.trans hd')
      exact hs.isComplete_move h hcomplete

/-- A rule the build has looked at stays one. -/
theorem Moment.Sound.touched_move (hs : m.Sound client)
    (h : Move client m m') {k : Key}
    (hk : (m.engine.ruleInfo client k).IsScanned m.engine.currentEpoch
      ∨ (m.engine.ruleInfo client k).IsScanning) :
  (m'.engine.ruleInfo client k).IsScanned m'.engine.currentEpoch
    ∨ (m'.engine.ruleInfo client k).IsScanning
  := by
  rw [h.currentEpoch]
  cases h.ruleChange hs k with
  | same hsame =>
    rw [hsame]
    exact hk
  | scheduled state hs' hn hstate hrule => exact absurd hk (not_or.mpr ⟨hs', hn⟩)
  | suspended record record' hstate hrule =>
    rw [hrule]
    exact .inr rfl
  | decided q hq hk' record hstate state hd hrule =>
    rw [hrule]
    cases hd with
    | scanned _ _ => exact .inl (.inr (by cases q.needsToRun <;> rfl))
    | rebuilt _ => exact .inl (.inr rfl)
  | forced record hstate hrule =>
    rw [hrule]
    exact .inl (.inr rfl)
  | created hstate hprogress hd | working _ hprogress => exact .inl (hprogress.isScanned _)
  | upToDate hstate hrule | completed rest t hfinished ht hrule =>
    rw [hrule]
    exact .inl (.inl ⟨rfl, rfl⟩)

namespace Moment.Checks

variable {s₀ : Engine Key Value} {k : Key} {m m' : Moment Key Value}

section

variable (hs : m.Sound client)

include hs

theorem touched_move (hc : m.Checks client s₀ k) (h : Move client m m')
    (q : RuleScanRequest Key) (hq : m'.HasScan client q) (hk : q.ruleInfo = k) :
  (m'.engine.ruleInfo client k).IsScanned m'.engine.currentEpoch
    ∨ (m'.engine.ruleInfo client k).IsScanning
  := by
  cases h.scanOrigin hq with
  | held q hheld => exact hs.touched_move h (hc.touched q hheld hk)
  | started j b hj => exact .inr (hk ▸ hj)
  | considered q d hscan hd | skipped q d hscan hi hd hm
  | checked q input b hscan hi hcomplete =>
    exact hs.touched_move h (hc.touched q (.inr (.inl hscan)) hk)

/-- The result of a rule that is scanned or needs to run is the one it had before the build,
but for its single-use dependencies. -/
theorem prepared_move (hp : m.Scheduled client s₀)
    (hc : m.Checks client s₀ k) (h : Move client m m')
    (hk : (m'.engine.ruleInfo client k).state = .needsToRun
      ∨ ∃ record, (m'.engine.ruleInfo client k).state = .isScanning (some record)) :
  (m'.engine.ruleInfo client k).result = (s₀.ruleInfo client k).prepared.result
  := by
  have hnot (hk' : (m'.engine.ruleInfo client k).IsInProgress) : False := by
    obtain ⟨t, ht⟩ := isInProgress_iff.mp hk'
    obtain hk | ⟨record, hk⟩ := hk
    · rw [hk] at ht
      cases ht
    · rw [hk] at ht
      cases ht
  cases h.ruleChange hs k with
  | same hsame =>
    rw [hsame] at hk ⊢
    exact hc.prepared hk
  | scheduled state hs' hn hstate hrule =>
    rw [hrule, hp.untouched k hs' hn]
    rfl
  | suspended record record' hstate hrule | decided q hq hk' record hstate state hd hrule
  | forced record hstate hrule =>
    rw [hrule]
    exact hc.prepared (.inr ⟨record, hstate⟩)
  | created hstate hprogress hd | working _ hprogress => exact (hnot hprogress).elim
  | upToDate hstate hrule | completed rest t hfinished ht hrule =>
    rw [hrule] at hk
    obtain hk | ⟨record, hk⟩ := hk <;> cases hk

theorem covers_move (hc : m.Checks client s₀ k) (h : Move client m m')
    (q : RuleScanRequest Key) (hq : m'.HasScan client q) (hk : q.ruleInfo = k)
    (hscanning : ∃ record, (m'.engine.ruleInfo client k).state = .isScanning (some record)) :
  m'.Covers client q
  := by
  obtain ⟨record, hrecord⟩ := hscanning
  have horigin := h.scanOrigin hq
  -- the rule was scanned before the move, unless its scan begins
  have hgoes (hresult : (m'.engine.ruleInfo client k).result = (m.engine.ruleInfo client k).result)
      (hbefore : ∃ record, (m.engine.ruleInfo client k).state = .isScanning (some record)) :
      m'.Covers client q :=
    Moment.Covers.move hs h horigin (by rw [hk]; exact hresult)
      (fun q₀ hq₀ hk₀ => hc.covers q₀ hq₀ (hk₀.trans hk) hbefore)
  have hnot (hk' : (m'.engine.ruleInfo client k).IsInProgress) : False := by
    obtain ⟨t, ht⟩ := isInProgress_iff.mp hk'
    rw [hrecord] at ht
    cases ht
  cases h.ruleChange hs k with
  | same hsame =>
    rw [hsame] at hrecord
    exact hgoes (by rw [hsame]) ⟨record, hrecord⟩
  | scheduled state hs' hn hstate hrule =>
    have huntouched (q₀ : RuleScanRequest Key) (hq₀ : m.HasScan client q₀)
        (hk₀ : q₀.ruleInfo = k) : False :=
      absurd (hc.touched q₀ hq₀ hk₀) (not_or.mpr ⟨hs', hn⟩)
    cases horigin with
    | held q hheld => exact (huntouched q hheld hk).elim
    | started j b hj => exact ⟨nofun, fun i d hi => absurd hi (Nat.not_lt_zero i)⟩
    | considered q d hscan hd | skipped q d hscan hi hd hm
    | checked q input b hscan hi hcomplete => exact (huntouched q (.inr (.inl hscan)) hk).elim
  | suspended record₁ record' hstate hrule | forced record₁ hstate hrule
  | decided q₁ hq₁ hk' record₁ hstate state hd hrule =>
    exact hgoes (by rw [hrule]; rfl) ⟨record₁, hstate⟩
  | created hstate hprogress hd | working _ hprogress => exact (hnot hprogress).elim
  | upToDate hstate hrule | completed rest t hfinished ht hrule =>
    rw [hrule] at hrecord
    cases hrecord

theorem needsToRun_move (hc : m.Checks client s₀ k)
    (h : Move client m m') (hk : (m'.engine.ruleInfo client k).state = .needsToRun)
    (hforced : (m'.engine.ruleInfo client k).wasForced = false)
    (hbuilt : (m'.engine.ruleInfo client k).result.builtAt ≠ 0)
    (hchecks : client.checksDependenciesBeforeRunning k = true) (d : Dependency Key)
    (hd : d ∈ (m'.engine.ruleInfo client k).result.dependencies)
    (hmust : client.mustCheckDependencyBeforeRunning k d.key = true) :
  (m'.engine.ruleInfo client d.key).IsComplete m'.engine.currentEpoch
  := by
  have hnot (hk' : (m'.engine.ruleInfo client k).IsInProgress) : False := by
    obtain ⟨t, ht⟩ := isInProgress_iff.mp hk'
    rw [hk] at ht
    cases ht
  apply hs.isComplete_move h
  cases h.ruleChange hs k with
  | same hsame =>
    rw [hsame] at hk hforced hbuilt hd
    exact hc.needsToRun hk hforced hbuilt hchecks d hd hmust
  | scheduled state hs' hn hstate hrule =>
    rw [hrule] at hk hbuilt hd
    obtain rfl : state = .needsToRun := hk
    cases hstate with
    | needsToRun hreason =>
      obtain hnever | hunchecked | hempty := hreason
      · exact absurd hnever hbuilt
      · rw [hunchecked] at hchecks
        cases hchecks
      · change d ∈ cleanSingleUseDependencies _ at hd
        rw [hempty] at hd
        cases hd
  | suspended record record' hstate hrule | upToDate hstate hrule
  | completed rest t hfinished ht hrule =>
    rw [hrule] at hk
    cases hk
  | decided q hq hk' record hstate state hdecides hrule =>
    rw [hrule] at hd
    subst hk'
    cases hdecides with
    | scanned hi hlength =>
      obtain ⟨i, hlt, hget⟩ := mem_iff_getElem.mp hd
      have hcovers := hc.covers q (.inr (.inl hq)) rfl ⟨record, hstate⟩
      refine hcovers.complete i d (by rw [hlength]; exact hlt) ?_ hmust
      rw [← hget]
      exact getElem?_eq_getElem hlt
    | rebuilt hunchecked =>
      rw [hunchecked] at hchecks
      cases hchecks
  | forced record hstate hrule =>
    rw [hrule] at hforced
    cases hforced
  | created hstate hprogress hd | working _ hprogress => exact (hnot hprogress).elim

theorem move (hp : m.Scheduled client s₀) (hc : m.Checks client s₀ k) (h : Move client m m') :
  m'.Checks client s₀ k
  := ⟨hc.touched_move hs h, hc.prepared_move hs hp h, hc.covers_move hs h, hc.needsToRun_move hs h⟩

end

end Moment.Checks

/-! ### The tasks that are created -/

omit [DecidableEq Value] in
theorem Engine.Quiet.checks {s : Engine Key Value} (hq : s.Quiet) (client : Client Key Value)
    (key : Key) {k : Key} (hk : (s.ruleInfo client k).state ≠ .needsToRun) :
  (s.opening key).Checks client s k
  := by
  have hscanning (record : RuleScanRecord Key) :
      (s.ruleInfo client k).state ≠ .isScanning (some record) := by
    intro hstate
    have hquiet := (hq.ruleInfo client k).1
    rw [hstate] at hquiet
    exact hquiet
  have hnone (q : RuleScanRequest Key) : ¬ (s.opening key).HasScan client q := by
    rintro (hstack | hscan | ⟨j, hdeferred⟩)
    · change q ∈ s.ruleInfosToScan at hstack
      rw [hq.ruleInfosToScan] at hstack
      cases hstack
    · cases hscan
    · change q ∈ (s.ruleInfo client j).state.deferred at hdeferred
      have hquiet := (hq.ruleInfo client j).1
      cases hstate : (s.ruleInfo client j).state with
      | isScanning record =>
        rw [hstate] at hquiet hdeferred
        cases record with
        | none => cases hdeferred
        | some record => exact hquiet
      | inProgressWaiting t | inProgressComputing t =>
        rw [hstate] at hquiet
        exact hquiet
      | _ =>
        rw [hstate] at hdeferred
        cases hdeferred
  refine ⟨?_, ?_, ?_, ?_⟩
  · intro q hscan
    exact absurd hscan (hnone q)
  · rintro (hstate | ⟨record, hstate⟩)
    · exact absurd hstate hk
    · exact absurd hstate (hscanning record)
  · intro q hscan
    exact absurd hscan (hnone q)
  · intro hstate
    exact absurd hstate hk

/-- When the task of a rule is created, each recorded dependency that has to be checked
before the rule runs is complete, if the rule was not left behind by an earlier build as one
that needs to run. -/
theorem Engine.Between.complete_of_mustCheck {s : Engine Key Value} (hs : Between s)
    (client : Client Key Value) (key : Key) {e e' : Execution Key Value}
    {actions : List (Action Key)} {a : Action Key}
    (hrun : (start client key s).run client actions = some e)
    (hstep : e.step client a = some e') (k : Key)
    (hcreated : e.engine.events.countP (isCreateTask k)
      < e'.engine.events.countP (isCreateTask k))
    (hleft : (s.ruleInfo client k).state ≠ .needsToRun)
    (hbuilt : (e.engine.ruleInfo client k).result.builtAt ≠ 0)
    (hchecks : client.checksDependenciesBeforeRunning k = true)
    (hforced : ¬ ((e.engine.ruleInfo client k).state = .needsToRun
      ∧ (e.engine.ruleInfo client k).wasForced = true))
    (d : Dependency Key)
    (hd : d ∈ cleanSingleUseDependencies (e.engine.ruleInfo client k).result.dependencies)
    (hmust : client.mustCheckDependencyBeforeRunning k d.key = true) :
  (e.engine.ruleInfo client d.key).IsComplete e.engine.currentEpoch
  := by
  rw [countP_isCreateTask, countP_isCreateTask] at hcreated
  obtain hsame | ⟨htrap, hlive, j, m, hnew, hfinds⟩ := step_creations hstep
  · rw [hsame] at hcreated
    exact absurd hcreated (lt_irrefl _)
  have hj : j = k := by
    by_contra hne
    rw [hnew, count_cons_of_ne hne] at hcreated
    exact lt_irrefl _ hcreated
  subst hj
  have hsound := ((inv_start client hs.quiet key).run hrun htrap).sound hlive
  have hchecked : e.moment.Scheduled client s ∧ e.moment.Checks client s j := by
    refine hs.quiet.invariant (P := fun m => m.Scheduled client s ∧ m.Checks client s j) ?_ ?_
      hrun htrap hlive
    · intro m m' hm hp hmove
      exact ⟨Moment.Scheduled.move hm hp.1 hmove, Moment.Checks.move hm hp.1 hp.2 hmove⟩
    · exact ⟨hs.quiet.scheduled client key, hs.quiet.checks client key hleft⟩
  obtain ⟨-, hneeds⟩ := Moves.invariant
    (P := fun m => m.Scheduled client s ∧ m.Checks client s j)
    (fun m m' hm hp hmove =>
      ⟨Moment.Scheduled.move hm hp.1 hmove, Moment.Checks.move hm hp.1 hp.2 hmove⟩)
    hfinds.moves hsound hchecked
  apply hfinds.isComplete
  have hresult : (m.engine.ruleInfo client j).wasForced = false
      ∧ (m.engine.ruleInfo client j).result.builtAt ≠ 0
      ∧ d ∈ (m.engine.ruleInfo client j).result.dependencies := by
    obtain hsame | hscheduled := hfinds.ruleInfo
    · have hstate := hfinds.state
      rw [hsame] at hstate ⊢
      exact ⟨Bool.eq_false_iff.mpr (fun h => hforced ⟨hstate, h⟩), hbuilt, mem_of_mem_filter hd⟩
    · rw [hscheduled]
      exact ⟨rfl, hbuilt, hd⟩
  exact hneeds.needsToRun hfinds.state hresult.1 hresult.2.1 hchecks d hresult.2.2 hmust

namespace CheckSamples

/-- A client whose rule `1` wants all its dependencies checked before it runs, and whose
delegate breaks all cycles. -/
def checking (inputs : ℕ → List ℕ) (isResultValid : ℕ → ℕ → Bool) : Client ℕ ℕ :=
  { Client.fixed inputs (fun _ => []) (fun k values => k + values.length) isResultValid true with
    checksDependenciesBeforeRunning := fun k => k = 1
    mustCheckDependencyBeforeRunning := fun _ _ => true }

/-- Rule `0` requests `1`, and rule `1` requests `2`. -/
def chain : Client ℕ ℕ :=
  checking (fun k => if k = 0 then [1] else if k = 1 then [2] else []) (fun _ _ => true)

/-- The result of rule `1` is not valid. -/
def outdated : Client ℕ ℕ :=
  checking (fun k => if k = 1 then [2] else []) (fun k _ => k ≠ 1)

/-- Rule `1` requests `2`, whose result is not valid and which now requests `0`. -/
def loop : Client ℕ ℕ :=
  checking (fun k => if k = 1 then [2] else if k = 2 then [0] else []) (fun k _ => k ≠ 2)

/-- The engine after a build of rule `0`. -/
def built : Engine ℕ ℕ :=
  ((Engine.fresh none).lateBuild chain 100 0).elim (.fresh none) Prod.snd

/-- The engine after a second build of rule `0`, in which rule `0` is forced to run while its
scan waits for the scan of rule `1`. -/
def left : Engine ℕ ℕ :=
  (built.lateBuild loop 100 0).elim (.fresh none) Prod.snd

/-- The state of a build of rule `1` after a number of steps of the main loop, and the next
one. -/
def steps (client : Client ℕ ℕ) (s : Engine ℕ ℕ) (n : ℕ) :
    Option (Execution ℕ ℕ × Execution ℕ ℕ) :=
  ((start client 1 s).run client (replicate n .work)).bind
    (fun e => (e.step client .work).map (fun e' => (e, e')))

set_option maxRecDepth 4000 in
theorem between_built : Engine.Between built := by
  have hbuild : ((Engine.fresh none).lateBuild chain 100 0).isSome := by
    decide
  obtain ⟨⟨value, s⟩, hs⟩ := isSome_iff_exists.mp hbuild
  rw [built, hs]
  exact .build (.fresh none) chain 0 _ value hs

end CheckSamples

open CheckSamples

set_option maxRecDepth 4000 in
theorem Engine.Between.complete_of_mustCheck_outdated :
  ∃ e e', steps outdated built 12 = some (e, e')
    ∧ e.engine.events.countP (isCreateTask 1)
      < e'.engine.events.countP (isCreateTask 1)
    ∧ (e.engine.ruleInfo outdated 2).IsComplete e.engine.currentEpoch
  := by
  have hsteps : (steps outdated built 12).map (fun p =>
      (p.1.engine.events.countP (isCreateTask 1), p.2.engine.events.countP (isCreateTask 1),
        (p.1.engine.ruleInfo outdated 1).result.builtAt,
        (p.1.engine.ruleInfo outdated 1).wasForced,
        (p.1.engine.ruleInfo outdated 1).result.dependencies))
      = some (0, 1, 1, false, [⟨2, false, false⟩]) := by
    decide
  obtain ⟨⟨e, e'⟩, hp, hobserved⟩ := map_eq_some_iff.mp hsteps
  obtain ⟨hbefore, hafter, hbuilt, hforced, hdeps⟩ : _ ∧ _ ∧ _ ∧ _ ∧ _ := by
    simpa only [Prod.mk.injEq] using hobserved
  have hcreated : e.engine.events.countP (isCreateTask 1)
      < e'.engine.events.countP (isCreateTask 1) := by
    rw [hbefore, hafter]
    exact Nat.zero_lt_one
  obtain ⟨e₁, hrun, hnext⟩ := bind_eq_some_iff.mp hp
  obtain ⟨e₂, hstep, he⟩ := map_eq_some_iff.mp hnext
  obtain ⟨rfl, rfl⟩ := Prod.mk.inj he
  refine ⟨e₁, e₂, hp, hcreated, ?_⟩
  refine complete_of_mustCheck between_built outdated 1 hrun hstep 1 hcreated ?_ ?_ rfl ?_
    ⟨2, false, false⟩ ?_ rfl
  · decide
  · rw [hbuilt]
    exact one_ne_zero
  · rw [hforced]
    exact fun h => Bool.noConfusion h.2
  · rw [hdeps]
    decide

set_option maxRecDepth 4000 in
/-- Rule `1` was left behind as one that needs to run: its task is created although rule `2`,
which it wants checked before it runs, is not complete. -/
theorem Engine.createTask_unchecked :
  Between left
    ∧ chain.checksDependenciesBeforeRunning 1 = true
    ∧ chain.mustCheckDependencyBeforeRunning 1 2 = true
    ∧ (steps chain left 2).map (fun p =>
      (p.1.engine.events.countP (isCreateTask 1),
        p.2.engine.events.countP (isCreateTask 1))) = some (0, 1)
    ∧ (steps chain left 2).map (fun p =>
      ((p.1.engine.ruleInfo chain 1).result.builtAt,
        (p.1.engine.ruleInfo chain 1).wasForced,
        (p.1.engine.ruleInfo chain 1).result.dependencies,
        decide ((p.1.engine.ruleInfo chain 2).IsComplete p.1.engine.currentEpoch)))
      = some (1, false, [⟨2, false, false⟩], false)
  := by
  refine ⟨?_, rfl, rfl, ?_, ?_⟩
  · have hbuild : (built.lateBuild loop 100 0).isSome := by
      decide
    obtain ⟨⟨value, s⟩, hs⟩ := isSome_iff_exists.mp hbuild
    rw [left, hs]
    exact .build between_built loop 0 _ value hs
  · decide
  · decide

end LLBuild

import LLBuild.Core.Schedule
import LLBuild.Core.TaskChanges

/-!
# The order of the dependencies

The dependencies of a rule are recorded when the requests of its task are taken from the
queue.  As the queue is first in, first out this is the order in which they were made,
except that a request whose input has to be scanned is put aside and goes back to the end
of the queue once the scan is done.
-/

namespace LLBuild

open Option

open Execution

open Event

open TaskInputRequest

open List

open RuleInfo

variable {Key Value : Type} [LinearOrder Key] [Inhabited Value]
variable {client : Client Key Value}

/-! ### The invariant -/

variable {m m' : Moment Key Value}

variable [DecidableEq Value] in
/-- A task is created once its rule needs to run, and no move takes that back. -/
theorem Move.created_cases (h : Move client m m') (k : Key) :
  m'.engine.events.countP (isCreateTask k) = m.engine.events.countP (isCreateTask k)
    ∨ (m.engine.ruleInfo client k).state = .needsToRun
  := by
  cases h with
  | createTask j h hrest =>
    by_cases hj : k = j
    · subst hj
      exact .inr h
    · simp [isCreateTask, Ne.symm hj]
  | report event he =>
    cases event with
    | createTask _ => exact he.elim
    | _ => simp [isCreateTask]
  | startCallback j t c h hs hc hcall | request j call rest t hc hr h
  | answer r rest j t c hrest hr hj ho hv h | answerOrderOnly r rest j hrest hr hj ho
  | compute j rest t hj hrest hf h => simp [isCreateTask]
  | _ => exact .inl rfl

namespace Moment.Sound

variable {m : Moment Key Value} (hs : m.Sound client) {k : Key}
include hs

theorem created_of_taskInfo {t : TaskInfo Key Value}
    (h : (m.engine.ruleInfo client k).state.taskInfo = some t) :
  m.engine.events.countP (isCreateTask k) = 1
  := by
  apply hs.balanced.inProgress k
  rw [Moment.ledger_stage, stage]
  obtain hstate | hstate := RuleState.taskInfo_eq_some.mp h
  · rw [hstate]
    rfl
  · rw [hstate]
    rfl

theorem created_of_state
    (h : (m.engine.ruleInfo client k).state = .needsToRun
      ∨ (m.engine.ruleInfo client k).state = .doesNotNeedToRun) :
  m.engine.events.countP (isCreateTask k) = 0
  := by
  apply hs.balanced.idle k
  rw [Moment.ledger_stage, stage]
  obtain h | h := h
  · rw [h]
  · rw [h]

/-- No request of a task is on its way unless the task is waiting. -/
theorem queued_eq_nil (h : ((m.ledger client).stage k).isWaiting = false) :
  m.queued k = [] ∧ m.paused k = 0
  := by
  have hzero : m.onTheirWay (.ofTask k) = 0 := by
    by_contra hne
    rw [hs.isWaiting (Nat.pos_of_ne_zero hne)] at h
    cases h
  rw [Moment.onTheirWay] at hzero
  constructor
  · rw [Moment.queued, filter_eq_nil_iff]
    apply countP_eq_zero.mp
    rw [countP_append]
    omega
  · exact Engine.paused_eq_zero (by omega)

end Moment.Sound

/-- Nothing happens to the requests of a rule without a task. -/
theorem Moment.RequestChange.of_idle {k : Key}
    (h : m.RequestChange client m' k) (hk : ¬ (m.engine.ruleInfo client k).IsInProgress)
    (hqueued : m.queued k = []) (hpaused : m.paused k = 0) :
  m'.engine.requestsOf k = m.engine.requestsOf k ∧ m'.queued k = [] ∧ m'.paused k = 0
  := by
  cases h with
  | same hd hr hq hp => exact ⟨hr, hq.trans hqueued, hp.trans hpaused⟩
  | requested r hprogress hd hr hq hp => exact absurd hprogress hk
  | recorded r hd hr hq hp | paused r record hscan hd hr hq hp =>
    rw [hqueued] at hq
    cases hq
  | resumed requests hd hr hq hp =>
    have hcard := congrArg Multiset.card (hp.trans hpaused)
    rw [Multiset.card_add, Multiset.coe_card, Multiset.card_zero] at hcard
    obtain rfl : requests = [] := length_eq_zero_iff.mp (by omega)
    rw [hqueued] at hq
    exact ⟨hr, hq, Multiset.card_eq_zero.mp (by omega)⟩

/-- Nothing is requested if no request is in the queue. -/
theorem Moment.RequestChange.requestsOf_eq {k : Key}
    (h : m.RequestChange client m' k) (hqueued : m'.queued k = []) :
  m'.engine.requestsOf k = m.engine.requestsOf k
  := by
  cases h with
  | same hd hr | recorded r hd hr | paused r record hscan hd hr | resumed requests hd hr => exact hr
  | requested r hprogress hd hr hq hp =>
    rw [hqueued] at hq
    exact absurd hq.symm (by simp)

/-- No request of the task of the rule `k` but the last one was for a rule whose
dependencies had to be scanned when the build opened in the state `s₀`. -/
def Engine.OnlyLastScans (client : Client Key Value) (s₀ : Engine Key Value) (k : Key)
    (s : Engine Key Value) : Prop :=
  ∀ r ∈ (s.requestsOf k).dropLast,
    ¬ client.HasDependenciesToScan r.inputRuleInfo (s₀.ruleInfo client r.inputRuleInfo)

/-- The dependencies are recorded in the order of the requests: the requests that were made
are the ones that were recorded, the ones in the queue and the ones that were put aside. -/
def Moment.InOrder (client : Client Key Value) (s₀ : Engine Key Value) (k : Key)
    (m : Moment Key Value) : Prop :=
  ∃ recorded waiting : List (TaskInputRequest Key),
    (m.engine.ruleInfo client k).result.dependencies
        = recorded.map dependency
      ∧ m.engine.requestsOf k = recorded ++ m.queued k ++ waiting ∧ m.paused k = waiting
      ∧ ∀ r ∈ waiting,
        client.HasDependenciesToScan r.inputRuleInfo (s₀.ruleInfo client r.inputRuleInfo)

variable [DecidableEq Value] in
theorem Moment.InOrder.move {s₀ : Engine Key Value} {m m' : Moment Key Value} {k : Key}
    (h : Move client m m') (hp : m.Scheduled client s₀)
    (hlast : s₀.OnlyLastScans client k m'.engine) (hk : (m.engine.ruleInfo client k).IsInProgress)
    (hk' : (m'.engine.ruleInfo client k).IsInProgress)
    (ho : s₀.OnlyLastScans client k m.engine → m.InOrder client s₀ k) :
  m'.InOrder client s₀ k
  := by
  rw [Engine.OnlyLastScans] at hlast ho
  cases h.requestChange k with
  | same hd hr hq hpaused =>
    rw [hr] at hlast
    obtain ⟨recorded, waiting, hdeps, hrequests, hwaiting, hscan⟩ := ho hlast
    refine ⟨recorded, waiting, ?_, ?_, ?_, hscan⟩
    · rw [hd hk hk', hdeps]
    · rw [hr, hq, hrequests]
    · rw [hpaused, hwaiting]
  | requested r _ hd hr hq hpaused =>
    rw [hr, dropLast_concat] at hlast
    obtain ⟨recorded, waiting, hdeps, hrequests, hwaiting, hscan⟩ :=
      ho (fun r hr => hlast r (mem_of_mem_dropLast hr))
    -- every request made so far is not the last one any more, so none is put aside
    obtain rfl : waiting = [] := by
      apply eq_nil_iff_forall_not_mem.mpr
      intro r hr
      exact hlast r (by rw [hrequests]; exact mem_append_right _ hr) (hscan r hr)
    refine ⟨recorded, [], ?_, ?_, ?_, nofun⟩
    · rw [hd hk hk', hdeps]
    · rw [hr, hq, hrequests]
      simp
    · rw [hpaused, hwaiting]
  | recorded r hd hr hq hpaused =>
    rw [hr] at hlast
    obtain ⟨recorded, waiting, hdeps, hrequests, hwaiting, hscan⟩ := ho hlast
    refine ⟨recorded ++ [r], waiting, ?_, ?_, ?_, hscan⟩
    · rw [hd, hdeps, map_append]
      rfl
    · rw [hr, hrequests, hq]
      simp
    · rw [hpaused, hwaiting]
  | paused r record hstate hd hr hq hpaused =>
    rw [hr] at hlast
    obtain ⟨recorded, waiting, hdeps, hrequests, hwaiting, hscan⟩ := ho hlast
    have hr' := hp.scanning r.inputRuleInfo record hstate
    -- the request is the last one
    have hrest : m'.queued k ++ waiting = [] := by
      by_contra hne
      apply hlast r _ hr'
      rw [hrequests, hq, append_assoc, cons_append,
        dropLast_append_of_ne_nil (cons_ne_nil _ _), dropLast_cons_of_ne_nil hne]
      simp
    obtain ⟨hqueued, rfl⟩ := append_eq_nil_iff.mp hrest
    refine ⟨recorded, [r], ?_, ?_, ?_, ?_⟩
    · rw [hd hk hk', hdeps]
    · rw [hr, hrequests, hq, hqueued]
      simp
    · rw [hpaused, hwaiting]
      rfl
    · intro r' hmem
      rw [mem_singleton.mp hmem]
      exact hr'
  | resumed requests hd hr hq hpaused =>
    rw [hr] at hlast
    obtain ⟨recorded, waiting, hdeps, hrequests, hwaiting, hscan⟩ := ho hlast
    rw [hwaiting] at hpaused
    cases requests with
    | nil =>
      rw [Multiset.coe_nil, add_zero] at hpaused
      refine ⟨recorded, waiting, ?_, ?_, hpaused, hscan⟩
      · rw [hd hk hk', hdeps]
      · rw [hr, hq, hrequests, append_nil]
    | cons r rest =>
      -- only the last request can be put aside, so this is the one that goes back
      have hone : waiting = [r] ∧ m'.paused k = 0 ∧ rest = [] := by
        have hcard := congrArg Multiset.card hpaused
        rw [Multiset.card_add, Multiset.coe_card, Multiset.coe_card, length_cons] at hcard
        match waiting, hcard with
        | [x], hcard =>
          rw [length_singleton] at hcard
          have hnone : m'.paused k = 0 := Multiset.card_eq_zero.mp (by omega)
          obtain rfl : rest = [] := length_eq_zero_iff.mp (by omega)
          rw [hnone] at hpaused
          exact ⟨(singleton_perm_singleton.mp (Multiset.coe_eq_coe.mp hpaused)) ▸ rfl, hnone, rfl⟩
        | x :: y :: others, _ =>
          refine absurd (hscan x mem_cons_self) (hlast x ?_)
          rw [hrequests]
          simp
      obtain ⟨rfl, hnone, rfl⟩ := hone
      refine ⟨recorded, [], ?_, ?_, hnone, nofun⟩
      · rw [hd hk hk', hdeps]
      · rw [hr, hq, hrequests]
        simp

/-- What holds of the rule `k` and its task at every moment of a build that opened in the
state `s₀`. -/
structure Moment.Orderly (client : Client Key Value) (s₀ : Engine Key Value) (k : Key)
    (m : Moment Key Value) : Prop where
  fresh : m.engine.events.countP (isCreateTask k) = 0 →
    m.engine.requestsOf k = [] ∧ m.engine.callbacksOf k = []
  told : ∀ t, (m.engine.ruleInfo client k).state.taskInfo = some t →
    m.engine.callbacksOf k = t.history ∧ t.discoveredDependencies =
      if t.reported then ((client.createTask k).finish t.history).discoveredDependencies.map
        (fun key => ⟨key, false, false⟩)
      else []
  inOrder : (m.engine.ruleInfo client k).IsInProgress → s₀.OnlyLastScans client k m.engine →
    m.InOrder client s₀ k
  complete : (m.engine.ruleInfo client k).IsComplete m.engine.currentEpoch →
    m.engine.events.countP (isCreateTask k) ≠ 0 → s₀.OnlyLastScans client k m.engine →
      (m.engine.ruleInfo client k).result.dependencies
        = (m.engine.requestsOf k).map dependency
          ++ ((client.createTask k).finish (m.engine.callbacksOf k)).discoveredDependencies.map
            (fun key => ⟨key, false, false⟩)

namespace Moment.Orderly

variable {s₀ : Engine Key Value} {k : Key} {m m' : Moment Key Value}

variable [DecidableEq Value]

section

variable (hs : m.Sound client)

include hs

theorem fresh_move (ho : m.Orderly client s₀ k) (h : Move client m m')
    (hfresh : m'.engine.events.countP (isCreateTask k) = 0) :
  m'.engine.requestsOf k = [] ∧ m'.engine.callbacksOf k = []
  := by
  have hcreated : m.engine.events.countP (isCreateTask k) = 0 := by
    obtain hsame | hstate := h.created_cases k
    · rw [← hsame, hfresh]
    · exact hs.created_of_state (.inl hstate)
  have hnot (t : TaskInfo Key Value)
      (ht : (m.engine.ruleInfo client k).state.taskInfo = some t) : False := by
    have hone := hs.created_of_taskInfo ht
    omega
  obtain ⟨hrequests, hcallbacks⟩ := ho.fresh hcreated
  constructor
  · cases h.requestChange k with
    | same hd hr | recorded r hd hr | paused r record hscan hd hr | resumed requests hd hr =>
      rw [hr, hrequests]
    | requested r hk hd hr hq hp =>
      obtain ⟨t, ht⟩ := isInProgress_iff.mp hk
      exact (hnot t ht).elim
  · cases h.taskChange hs k with
    | none ht hc | same t t' ht ht' hhistory hdiscovered hreported hc | created hstate ht' hc
    | reported t ht hr ht' hc => rw [hc, hcallbacks]
    | calledBack t c ht hr ht' hc => exact (hnot t ht).elim

theorem told_move (ho : m.Orderly client s₀ k) (h : Move client m m')
    (t : TaskInfo Key Value) (ht : (m'.engine.ruleInfo client k).state.taskInfo = some t) :
  m'.engine.callbacksOf k = t.history ∧ t.discoveredDependencies =
    if t.reported then ((client.createTask k).finish t.history).discoveredDependencies.map
      (fun key => ⟨key, false, false⟩)
    else []
  := by
  cases h.taskChange hs k with
  | none hnone hc =>
    rw [hnone] at ht
    cases ht
  | same t₁ t' ht₁ ht' hhistory hdiscovered hreported hc =>
    obtain rfl := some.inj (ht'.symm.trans ht)
    obtain ⟨hcallbacks, hdeps⟩ := ho.told t₁ ht₁
    rw [hc, hhistory, hdiscovered, hreported]
    exact ⟨hcallbacks, hdeps⟩
  | created hstate ht' hc =>
    obtain rfl := some.inj (ht'.symm.trans ht)
    rw [hc, (ho.fresh (hs.created_of_state (.inl hstate))).2]
    exact ⟨rfl, rfl⟩
  | calledBack t₁ c ht₁ hr ht' hc =>
    obtain rfl := some.inj (ht'.symm.trans ht)
    obtain ⟨hcallbacks, hdeps⟩ := ho.told t₁ ht₁
    rw [hr] at hdeps ⊢
    rw [hc, hcallbacks]
    exact ⟨rfl, hdeps⟩
  | reported t₁ ht₁ hr ht' hc =>
    obtain rfl := some.inj (ht'.symm.trans ht)
    obtain ⟨hcallbacks, hdeps⟩ := ho.told t₁ ht₁
    rw [hr] at hdeps
    rw [hc]
    refine ⟨hcallbacks, ?_⟩
    rw [TaskInfo.report_discoveredDependencies, hdeps]
    rfl

theorem inOrder_move (hp : m.Scheduled client s₀) (ho : m.Orderly client s₀ k)
    (h : Move client m m') (hk : (m'.engine.ruleInfo client k).IsInProgress)
    (hlast : s₀.OnlyLastScans client k m'.engine) :
  m'.InOrder client s₀ k
  := by
  by_cases hprogress : (m.engine.ruleInfo client k).IsInProgress
  · exact Moment.InOrder.move h hp hlast hprogress hk (ho.inOrder hprogress)
  · obtain ⟨t, ht⟩ := isInProgress_iff.mp hk
    cases h.ruleChange hs k with
    | same hsame =>
      rw [hsame] at hk
      exact absurd hk hprogress
    | scheduled state hs' hn hstate hrule =>
      rw [hrule] at ht
      cases hstate <;> cases ht
    | suspended record record' hstate hrule | forced record hstate hrule | upToDate hstate hrule
    | completed rest t' hk' ht' hrule =>
      rw [hrule] at ht
      cases ht
    | decided q hq hk' record hstate state hd hrule =>
      rw [hrule] at ht
      cases hd with
      | scanned _ _ => cases hneeds : q.needsToRun <;> simp [hneeds, RuleState.taskInfo] at ht
      | rebuilt _ => cases ht
    | created hstate _ hdeps =>
      have hfresh := (ho.fresh (hs.created_of_state (.inl hstate))).1
      obtain ⟨hqueued, hpaused⟩ := hs.queued_eq_nil (k := k)
        (by rw [Moment.ledger_stage, stage, hstate]; rfl)
      obtain ⟨hrequests, hqueued', hpaused'⟩ :=
        (h.requestChange k).of_idle hprogress hqueued hpaused
      exact ⟨[], [], hdeps, by rw [hrequests, hfresh, hqueued']; rfl, hpaused',
        fun r hr => absurd hr not_mem_nil⟩
    | working hprogress' _ => exact absurd hprogress' hprogress

theorem complete_move (ho : m.Orderly client s₀ k) (h : Move client m m')
    (hk : (m'.engine.ruleInfo client k).IsComplete m'.engine.currentEpoch)
    (hcreated : m'.engine.events.countP (isCreateTask k) ≠ 0)
    (hlast : s₀.OnlyLastScans client k m'.engine) :
  (m'.engine.ruleInfo client k).result.dependencies
    = (m'.engine.requestsOf k).map dependency
      ++ ((client.createTask k).finish (m'.engine.callbacksOf k)).discoveredDependencies.map
        (fun key => ⟨key, false, false⟩)
  := by
  have hstage' := isComplete_iff_stage.mp hk
  obtain ⟨hqueued', -⟩ := (hs.move h).queued_eq_nil (k := k)
    (by rw [Moment.ledger_stage, hstage']; rfl)
  have hrequests := (h.requestChange k).requestsOf_eq hqueued'
  have hcallbacks : m'.engine.callbacksOf k = m.engine.callbacksOf k := by
    cases h.taskChange hs k with
    | none ht hc | same t t' ht ht' hhistory hdiscovered hreported hc | created hstate ht' hc
    | reported t ht hr ht' hc => exact hc
    | calledBack t c ht hr ht' hc => exact absurd hk (not_isComplete_of_taskInfo ht')
  rw [hrequests, hcallbacks]
  rw [Engine.OnlyLastScans, hrequests] at hlast
  rw [h.currentEpoch] at hk
  have hcreated' (hn : (m.engine.ruleInfo client k).state ≠ .needsToRun) :
      m.engine.events.countP (isCreateTask k) ≠ 0 := by
    obtain hsame | hstate := h.created_cases k
    · rw [← hsame]
      exact hcreated
    · exact absurd hstate hn
  have hnot (t : TaskInfo Key Value) (ht : (m'.engine.ruleInfo client k).state.taskInfo = some t) :
      False := not_isComplete_of_taskInfo ht hk
  cases h.ruleChange hs k with
  | same hsame =>
    rw [hsame] at hk ⊢
    refine ho.complete hk (hcreated' ?_) hlast
    intro hstate
    rw [RuleInfo.IsComplete, hstate] at hk
    cases hk.1
  | scheduled state hs' hn hstate hrule =>
    rw [hrule] at hk
    cases hstate <;> cases hk.1
  | suspended record record' hstate hrule | forced record hstate hrule =>
    rw [hrule] at hk
    cases hk.1
  | decided q hq hk' record hstate state hd hrule =>
    rw [RuleInfo.IsComplete, hrule] at hk
    cases hd with
    | scanned _ _ => cases hneeds : q.needsToRun <;> simp [hneeds, RuleState.kind] at hk
    | rebuilt _ => cases hk.1
  | created hstate hprogress hdeps | working _ hprogress =>
    obtain ⟨t, ht⟩ := isInProgress_iff.mp hprogress
    exact (hnot t ht).elim
  | upToDate hstate hrule =>
    refine absurd (hs.created_of_state (.inr hstate)) (hcreated' ?_)
    rw [hstate]
    intro h
    cases h
  | completed rest t hfinished ht hrule =>
    -- the task has reported, and none of its requests is on its way any more
    have hstage : (m.ledger client).stage k = .computing true := by
      have hcount := hs.balanced.finished k
      by_contra hne
      rw [if_neg hne, Moment.ledger_finished, hfinished, count_cons_self] at hcount
      omega
    have hreported : t.reported = true := by
      obtain hstate | hstate := RuleState.taskInfo_eq_some.mp ht
      · rw [Moment.ledger_stage, stage, hstate] at hstage
        cases hstage
      · rw [Moment.ledger_stage, stage, hstate] at hstage
        exact Stage.computing.inj hstage
    obtain ⟨hqueued, hpaused⟩ := hs.queued_eq_nil (k := k) (by rw [hstage]; rfl)
    obtain ⟨hhistory, hdiscovered⟩ := ho.told t ht
    obtain ⟨recorded, waiting, hdeps, hmade, hwaiting, -⟩ :=
      ho.inOrder (isInProgress_iff.mpr ⟨t, ht⟩) hlast
    obtain rfl : waiting = [] := by
      rw [hpaused] at hwaiting
      exact (Multiset.coe_eq_zero _).mp hwaiting.symm
    rw [hqueued, append_nil, append_nil] at hmade
    rw [hrule, hmade, hhistory]
    rw [hdeps, hdiscovered, hreported]
    rfl

theorem move (hp : m.Scheduled client s₀) (ho : m.Orderly client s₀ k) (h : Move client m m') :
  m'.Orderly client s₀ k
  := ⟨ho.fresh_move hs h, ho.told_move hs h, ho.inOrder_move hs hp h, ho.complete_move hs h⟩

end

end Moment.Orderly

omit [LinearOrder Key] [Inhabited Value] in
/-- A rule without a task is idle or complete. -/
theorem RuleInfo.stage_of_taskInfo (epoch : ℕ) {r : RuleInfo Key Value}
    (h : r.state.taskInfo = none) :
  r.stage epoch = .idle ∨ r.stage epoch = .complete
  := by
  rw [stage]
  cases hstate : r.state with
  | inProgressWaiting t | inProgressComputing t =>
    rw [hstate] at h
    cases h
  | complete =>
    split_ifs
    · exact .inr rfl
    · exact .inl rfl
  | _ => exact .inl rfl

namespace Engine.Quiet

variable {s : Engine Key Value} (hq : s.Quiet)
include hq

variable (client : Client Key Value)

theorem taskInfo_eq_none (k : Key) :
  (s.ruleInfo client k).state.taskInfo = none
  := by
  have hquiet := (hq.ruleInfo client k).1
  cases hstate : (s.ruleInfo client k).state with
  | inProgressWaiting t | inProgressComputing t =>
    rw [hstate] at hquiet
    exact hquiet.elim
  | _ => rfl

theorem orderly (key k : Key) :
  (s.opening key).Orderly client s k
  := by
  refine ⟨fun _ => ⟨rfl, rfl⟩, ?_, ?_, ?_⟩
  · intro t ht
    exact absurd ((hq.taskInfo_eq_none client k).symm.trans ht) nofun
  · intro hprogress _
    obtain ⟨t, ht⟩ := isInProgress_iff.mp hprogress
    exact absurd ((hq.taskInfo_eq_none client k).symm.trans ht) nofun
  · intro _ hcreated
    exact absurd rfl hcreated

end Engine.Quiet

variable [DecidableEq Value]

/-- The dependencies of every rule whose task was created in a successful build are the ones
the task requested, in the order of the requests, followed by the ones it discovered, if no
request but the last one was for a rule whose dependencies had to be scanned. -/
theorem Engine.Between.dependencies_eq {s : Engine Key Value} (hs : Between s)
    (client : Client Key Value) (key : Key) {e : Execution Key Value} {actions : List (Action Key)}
    (hrun : (start client key s).run client actions = some e)
    (hreturned : e.phase = .returned true) (k : Key) (hcreated : .createTask k ∈ e.engine.events)
    (hlast : s.OnlyLastScans client k e.engine) :
  (e.engine.ruleInfo client k).result.dependencies
    = (e.engine.requestsOf k).map dependency
      ++ ((client.createTask k).finish (e.engine.callbacksOf k)).discoveredDependencies.map
        (fun key => ⟨key, false, false⟩)
  := by
  have hlive : e.IsLive := by
    rw [Execution.IsLive, hreturned]
    trivial
  have hinv := inv_start client hs.quiet key
  have htrap := trap_of_returned hinv (trap_start client hs.quiet.trap key) hrun hreturned
  have hinv' := hinv.run hrun htrap
  have hsound := hinv'.sound hlive
  obtain ⟨-, horderly⟩ : e.moment.Scheduled client s ∧ e.moment.Orderly client s k := by
    refine hs.quiet.invariant (P := fun m => m.Scheduled client s ∧ m.Orderly client s k) ?_ ?_
      hrun htrap hlive
    · intro m m' hm hp hmove
      exact ⟨Moment.Scheduled.move hm hp.1 hmove, Moment.Orderly.move hm hp.1 hp.2 hmove⟩
    · exact ⟨hs.quiet.scheduled client key, hs.quiet.orderly client key k⟩
  have hcount : e.engine.events.countP (isCreateTask k) ≠ 0 :=
    (countP_pos_iff.mpr ⟨_, hcreated, by simp [isCreateTask]⟩).ne'
  refine horderly.complete (isComplete_iff_stage.mpr ?_) hcount hlast
  have hnone := taskInfo_eq_none client (hinv'.settled true hreturned).taskInfo k
  obtain hidle | hcomplete := stage_of_taskInfo e.engine.currentEpoch hnone
  · exact absurd (hsound.balanced.idle k hidle) hcount
  · exact hcomplete

namespace OrderSamples

/-- Rule `0` requests `1` and `2` and discovers `4`, and rule `1` requests `3`. No cycle is
broken. -/
def fork : Client ℕ ℕ :=
  .fixed (fun k => if k = 0 then [1, 2] else if k = 1 then [3] else [])
    (fun k => if k = 0 then [4] else []) (fun k values => k + values.sum) (fun _ _ => true) false

/-- The actions of a build of rule `0`. -/
def schedule (s : Engine ℕ ℕ) : List (Action ℕ) :=
  (start fork 0 s).lateActions fork 200

/-- An engine that has built rule `1`. -/
def second : Engine ℕ ℕ :=
  ((Engine.fresh none).lateBuild fork 100 1).elim (.fresh none) Prod.snd

end OrderSamples

open OrderSamples

set_option maxRecDepth 4000 in
theorem Engine.Between.dependencies_eq_fork :
  ∃ e, (start fork 0 (.fresh none)).run fork (schedule (.fresh none)) = some e
    ∧ (e.engine.ruleInfo fork 0).result.dependencies
      = (e.engine.requestsOf 0).map dependency
        ++ ((fork.createTask 0).finish (e.engine.callbacksOf 0)).discoveredDependencies.map
          (fun key => ⟨key, false, false⟩)
  := by
  have hreturned : ((start fork 0 (.fresh none)).run fork (schedule (.fresh none))).map
      (fun e => (e.phase, decide (.createTask 0 ∈ e.engine.events)))
      = some (.returned true, true) := by
    decide
  obtain ⟨e, hrun, he⟩ := map_eq_some_iff.mp hreturned
  obtain ⟨hphase, hcreated⟩ := Prod.mk.inj he
  -- nothing was built before, so no rule has dependencies to scan
  exact ⟨e, hrun, dependencies_eq (.fresh none) fork 0 hrun hphase 0 (of_decide_eq_true hcreated)
    (fun r _ hscan => hscan.1 rfl)⟩

set_option maxRecDepth 4000 in
/-- The first request is for a rule that was built before: it waits for the scan of the rule
and is recorded after the second one. -/
theorem Engine.dependencies_reordered :
  Between second
    ∧ ((start fork 0 second).run fork (schedule second)).map (fun e =>
      (e.phase, (e.engine.requestsOf 0).map inputRuleInfo,
        (e.engine.ruleInfo fork 0).result.dependencies.map Dependency.key))
      = some (.returned true, [1, 2], [2, 1, 4])
  := by
  constructor
  · have hbuild : ((Engine.fresh none).lateBuild fork 100 1).isSome := by
      decide
    obtain ⟨⟨value, s⟩, hs⟩ := isSome_iff_exists.mp hbuild
    rw [second, hs]
    exact .build (.fresh none) fork 1 _ value hs
  · decide

end LLBuild

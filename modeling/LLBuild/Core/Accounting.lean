import LLBuild.Core.Results
import LLBuild.Core.Schedule

/-!
# Request accounting

In every state of a build that is not being cancelled the wait count of a task is the number
of its requests that are unanswered.  A request is answered once: with the value of its
input, which is complete by then, or with the value the input had before the build, if the
request was forced to break a cycle, or without a value if it is a must-follow request.  A
task is told once that its inputs are available, after the last answer.  And the task of a
rule is created once at most, and a rule that is complete stays complete.
-/

namespace LLBuild

open Event

open Execution

open List

open RuleState

open RuleInfo

variable {Key Value : Type} [LinearOrder Key] [DecidableEq Value] [Inhabited Value]
variable {client : Client Key Value}

/-! ### The stages of the rules -/

variable {m m' : Moment Key Value} {k : Key}

theorem Moment.Sound.stage_complete (hs : m.Sound client)
    (h : Move client m m') (hk : (m.ledger client).stage k = .complete) :
  (m'.ledger client).stage k = .complete
  := by
  obtain hl | hl := h.ledger hs.balanced
  · rw [hl, hk]
  · exact hl.stage_complete hk

theorem Moment.Sound.stage_before (hs : m.Sound client)
    (h : Move client m m') (hc : (m'.ledger client).stage k ≠ .complete)
    (hr : (m'.ledger client).stage k ≠ .computing true) :
  (m.ledger client).stage k ≠ .complete ∧ (m.ledger client).stage k ≠ .computing true
  := by
  obtain hl | hl := h.ledger hs.balanced
  · rw [hl] at hc hr
    exact ⟨hc, hr⟩
  · exact hl.stage_before hc hr

omit [LinearOrder Key] [DecidableEq Value] [Inhabited Value] in
theorem RuleInfo.isComplete_iff_stage {epoch : ℕ} {r : RuleInfo Key Value} :
  r.IsComplete epoch ↔ r.stage epoch = .complete
  := by
  rw [RuleInfo.IsComplete, stage]
  cases r.state with
  | complete => by_cases h : r.result.builtAt = epoch <;> simp [kind]
  | _ => simp [kind]

theorem Move.value_eq (h : Move client m m') (hk : (m'.ledger client).stage k ≠ .computing true) :
  (m'.engine.ruleInfo client k).result.value = (m.engine.ruleInfo client k).result.value
  := by
  cases h.resultChange k with
  | same h => rw [h]
  | prepared hs hn h | created hstate h | recorded r hr hk h | upToDate hstate hstate' h
  | completed rest t hk ht hstate' h => rw [h]; rfl
  | reported t hstate hstate' h =>
    exact absurd (by rw [Moment.ledger_stage, stage, hstate']; rfl) hk

theorem Move.builtAt_eq (h : Move client m m') (hk : (m'.ledger client).stage k ≠ .complete) :
  (m'.engine.ruleInfo client k).result.builtAt = (m.engine.ruleInfo client k).result.builtAt
  := by
  have hmove := h
  cases h.resultChange k with
  | same h => rw [h]
  | prepared hs hn h | created hstate h | recorded r hr hk h => rw [h]; rfl
  | reported t hstate hstate' h =>
    rw [h, setValue]
    split_ifs
    · rfl
    · rfl
  | upToDate hstate hstate' h | completed rest t hk' ht hstate' h =>
    refine absurd ?_ hk
    rw [Moment.ledger_stage, stage, hstate', h, hmove.currentEpoch]
    simp

/-! ### Answers -/

/-- What a request is answered with: nothing, if it is a must-follow request; the value of
its input, which is complete; or the value the input had before the build, if that was
forced. -/
inductive IsAnswer (client : Client Key Value) (s₀ s : Engine Key Value)
    (r : TaskInputRequest Key) : Option Value → Prop
  | mustFollow (h : r.orderOnly = true) : IsAnswer client s₀ s r none
  | value (h : r.orderOnly = false)
      (hc : (s.ruleInfo client r.inputRuleInfo).IsComplete s.currentEpoch) :
      IsAnswer client s₀ s r (some (s.ruleInfo client r.inputRuleInfo).result.value)
  | prior (h : r.orderOnly = false) (hf : r.forcePriorValue = true)
      (hb : (s₀.ruleInfo client r.inputRuleInfo).result.builtAt ≠ 0) :
      IsAnswer client s₀ s r (some (s₀.ruleInfo client r.inputRuleInfo).result.value)

/-- The requests that are about to be answered, and the answers that were given, in a build
that opened in the state `s₀`. -/
structure Moment.Answers (client : Client Key Value) (s₀ : Engine Key Value)
    (m : Moment Key Value) : Prop where
  finished : ∀ r ∈ m.engine.finishedInputRequests,
    (m.ledger client).stage r.inputRuleInfo = .complete
      ∨ r.forcePriorValue = true ∧ ((m.ledger client).stage r.inputRuleInfo).isWaiting = true
        ∧ (m.engine.ruleInfo client r.inputRuleInfo).result.builtAt ≠ 0
  prior : ∀ k, (m.ledger client).stage k ≠ .complete →
    (m.ledger client).stage k ≠ .computing true →
      (m.engine.ruleInfo client k).result.value = (s₀.ruleInfo client k).result.value
        ∧ (m.engine.ruleInfo client k).result.builtAt = (s₀.ruleInfo client k).result.builtAt
  answered : ∀ r v, .answered r v ∈ m.engine.events → IsAnswer client s₀ m.engine r v

variable {s₀ : Engine Key Value}

theorem Moment.Answers.prior_move
    (ha : m.Answers client s₀) (hs : m.Sound client) (h : Move client m m') (k : Key)
    (hc : (m'.ledger client).stage k ≠ .complete)
    (hr : (m'.ledger client).stage k ≠ .computing true) :
  (m'.engine.ruleInfo client k).result.value = (s₀.ruleInfo client k).result.value
    ∧ (m'.engine.ruleInfo client k).result.builtAt = (s₀.ruleInfo client k).result.builtAt
  := by
  obtain ⟨hc', hr'⟩ := hs.stage_before h hc hr
  rw [h.value_eq hr, h.builtAt_eq hc]
  exact ha.prior k hc' hr'

variable {r : TaskInputRequest Key}

/-- An answer stays an answer. -/
theorem IsAnswer.move
    (hs : m.Sound client) (h : Move client m m') {v : Option Value}
    (ha : IsAnswer client s₀ m.engine r v) :
  IsAnswer client s₀ m'.engine r v
  := by
  cases ha with
  | mustFollow ho => exact .mustFollow ho
  | prior ho hf hb => exact .prior ho hf hb
  | value ho hc =>
    have hstage := hs.stage_complete h (isComplete_iff_stage.mp hc)
    have hvalue := h.value_eq (k := r.inputRuleInfo) (by rw [hstage]; simp)
    rw [← hvalue]
    exact .value ho (isComplete_iff_stage.mpr hstage)

/-- A request that is about to be answered stays so, unless a task is taken from the queue
of the ready tasks. -/
theorem Moment.Answers.finished_move
    (ha : m.Answers client s₀) (hs : m.Sound client) (h : Move client m m')
    (hready : m.engine.readyTaskInfos.length ≤ m'.engine.readyTaskInfos.length)
    (r : TaskInputRequest Key) (hr : r ∈ m.engine.finishedInputRequests) :
  (m'.ledger client).stage r.inputRuleInfo = .complete
    ∨ r.forcePriorValue = true ∧ ((m'.ledger client).stage r.inputRuleInfo).isWaiting = true
      ∧ (m'.engine.ruleInfo client r.inputRuleInfo).result.builtAt ≠ 0
  := by
  obtain hc | ⟨hf, hw, hb⟩ := ha.finished r hr
  · exact .inl (hs.stage_complete h hc)
  · have hw' : ((m'.ledger client).stage r.inputRuleInfo).isWaiting = true := by
      obtain hl | hl := h.ledger hs.balanced
      · rw [hl]
        exact hw
      · exact hl.isWaiting hw hready
    refine .inr ⟨hf, hw', ?_⟩
    rw [h.builtAt_eq]
    · exact hb
    · intro hc
      rw [hc] at hw'
      cases hw'

omit [DecidableEq Value] in
/-- The answer that is given to a request. -/
theorem Moment.Answers.isAnswer
    (ha : m.Answers client s₀)
    (hr : r ∈ m.engine.finishedInputRequests) (ho : r.orderOnly = false) :
  IsAnswer client s₀ m.engine r
    (some (m.engine.ruleInfo client r.inputRuleInfo).result.value)
  := by
  obtain hc | ⟨hf, hw, hb⟩ := ha.finished r hr
  · exact .value ho (isComplete_iff_stage.mpr hc)
  · have hne : (m.ledger client).stage r.inputRuleInfo ≠ .complete
        ∧ (m.ledger client).stage r.inputRuleInfo ≠ .computing true := by
      constructor <;> (intro h; rw [h] at hw; cases hw)
    obtain ⟨hvalue, hbuilt⟩ := ha.prior r.inputRuleInfo hne.1 hne.2
    rw [hvalue]
    exact .prior ho hf (hbuilt ▸ hb)

theorem Moment.Answers.move
    (hs : m.Sound client) (ha : m.Answers client s₀) (h : Move client m m') :
  m'.Answers client s₀
  := by
  have hmove := h
  have hkeep (r : TaskInputRequest Key) (v : Option Value)
      (hr : .answered r v ∈ m.engine.events) : IsAnswer client s₀ m'.engine r v :=
    IsAnswer.move hs hmove (ha.answered r v hr)
  have hfinished := ha.finished_move hs hmove
  refine ⟨?_, ha.prior_move hs h, ?_⟩
  · cases h with
    | started k t h hs hc ht | decrement r k t ha hc hk h => exact hfinished (by simp)
    | recordAvailable r k hr ht h =>
      intro r' hr'
      obtain hr' | hr' := mem_append.mp hr'
      · obtain rfl : r' = r := mem_singleton.mp (mem_reverse.mp hr')
        exact .inl (hs.stage_complete hmove (isComplete_iff_stage.mp h))
      · exact hfinished le_rfl r' hr'
    | answer r rest k t c hrest hr hk ho hv h | answerOrderOnly r rest k hrest hr hk ho =>
      intro r' hr'
      exact hfinished le_rfl r' (by rw [hr]; exact .tail _ hr')
    | compute k rest t hk hrest hf h =>
      intro r' hr'
      change r' ∈ m.engine.finishedInputRequests at hr'
      rw [hf] at hr'
      cases hr'
    | completeRule k rest t hk hd h =>
      intro r' hr'
      obtain hr' | hr' := mem_append.mp hr'
      · obtain ⟨-, hinput⟩ := ((hs.located k).of_taskInfo h).1 r' (mem_reverse.mp hr')
        simp [hinput, stage]
      · exact hfinished le_rfl r' hr'
    | supplyPriorValue k r t hstuck h hb hr =>
      intro r' hr'
      obtain hr' | hr' := mem_append.mp hr'
      · obtain rfl := mem_singleton.mp (mem_reverse.mp hr')
        have ht : t.Located k := hs.located.of_state h
        have hinput := (ht.1 r hr).2
        refine .inr ⟨rfl, ?_, ?_⟩
        · simp [hinput, stage, Stage.isWaiting]
        · simpa [hinput] using hb
      · exact hfinished le_rfl r' hr'
    | _ => exact hfinished le_rfl
  · cases h with
    | report event he =>
      intro r v hr
      obtain hr | hr := mem_cons.mp hr
      · subst hr
        exact he.elim
      · exact hkeep r v hr
    | createTask k h hrest | startCallback k t c h hs hc hcall | request k call rest t hc hr h
    | compute k rest t hk hrest hf h =>
      intro r v hr
      obtain hr | hr := mem_cons.mp hr
      · cases hr
      · exact hkeep r v hr
    | answer r rest k t c hrest hr hk ho hv h =>
      intro r' v' hr'
      obtain hr' | hr' := mem_cons.mp hr'
      · cases hr'
      obtain hr' | hr' := mem_cons.mp hr'
      · cases hr'
        exact (ha.isAnswer (by rw [hr]; exact .head _) ho).move hs hmove
      · exact hkeep r' v' hr'
    | answerOrderOnly r rest k hrest hr hk ho =>
      intro r' v' hr'
      obtain hr' | hr' := mem_cons.mp hr'
      · cases hr'
        exact .mustFollow ho
      · exact hkeep r' v' hr'
    | _ => exact hkeep

/-! ### The order of answers -/

/-- No request of a task is answered after the task was told that its inputs are
available. -/
def Engine.AnswersFirst (s : Engine Key Value) : Prop :=
  ∀ k later earlier r v, s.events = later ++ .callback k .inputsAvailable :: earlier →
    .answered r v ∈ later → r.taskInfo ≠ some k

variable {s : Engine Key Value}

omit [LinearOrder Key] [DecidableEq Value] [Inhabited Value] in
theorem Engine.AnswersFirst.log (h : s.AnswersFirst)
    (event : Event Key Value)
    (he : ∀ r v k, event = .answered r v → r.taskInfo = some k →
      .callback k .inputsAvailable ∉ s.events) :
  (s.log event).AnswersFirst
  := by
  intro k later earlier r v hevents hr hk
  cases later with
  | nil => cases hr
  | cons event' later =>
    obtain ⟨rfl, htail⟩ := cons.inj (hevents.trans (cons_append ..))
    obtain hr | hr := mem_cons.mp hr
    · refine he r v k hr.symm hk ?_
      rw [htail]
      simp
    · exact h k later earlier r v htail hr hk

omit [DecidableEq Value] in
/-- A task that has unanswered requests was not told that its inputs are available. -/
theorem Moment.Sound.not_available (hs : m.Sound client) (h : 0 < m.onTheirWay (.ofTask k)) :
  .callback k .inputsAvailable ∉ m.engine.events
  := by
  intro hmem
  have havailable := hs.balanced.available k
  have hcreated := hs.balanced.created k
  rw [if_pos (hs.isWaiting h)] at havailable
  have hpos : 0 < (m.ledger client).available k :=
    countP_pos_iff.mpr ⟨_, hmem, by simp [isInputsAvailable]⟩
  omega

open Moment

theorem Engine.AnswersFirst.move (hs : m.Sound client)
    (ha : m.engine.AnswersFirst) (h : Move client m m') :
  m'.engine.AnswersFirst
  := by
  cases h with
  | report event he =>
    refine ha.log event ?_
    rintro r v k rfl
    exact he.elim
  | createTask | startCallback | request | compute => exact ha.log _ nofun
  | answer r rest k t c hrest hr hk ho hv h =>
    have hmem : r ∈ m.engine.finishedInputRequests := by
      rw [hr]
      exact .head _
    refine Engine.AnswersFirst.log (s := m.engine.log (.answered r
      (some (m.engine.ruleInfo client r.inputRuleInfo).result.value))) (ha.log _ ?_) _ nofun
    intro r' v' k' hr' hk'
    cases hr'
    exact hs.not_available (mem_finished_onTheirWay hmem hk')
  | answerOrderOnly r rest k hrest hr hk ho =>
    have hmem : r ∈ m.engine.finishedInputRequests := by
      rw [hr]
      exact .head _
    refine ha.log _ ?_
    intro r' v' k' hr' hk'
    cases hr'
    exact hs.not_available (mem_finished_onTheirWay hmem hk')
  | _ => exact ha

/-! ### Request accounting -/

/-- The number of requests with a property that are unanswered: in the queue of input
requests, paused on a scan record, held by the task of their input, or about to be
answered. -/
def Engine.unanswered (s : Engine Key Value) (p : RequestProperty Key) : ℕ :=
  s.inputRequests.countP p.holds + s.finishedInputRequests.countP p.holds
    + s.sum (countRequests p)

omit [LinearOrder Key] [DecidableEq Value] [Inhabited Value] in
theorem Execution.onTheirWay_moment (e : Execution Key Value) (p : RequestProperty Key) :
  e.moment.onTheirWay p = e.engine.unanswered p
  := by
  rw [onTheirWay, moment, between, Engine.unanswered]
  simp

/-- What the accounts of a build say, in a build that started in the state `s₀`. -/
structure Engine.Accounts (client : Client Key Value) (s₀ s : Engine Key Value) : Prop where
  /-- The wait count of a task is the number of its unanswered requests. -/
  waitCount : ∀ k t, (s.ruleInfo client k).state = .inProgressWaiting t →
    t.waitCount = s.unanswered (.ofTask k)
  /-- Only tasks that wait for inputs have unanswered requests. -/
  unanswered : ∀ k, 0 < s.unanswered (.ofTask k) →
    (s.ruleInfo client k).IsInProgressWaiting
  /-- The wait count of a task is positive when one of its requests is answered. -/
  positive : ∀ r ∈ s.finishedInputRequests, ∃ k t, r.taskInfo = some k
    ∧ (s.ruleInfo client k).state = .inProgressWaiting t ∧ 0 < t.waitCount
  /-- A request is unanswered, or it was answered, once. -/
  balance : ∀ p, s.made p = s.answered p + s.unanswered p
  /-- A request is answered with the value of its input. -/
  answers : ∀ r v, .answered r v ∈ s.events → IsAnswer client s₀ s r v
  /-- A task is told that its inputs are available once, unless it is waiting for them. -/
  available : ∀ k, s.events.countP (isInputsAvailable k)
    + (if (s.ruleInfo client k).IsInProgressWaiting then 1 else 0)
      = s.events.countP (isCreateTask k)
  /-- The task of a rule is created once at most. -/
  created : ∀ k, s.events.countP (isCreateTask k) ≤ 1
  /-- A task is told that its inputs are available after the last answer. -/
  last : s.AnswersFirst

omit [LinearOrder Key] [DecidableEq Value] [Inhabited Value] in
theorem RuleInfo.isInProgressWaiting_iff_stage {epoch : ℕ} {r : RuleInfo Key Value} :
  r.IsInProgressWaiting ↔ (r.stage epoch).isWaiting = true
  := by
  constructor
  · intro h
    obtain ⟨t, ht⟩ := kind_eq_inProgressWaiting.mp h
    rw [stage, ht]
    rfl
  · exact isInProgressWaiting_of_stage

/-- The accounts of a build are right in every state, as long as it is not being
cancelled. -/
theorem Engine.Quiet.accounts (hq : s.Quiet) {key : Key} {e : Execution Key Value}
    {actions : List (Action Key)} (hrun : (start client key s).run client actions = some e)
    (htrap : e.engine.trap = none) (hlive : e.IsLive) :
  Accounts client s e.engine
  := by
  have hs := ((inv_start client hq key).run hrun htrap).sound hlive
  have hbalance : ∀ p, e.moment.onTheirWay p + e.engine.answered p = e.engine.made p := by
    refine hq.invariant (P := fun m => ∀ p,
      m.onTheirWay p + m.engine.answered p = m.engine.made p) ?_ ?_ hrun htrap hlive
    · intro m m' _ hp h p
      have hc := h.conservation p
      have := hp p
      omega
    · intro p
      rw [hq.onTheirWay]
      rfl
  have hanswers : e.moment.Answers client s :=
    hq.invariant (P := fun m => m.Answers client s)
      (fun m m' hs ha h => Moment.Answers.move hs ha h)
      ⟨nofun, fun _ _ _ => ⟨rfl, rfl⟩, nofun⟩ hrun htrap hlive
  have hlast : e.engine.AnswersFirst := by
    refine hq.invariant (P := fun m => m.engine.AnswersFirst)
      (fun m m' hs ha h => Engine.AnswersFirst.move hs ha h) ?_ hrun htrap hlive
    intro k later earlier r v hevents
    exact absurd hevents.symm (by simp [opening])
  have hwait (k : Key) := hs.balanced.waitCount k
  have hunanswered (k : Key) : (e.moment.ledger client).unanswered k
      = e.engine.unanswered (.ofTask k) := e.onTheirWay_moment (.ofTask k)
  have hwaitCount : ∀ k t, (e.engine.ruleInfo client k).state = .inProgressWaiting t →
      t.waitCount = e.engine.unanswered (.ofTask k) := by
    intro k t ht
    have hstage : (e.moment.ledger client).stage k = .waiting t.waitCount t.reported := by
      rw [ledger_stage, RuleInfo.stage, moment, between, ht]
    have hk := hwait k
    rw [hstage, hunanswered] at hk
    exact hk
  have hwaiting : ∀ k, 0 < e.engine.unanswered (.ofTask k) →
      (e.engine.ruleInfo client k).IsInProgressWaiting := by
    intro k hk
    rw [← e.onTheirWay_moment] at hk
    exact RuleInfo.isInProgressWaiting_of_stage (hs.isWaiting hk)
  refine ⟨hwaitCount, hwaiting, ?_, ?_, hanswers.answered, ?_, hs.balanced.created, hlast⟩
  · intro r hr
    obtain ⟨k, hk⟩ := Option.isSome_iff_exists.mp (hs.fromTasks r hr)
    have hpos : 0 < e.engine.unanswered (.ofTask k) := by
      rw [← e.onTheirWay_moment]
      exact mem_finished_onTheirWay hr hk
    obtain ⟨t, ht⟩ := kind_eq_inProgressWaiting.mp (hwaiting k hpos)
    exact ⟨k, t, hk, ht, by rw [hwaitCount k t ht]; exact hpos⟩
  · intro p
    have := hbalance p
    rw [e.onTheirWay_moment] at this
    omega
  · intro k
    have havailable := hs.balanced.available k
    simp only [← RuleInfo.isInProgressWaiting_iff_stage, ledger_stage] at havailable
    exact havailable

omit [DecidableEq Value] [Inhabited Value] in
/-- A request that is unanswered is a request of a task that waits for it. -/
theorem Engine.exists_ofTask_unanswered {p : RequestProperty Key} (h : 0 < s.unanswered p) :
  ∃ k, 0 < s.unanswered (.ofTask k)
  := by
  have hlist (l : List (TaskInputRequest Key)) (hl : 0 < l.countP p.holds) :
      ∃ k, 0 < l.countP (RequestProperty.ofTask k).holds := by
    obtain ⟨r, hr, hp⟩ := countP_pos_iff.mp hl
    cases hk : r.taskInfo with
    | none =>
      rw [p.dummy r hk] at hp
      cases hp
    | some k => exact ⟨k, countP_pos_iff.mpr ⟨r, hr, by simp [RequestProperty.ofTask, hk]⟩⟩
  have hheld (hh : 0 < s.sum (countRequests p)) :
      ∃ k, 0 < s.sum (countRequests (.ofTask k)) := by
    by_contra hnone
    have hzero : s.sum (countRequests p) = 0 := by
      apply Table.total_eq_zero.mpr
      intro k r hr
      by_contra hpos
      obtain ⟨k', hk'⟩ := hlist r.state.requests (Nat.pos_of_ne_zero hpos)
      have hzero : s.sum (countRequests (.ofTask k')) = 0 := by
        by_contra hne
        exact hnone ⟨k', Nat.pos_of_ne_zero hne⟩
      exact absurd (Table.total_eq_zero.mp hzero k r hr) hk'.ne'
    omega
  simp only [Engine.unanswered] at h ⊢
  by_cases hinput : 0 < s.inputRequests.countP p.holds
  · obtain ⟨k, hk⟩ := hlist _ hinput
    exact ⟨k, by omega⟩
  · by_cases hfinished : 0 < s.finishedInputRequests.countP p.holds
    · obtain ⟨k, hk⟩ := hlist _ hfinished
      exact ⟨k, by omega⟩
    · obtain ⟨k, hk⟩ := hheld (by omega)
      exact ⟨k, by omega⟩

omit [DecidableEq Value] in
/-- Every request was answered once no task is in progress. -/
theorem Engine.Accounts.answered_eq (h : Accounts client s₀ s)
    (hs : s.Settled) (p : RequestProperty Key) :
  s.answered p = s.made p
  := by
  have hzero : s.unanswered p = 0 := by
    by_contra hne
    obtain ⟨k, hk⟩ := exists_ofTask_unanswered (Nat.pos_of_ne_zero hne)
    obtain ⟨t, ht⟩ := kind_eq_inProgressWaiting.mp (h.unanswered k hk)
    have hnone := taskInfo_eq_none client hs.taskInfo k
    rw [ht] at hnone
    cases hnone
  rw [h.balance p, hzero]
  rfl

omit [DecidableEq Value] in
/-- A task was told that its inputs are available once no task is in progress. -/
theorem Engine.Accounts.available_eq (h : Accounts client s₀ s) (hs : s.Settled) (k : Key) :
  s.events.countP (isInputsAvailable k) = s.events.countP (isCreateTask k)
  := by
  have hnot : ¬ (s.ruleInfo client k).IsInProgressWaiting := by
    intro hk
    obtain ⟨t, ht⟩ := kind_eq_inProgressWaiting.mp hk
    have hnone := taskInfo_eq_none client hs.taskInfo k
    rw [ht] at hnone
    cases hnone
  have havailable := h.available k
  rw [if_neg hnot] at havailable
  exact havailable

/-- In every state of a build, as long as it is not being cancelled, the accounts are right:
the wait count of a task is the number of its unanswered requests, each request is
unanswered or was answered once, with the value it has to be answered with, and a task that
is not waiting any more was told once, after the last answer, that its inputs are available.
When the build returns with success every request was answered and every task was told. -/
theorem Engine.Between.request_accounting {s : Engine Key Value} (hs : Between s)
    (client : Client Key Value) (key : Key) {e : Execution Key Value} {actions : List (Action Key)}
    (hrun : (start client key s).run client actions = some e) :
  e.engine.trap ≠ some .danglingTaskInfo
    ∧ (e.engine.trap = none → e.IsLive → Accounts client s e.engine)
    ∧ (e.phase = .returned true → (∀ p, e.engine.answered p = e.engine.made p)
      ∧ ∀ k, e.engine.events.countP (isInputsAvailable k)
        = e.engine.events.countP (isCreateTask k))
  := by
  have hq := hs.quiet
  have hinv := inv_start client hq key
  have htrap := trap_start client hq.trap key
  refine ⟨hinv.trap_run htrap hrun, hq.accounts hrun, ?_⟩
  intro hp
  have htrap' := trap_of_returned hinv htrap hrun hp
  have haccounts := hq.accounts hrun htrap' (by rw [Execution.IsLive, hp]; trivial)
  have hsettled := (hinv.run hrun htrap').settled true hp
  exact ⟨haccounts.answered_eq hsettled, haccounts.available_eq hsettled⟩

set_option maxRecDepth 4000 in
theorem Engine.Between.request_accounting_triangle :
  ∃ e, (start .triangle 0 (.fresh none)).run .triangle
      ((start .triangle 0 (.fresh none)).lateActions .triangle 100) = some e
    ∧ e.engine.made (.ofTask 0) = 2 ∧ e.engine.answered (.ofTask 0) = 2
  := by
  have hreturned : ((start .triangle 0 (.fresh none)).run .triangle
      ((start .triangle 0 (.fresh none)).lateActions .triangle 100)).map
        (fun e => (e.phase, e.engine.made (.ofTask 0))) = some (.returned true, 2) := by
    decide
  obtain ⟨e, hrun, he⟩ := Option.map_eq_some_iff.mp hreturned
  obtain ⟨hp, hmade⟩ := Prod.mk.inj he
  obtain ⟨-, -, hanswered⟩ := request_accounting (.fresh none) .triangle 0 hrun
  refine ⟨e, hrun, hmade, ?_⟩
  rw [(hanswered hp).1, hmade]

/-! ### Whole builds -/

set_option maxRecDepth 4000 in
theorem exists_triangle :
  ∃ e, (start .triangle 0 (.fresh none)).run .triangle
      ((start .triangle 0 (.fresh none)).lateActions .triangle 100) = some e
    ∧ e.phase = .returned true ∧ e.engine.trap = none
  := by
  have hreturned : ((start .triangle 0 (.fresh none)).run .triangle
      ((start .triangle 0 (.fresh none)).lateActions .triangle 100)).map
        (fun e => (e.phase, e.engine.trap)) = some (.returned true, none) := by
    decide
  obtain ⟨e, hrun, he⟩ := Option.map_eq_some_iff.mp hreturned
  exact ⟨e, hrun, Prod.mk.inj he⟩

section

variable {s : Engine Key Value} (hs : Engine.Between s) (client : Client Key Value) (key : Key)
    {e : Execution Key Value} {actions : List (Action Key)}
    (hrun : (start client key s).run client actions = some e) (htrap : e.engine.trap = none)
include hs hrun htrap

/-- **A build refines the ledger.**  Whatever its schedule, and as long as it is not being
cancelled, a build goes through moves of the ledger. -/
theorem Engine.Between.refines_ledger (hlive : e.IsLive) :
  Relation.ReflTransGen Ledger.Move ((s.opening key).ledger client) (e.moment.ledger client)
  := by
  refine hs.quiet.invariant
    (P := fun m => Relation.ReflTransGen Ledger.Move ((s.opening key).ledger client)
      (m.ledger client)) ?_ .refl hrun htrap hlive
  intro m m' hsound hm h
  obtain heq | hmove := h.ledger hsound.balanced
  · rw [heq]
    apply hm
  · apply hm.tail hmove

omit hs hrun htrap in
theorem Engine.Between.refines_ledger_triangle :
  ∃ e : Execution ℕ ℕ, e.phase = .returned true ∧ Relation.ReflTransGen Ledger.Move
    (((Engine.fresh none).opening 0).ledger .triangle) (e.moment.ledger .triangle)
  := by
  obtain ⟨e, hrun, hp, htrap⟩ := exists_triangle
  refine ⟨e, hp, refines_ledger (.fresh none) .triangle 0 hrun htrap ?_⟩
  rw [IsLive, hp]
  trivial

/-- **The queues of a build.**  As long as it is not being cancelled, the tasks that wait for
nothing are ready and those that have reported are finished, each queued once and no others, and
the tasks that are outstanding are those that compute.  When a build has returned, in whatever
way, nothing is queued and no task is left. -/
theorem Engine.Between.queues :
  (e.IsLive → e.engine.numOutstandingUnfinishedTasks = e.engine.computing
      ∧ ∀ k, let stage := (e.engine.ruleInfo client k).stage e.engine.currentEpoch
        e.engine.readyTaskInfos.count k
            = (if stage.isWaiting ∧ stage.waitCount = 0 then 1 else 0)
          ∧ e.engine.finishedTaskInfos.count k = if stage = .computing true then 1 else 0)
    ∧ ∀ success, e.phase = .returned success → e.engine.Settled
  := by
  have hinv := (inv_start client hs.quiet key).run hrun htrap
  constructor
  · intro hlive
    have hb := (hinv.sound hlive).balanced
    refine ⟨hb.outstanding, fun k => ⟨?_, hb.finished k⟩⟩
    have hready := hb.ready k
    simpa [Execution.moment, Moment.between] using hready
  · apply hinv.settled

omit hs hrun htrap in
theorem Engine.Between.queues_triangle :
  ∃ e : Execution ℕ ℕ, e.phase = .returned true ∧ e.engine.Settled
  := by
  obtain ⟨e, hrun, hp, htrap⟩ := exists_triangle
  exact ⟨e, hp, (queues (.fresh none) .triangle 0 hrun htrap).2 true hp⟩

end

end LLBuild

import LLBuild.Core.Invariants

/-!
# Runs

The states a build passes through, from the start to the end: while the build is not being
cancelled each of them is sound, and when it returns nothing is left in the queues and no
task is in progress.  So the next build starts again from a state in which nothing is left
of the builds before.
-/

namespace LLBuild

open Table

open Option

open RuleInfo

variable {Key Value : Type} [LinearOrder Key] [DecidableEq Value] [Inhabited Value]
variable {client : Client Key Value}

/-! ### Sequences of moves -/

variable {m m' : Moment Key Value}

theorem Moves.sound (h : Moves client m m') (hs : m.Sound client) :
  m'.Sound client
  := by
  induction h with
  | refl => exact hs
  | tail _ hmove ih => exact ih.move hmove

theorem Moves.timely (h : Moves client m m') (ht : m.engine.Timely client) :
  m'.engine.Timely client
  := by
  induction h with
  | refl => exact ht
  | tail _ hmove ih => exact hmove.timely ih

/-- What is kept by the moves from sound states is kept by sequences of moves. -/
theorem Moves.invariant {P : Moment Key Value → Prop}
    (hmove : ∀ m m', m.Sound client → P m → Move client m m' → P m')
    (h : Moves client m m') (hs : m.Sound client) (hp : P m) :
  P m'
  := by
  induction h with
  | refl => exact hp
  | tail hmoves hlast ih => exact hmove _ _ (Moves.sound hmoves hs) ih hlast

section

variable (h : Moves client m m')
include h

theorem Moves.currentEpoch :
  m'.engine.currentEpoch = m.engine.currentEpoch
  := by
  induction h with
  | refl => rfl
  | tail _ hmove ih => exact hmove.currentEpoch.trans ih

/-- The only undefined behaviour of a move is the call of `abort`. -/
theorem Moves.trap :
  m'.engine.trap = m.engine.trap ∨ m'.engine.trap = some .abort
  := by
  induction h with
  | refl => exact .inl rfl
  | tail _ hmove ih =>
    cases hmove with
    | abort k call rest hc h => exact .inr rfl
    | _ => exact ih

theorem Moves.trap_ne (htrap : m.engine.trap = none) :
  m'.engine.trap ≠ some .danglingTaskInfo
  := by
  obtain hsame | habort := Moves.trap h
  · rw [hsame, htrap]
    exact nofun
  · rw [habort]
    exact nofun

end

/-! ### The end of a build -/

namespace Engine

/-- Nothing is queued, and no task is in progress. -/
structure Settled (s : Engine Key Value) : Prop where
  inputRequests : s.inputRequests = []
  finishedInputRequests : s.finishedInputRequests = []
  ruleInfosToScan : s.ruleInfosToScan = []
  readyTaskInfos : s.readyTaskInfos = []
  finishedTaskInfos : s.finishedTaskInfos = []
  numOutstandingUnfinishedTasks : s.numOutstandingUnfinishedTasks = 0
  taskInfo : ∀ k r, s.ruleInfos.lookup k = some r → r.state.taskInfo = none

omit [DecidableEq Value] [Inhabited Value] in
theorem hasTasks_eq_false {s : Engine Key Value} :
  s.hasTasks = false ↔ ∀ k r, s.ruleInfos.lookup k = some r → r.state.taskInfo = none
  := by
  rw [hasTasks, List.any_eq_false]
  constructor
  · intro h k r hr
    simpa using h ⟨k, r⟩ (mem_entries.mpr hr)
  · intro h e he
    simpa using h e.1 e.2 (mem_entries.mp he)

omit [DecidableEq Value] in
variable (client) in
theorem taskInfo_eq_none {s : Engine Key Value}
    (h : ∀ k r, s.ruleInfos.lookup k = some r → r.state.taskInfo = none) (k : Key) :
  (s.ruleInfo client k).state.taskInfo = none
  := by
  rw [ruleInfo]
  cases hr : s.ruleInfos.lookup k with
  | none => rfl
  | some r => exact h k r hr

omit [LinearOrder Key] [DecidableEq Value] [Inhabited Value] in
theorem taskInfo_setCancelled (r : RuleInfo Key Value) :
  r.setCancelled.state.taskInfo = none
  := by
  rw [RuleInfo.setCancelled]
  split_ifs with h
  · rfl
  · cases hs : r.state with
    | inProgressWaiting t =>
      exact absurd (.inl (.inl (RuleState.kind_eq_inProgressWaiting.mpr ⟨t, hs⟩))) h
    | inProgressComputing t =>
      exact absurd (.inl (.inr (RuleState.kind_eq_inProgressComputing.mpr ⟨t, hs⟩))) h
    | _ => rfl

variable (s : Engine Key Value) (unrecorded : Option Key)

omit [DecidableEq Value] in
theorem cancelRemainingTasks_ruleInfos :
  (s.cancelRemainingTasks client unrecorded).ruleInfos
    = map RuleInfo.setCancelled
      (unrecorded.elim s (s.setState client · .incomplete)).ruleInfos
  := by
  cases unrecorded with
  | none => rfl
  | some k => rfl

omit [LinearOrder Key] [DecidableEq Value] [Inhabited Value] in
theorem freeRuleScanRecords_ruleInfos :
  s.freeRuleScanRecords.ruleInfos = map freeScanRecord s.ruleInfos
  := rfl

omit [DecidableEq Value] in
theorem ruleInfo_cancelRemainingTasks (k : Key) :
  (s.cancelRemainingTasks client unrecorded).ruleInfo client k
    = ((unrecorded.elim s (s.setState client · .incomplete)).ruleInfo
      client k).setCancelled
  := by
  have hdb : (s.cancelRemainingTasks client unrecorded).db
      = (unrecorded.elim s (s.setState client · .incomplete)).db := by
    cases unrecorded <;> rfl
  rw [ruleInfo, cancelRemainingTasks_ruleInfos, lookup_map, hdb, ruleInfo]
  cases (unrecorded.elim s (s.setState client · .incomplete)).ruleInfos.lookup k with
  | none => rfl
  | some r => rfl

omit [DecidableEq Value] in
theorem settled_cancelRemainingTasks (h : s.numOutstandingUnfinishedTasks = 0) :
  (s.cancelRemainingTasks client unrecorded).Settled
  := by
  refine ⟨rfl, rfl, rfl, rfl, rfl, ?_, ?_⟩
  · cases unrecorded with
    | none => exact h
    | some k => exact h
  · intro k r hr
    rw [cancelRemainingTasks_ruleInfos] at hr
    rw [lookup_map, map_eq_some_iff] at hr
    obtain ⟨r', -, rfl⟩ := hr
    exact taskInfo_setCancelled r'

omit [DecidableEq Value] in
/-- The states in which the rules are left at the end of a build. -/
theorem Settled.quiet {s : Engine Key Value} (h : s.Settled) (ht : s.Timely client)
    (htrap : s.trap = none) :
  s.freeRuleScanRecords.Quiet
  := by
  refine ⟨h.inputRequests, h.ruleInfosToScan, h.readyTaskInfos, h.finishedTaskInfos,
    h.numOutstandingUnfinishedTasks, htrap, ?_, ?_⟩
  · intro k r hr
    rw [freeRuleScanRecords_ruleInfos, lookup_map, map_eq_some_iff] at hr
    obtain ⟨r', hr', rfl⟩ := hr
    have htask := h.taskInfo k r' hr'
    rw [freeScanRecord]
    split_ifs with hscan
    · trivial
    · cases hs : r'.state with
      | isScanning record => exact absurd (RuleState.kind_eq_isScanning.mpr ⟨record, hs⟩) hscan
      | inProgressWaiting t | inProgressComputing t => simp [hs, RuleState.taskInfo] at htask
      | _ => trivial
  · intro k r hr hkind
    rw [freeRuleScanRecords_ruleInfos, lookup_map, map_eq_some_iff] at hr
    obtain ⟨r', hr', rfl⟩ := hr
    have hk := ht k
    rw [ruleInfo, hr'] at hk
    rw [freeScanRecord] at hkind ⊢
    split_ifs at hkind ⊢
    · cases hkind
    · exact hk hkind

end Engine

namespace Execution

/-- What holds in every state of a build. -/
structure Inv (client : Client Key Value) (e : Execution Key Value) : Prop where
  timely : e.engine.Timely client
  drained : e.Drained
  sound : e.IsLive → e.moment.Sound client
  settled : ∀ success, e.phase = .returned success → e.engine.Settled

variable (client) in
theorem inv_start {s : Engine Key Value} (hq : s.Quiet) (key : Key) :
  (start client key s).Inv client
  := by
  have hsound : (start client key s).moment.Sound client :=
    Moves.sound (Engine.opening_moves key s) (hq.sound key)
  exact ⟨hsound.timely, ⟨nofun, fun _ => trivial⟩, fun _ => hsound, nofun⟩

variable {e : Execution Key Value}

omit [DecidableEq Value] in
theorem settled_of_success (hd : e.Drained)
    (hs : e.moment.Sound client) (hp : e.phase = .endOfBody) (hw : e.didWork = false)
    (ho : e.engine.numOutstandingUnfinishedTasks = 0) (ht : e.engine.hasTasks = false) :
  e.engine.Settled
  := by
  have hqueues := hd.2 hw
  rw [hp] at hqueues
  obtain ⟨hscan, hinput, hfinished, hready⟩ := hqueues
  have htasks := Engine.hasTasks_eq_false.mp ht
  refine ⟨hinput, hfinished, hscan, hready, ?_, ho, htasks⟩
  apply List.eq_nil_iff_forall_not_mem.mpr
  intro k hk
  obtain ⟨t, hsome⟩ :=
    taskInfo_of_isInProgress (hs.tasksInProgress.finishedTaskInfos k hk)
  exact absurd hsome (by rw [moment, Moment.between, Engine.taskInfo_eq_none client htasks]; simp)

omit [DecidableEq Value] in
/-- The rules are timely when the remaining tasks have been cancelled. -/
theorem timely_cancelRemainingTasks {s : Engine Key Value} (hs : s.Timely client)
    (unrecorded : Option Key) :
  (s.cancelRemainingTasks client unrecorded).Timely client
  := by
  have hs' : (unrecorded.elim s (s.setState client · .incomplete)).Timely client := by
    cases unrecorded with
    | none => exact hs
    | some k => exact hs.modifyRuleInfo k _ nofun
  intro k hkind
  have hepoch : (s.cancelRemainingTasks client unrecorded).currentEpoch = s.currentEpoch := by
    cases unrecorded <;> rfl
  have hepoch' : (unrecorded.elim s (s.setState client · .incomplete)).currentEpoch
      = s.currentEpoch := by
    cases unrecorded <;> rfl
  have hk := hs' k
  rw [hepoch'] at hk
  rw [Engine.ruleInfo_cancelRemainingTasks, setCancelled] at hkind
  rw [Engine.ruleInfo_cancelRemainingTasks, hepoch, setCancelled]
  split_ifs at hkind ⊢
  · cases hkind
  · exact hk hkind

omit [LinearOrder Key] [DecidableEq Value] [Inhabited Value] in
theorem not_isLive :
  ¬ e.IsLive ↔ (∃ unrecorded, e.phase = .cancelling unrecorded) ∨ e.phase = .returned false
  := by
  rw [IsLive]
  split
  next unrecorded hp => simp [hp]
  next hp => simp [hp]
  next hc hr => simpa using ⟨hc, hr⟩

variable {e' : Execution Key Value} {a : Action Key}

/-- A build is cancelled for a rule if its result could not be recorded. -/
theorem step_failed {k : Key} (hlive : e.IsLive) (hstep : e.step client a = some e')
    (hk : e'.phase = .cancelling (some k)) :
  ∃ rest, e.engine.finishedTaskInfos = k :: rest
    ∧ ((e.engine.setFinishedTaskInfos rest).processFinishedTask client k).1 = false
    ∧ e'.engine = ((e.engine.setFinishedTaskInfos rest).processFinishedTask client k).2
  := by
  rw [IsLive] at hlive
  cases a with
  | work =>
    obtain ⟨-, hwork⟩ := step_work hstep
    cases works_of_work hwork with
    | finishFailed k' rest hp hk' hr =>
      cases hk
      exact ⟨rest, hk', hr, rfl⟩
    | drain unrecorded hp ho h =>
      rw [hp] at hlive
      exact hlive.elim
    | dropScan q rest hp h hs | input r rest hp h | answer r rest hp h | ready k' rest hp h
    | finish k' rest hp h hr => simp [hp] at hk
    | _ => cases hk
  | complete k' =>
    obtain ⟨t, -, -, -, rfl⟩ := step_complete hstep
    rw [hk] at hlive
    exact hlive.elim
  | cancel =>
    cases hstep
    rw [hk] at hlive
    exact hlive.elim

/-- A build that could not record a result has completed its rule before. -/
theorem Inv.unrecorded {k : Key} (h : e.Inv client) (hlive : e.IsLive)
    (hstep : e.step client a = some e') (hk : e'.phase = .cancelling (some k)) :
  ∃ s, Moves client e.moment { e.moment with engine := s } ∧ s.Unrecorded e'.engine
    ∧ (client.dbError (.setRuleResult k)).isSome
  := by
  obtain ⟨rest, hfinished, hfalse, heq⟩ := step_failed hlive hstep hk
  have hprogress := (h.sound hlive).tasksInProgress.finishedTaskInfos k
    (by rw [moment, Moment.between, hfinished]; exact List.mem_cons_self)
  rw [heq]
  exact Engine.processFinishedTask_failed e.moment k rest hfinished rfl hprogress hfalse

/-- A build that returns with success leaves nothing behind. -/
theorem Inv.settled_step (h : e.Inv client)
    (hstep : e.step client a = some e') {success : Bool} (hp : e'.phase = .returned success) :
  e'.engine.Settled
  := by
  cases a with
  | work =>
    obtain ⟨-, hwork⟩ := step_work hstep
    cases works_of_work hwork with
    | success hp' hw ho ht hc =>
      exact settled_of_success (e := e) h.drained (h.sound (by rw [IsLive, hp']; trivial)) hp'
        hw ho ht
    | cancelTasks unrecorded hp ho => exact Engine.settled_cancelRemainingTasks _ _ ho
    | dropScan q rest hp' hq hs | input r rest hp' hr | answer r rest hp' hr
    | ready k' rest hp' hk | finish k' rest hp' hk hr | drain unrecorded hp' ho hf =>
      simp [hp'] at hp
    | _ => cases hp
  | complete k =>
    obtain ⟨t, hstate, -, -, rfl⟩ := step_complete hstep
    have htask := Engine.taskInfo_eq_none client (h.settled success hp).taskInfo k
    rw [hstate] at htask
    cases htask
  | cancel =>
    cases hstep
    have hs := h.settled success hp
    exact ⟨hs.inputRequests, hs.finishedInputRequests, hs.ruleInfosToScan, hs.readyTaskInfos,
      hs.finishedTaskInfos, hs.numOutstandingUnfinishedTasks, hs.taskInfo⟩

/-- What happens to a build that is being cancelled: the outstanding tasks report, and in the
end what remains is cancelled. -/
inductive Cancels (client : Client Key Value) (e : Execution Key Value) :
    Execution Key Value → Prop
  | complete (k : Key) (t : TaskInfo Key Value)
      (hstate : (e.engine.ruleInfo client k).state = .inProgressComputing t)
      (hr : t.reported = false) :
      Cancels client e { e with engine := e.engine.finishTask client k }
  | cancel : Cancels client e { e with engine := e.engine.setCancelled }
  | drain (n : ℕ) (tasks : List Key) :
      Cancels client e { e with
        engine := (e.engine.setOutstanding n).setFinishedTaskInfos tasks }
  | cancelTasks (unrecorded : Option Key) (hp : e.phase = .cancelling unrecorded)
      (ho : e.engine.numOutstandingUnfinishedTasks = 0) :
      Cancels client e { e with
        engine := e.engine.cancelRemainingTasks client unrecorded, phase := .returned false }

theorem cancels_of_step (hlive : ¬ e.IsLive) (hstep : e.step client a = some e') :
  Cancels client e e'
  := by
  cases a with
  | work =>
    obtain ⟨-, hwork⟩ := step_work hstep
    obtain ⟨unrecorded, hp⟩ | hp := not_isLive.mp hlive
    · rw [work, hp] at hwork
      dsimp only at hwork
      rw [stepCancelling] at hwork
      split_ifs at hwork with ho
      · cases hwork
        exact .drain _ _
      · cases hwork
        exact .cancelTasks unrecorded hp (not_not.mp ho)
    · rw [work, hp] at hwork
      cases hwork
  | complete k =>
    obtain ⟨t, hstate, hr, -, rfl⟩ := step_complete hstep
    exact .complete k t hstate hr
  | cancel =>
    cases hstep
    exact .cancel

section

variable (h : Cancels client e e')
include h

theorem Cancels.not_isLive (hlive : ¬ e.IsLive) :
  ¬ e'.IsLive
  := by
  cases h with
  | cancelTasks unrecorded hp ho => exact id
  | _ => exact hlive

theorem Cancels.timely (ht : e.engine.Timely client) :
  e'.engine.Timely client
  := by
  cases h with
  | complete k t hstate hr =>
    exact Moves.timely (Engine.finishTask_spec e.moment k t hstate hr) ht
  | cancel | drain => exact ht
  | cancelTasks unrecorded hp ho => exact timely_cancelRemainingTasks ht unrecorded

/-- Nothing is created, and nothing goes wrong, while a build is being cancelled. -/
theorem Cancels.events :
  e'.engine.events = e.engine.events ∧ e'.engine.trap = e.engine.trap
  := by
  cases h with
  | complete k t hstate hr => exact Engine.finishTask_events hstate
  | cancel | drain => exact ⟨rfl, rfl⟩
  | cancelTasks unrecorded hp ho => cases unrecorded <;> exact ⟨rfl, rfl⟩

end

/-- What a step of a build can be, unless the behaviour is undefined. -/
theorem Inv.step_cases (h : e.Inv client) (hstep : e.step client a = some e') :
  e.IsLive ∧ (∀ k, e'.phase ≠ .cancelling (some k)) ∧ Moves client e.moment e'.moment
    ∨ (∃ k s, e.IsLive ∧ e'.phase = .cancelling (some k)
      ∧ Moves client e.moment { e.moment with engine := s } ∧ s.Unrecorded e'.engine
      ∧ (client.dbError (.setRuleResult k)).isSome)
    ∨ ¬ e.IsLive ∧ Cancels client e e'
    ∨ e'.engine.trap = some .danglingScanRecord
    ∨ e'.engine.trap = some .pastTheEnd
  := by
  by_cases hlive : e.IsLive
  · by_cases hfailed : ∃ k, e'.phase = .cancelling (some k)
    · obtain ⟨k, hk⟩ := hfailed
      obtain ⟨s, hmoves, hunrecorded, herror⟩ := h.unrecorded hlive hstep hk
      exact .inr (.inl ⟨k, s, hlive, hk, hmoves, hunrecorded, herror⟩)
    · have hrecorded (k : Key) : e'.phase ≠ .cancelling (some k) := fun hk => hfailed ⟨k, hk⟩
      obtain hmoves | htrap :=
        step_reaches h.drained (h.sound hlive).tasksInProgress hlive hrecorded hstep
      · exact .inl ⟨hlive, hrecorded, hmoves⟩
      · exact .inr (.inr (.inr htrap))
  · exact .inr (.inr (.inl ⟨hlive, cancels_of_step hlive hstep⟩))

/-- A step from a state in which the invariant holds leads to one, unless the behaviour is
undefined. -/
theorem Inv.step (h : e.Inv client)
    (hstep : e.step client a = some e') (htrap : e'.engine.trap = none) :
  e'.Inv client
  := by
  have hdrained := h.drained.step hstep
  have hsettled (success : Bool) (hp : e'.phase = .returned success) : e'.engine.Settled :=
    h.settled_step hstep hp
  obtain ⟨hlive, -, hmoves⟩ | ⟨k, s, hlive, hk, hmoves, hunrecorded, -⟩ | ⟨hlive, hcancels⟩
    | hdangling | hpast := h.step_cases hstep
  · have hs := Moves.sound hmoves (h.sound hlive)
    exact ⟨hs.timely, hdrained, fun _ => hs, hsettled⟩
  · refine ⟨?_, hdrained, ?_, hsettled⟩
    · intro k
      rw [hunrecorded.ruleInfo, hunrecorded.currentEpoch]
      exact Moves.timely hmoves h.timely k
    · intro hlive'
      rw [IsLive, hk] at hlive'
      exact hlive'.elim
  · exact ⟨hcancels.timely h.timely, hdrained,
      fun h => absurd h (hcancels.not_isLive hlive), hsettled⟩
  · rw [htrap] at hdangling
    cases hdangling
  · rw [htrap] at hpast
    cases hpast

theorem step_trap (hstep : e.step client a = some e') (htrap : e'.engine.trap = none) :
  e.engine.trap = none
  := by
  cases a with
  | work => exact (step_work hstep).1
  | complete k =>
    obtain ⟨t, -, -, h, -⟩ := step_complete hstep
    exact h
  | cancel =>
    cases hstep
    exact htrap

variable {actions : List (Action Key)}

theorem run_cons (h : e.run client (a :: actions) = some e') :
  ∃ e₁, e.step client a = some e₁ ∧ e₁.run client actions = some e'
  := bind_eq_some_iff.mp h

theorem run_trap (hrun : e.run client actions = some e') (htrap : e'.engine.trap = none) :
  e.engine.trap = none
  := by
  induction actions generalizing e with
  | nil =>
    cases hrun
    exact htrap
  | cons a actions ih =>
    obtain ⟨e₁, hstep, hrun⟩ := run_cons hrun
    exact step_trap hstep (ih hrun)

theorem Inv.run (h : e.Inv client)
    (hrun : e.run client actions = some e') (htrap : e'.engine.trap = none) :
  e'.Inv client
  := by
  induction actions generalizing e with
  | nil =>
    cases hrun
    exact h
  | cons a actions ih =>
    obtain ⟨e₁, hstep, hrun⟩ := run_cons hrun
    exact ih (h.step hstep (run_trap hrun htrap)) hrun

/-- What is kept by the moves from sound states holds in every state of a run, as long as
the build is not being cancelled. -/
theorem invariant {P : Moment Key Value → Prop}
    (hmove : ∀ m m', m.Sound client → P m → Move client m m' → P m') (h : e.Inv client)
    (hp : e.IsLive → P e.moment) (hrun : e.run client actions = some e')
    (htrap : e'.engine.trap = none) (hlive : e'.IsLive) :
  P e'.moment
  := by
  induction actions generalizing e with
  | nil =>
    cases hrun
    exact hp hlive
  | cons a actions ih =>
    obtain ⟨e₁, hstep, hrun⟩ := run_cons hrun
    have htrap₁ := run_trap hrun htrap
    refine ih (h.step hstep htrap₁) ?_ hrun
    intro hlive₁
    obtain ⟨hlive₀, -, hmoves⟩ | ⟨k, s, hlive₀, hk, -⟩ | ⟨hlive₀, hcancels⟩ | hdangling | hpast :=
      h.step_cases hstep
    · exact Moves.invariant hmove hmoves (h.sound hlive₀) (hp hlive₀)
    · rw [IsLive, hk] at hlive₁
      exact hlive₁.elim
    · exact absurd hlive₁ (hcancels.not_isLive hlive₀)
    · rw [htrap₁] at hdangling
      cases hdangling
    · rw [htrap₁] at hpast
      cases hpast

end Execution

namespace Engine

/-- What is kept by the moves from sound states, and holds as a build opens, holds in every
state of the build, as long as it is not being cancelled. -/
theorem Quiet.invariant {P : Moment Key Value → Prop}
    (hmove : ∀ m m', m.Sound client → P m → Move client m m' → P m')
    {s : Engine Key Value} (hq : s.Quiet) {key : Key} (hp : P (s.opening key))
    {e : Execution Key Value} {actions : List (Action Key)}
    (hrun : (Execution.start client key s).run client actions = some e)
    (htrap : e.engine.trap = none) (hlive : e.IsLive) :
  P e.moment
  := by
  have hstart : P (Execution.start client key s).moment :=
    Moves.invariant hmove (opening_moves key s) (hq.sound key) hp
  exact Execution.invariant hmove (Execution.inv_start client hq key) (fun _ => hstart) hrun htrap
    hlive

end Engine

namespace Execution

variable {e e' : Execution Key Value}

theorem Inv.trap_step {a : Action Key} (h : e.Inv client) (htrap : e.engine.trap = none)
    (hstep : e.step client a = some e') {success : Bool} (hp : e'.phase = .returned success) :
  e'.engine.trap = none
  := by
  cases a with
  | work =>
    obtain ⟨-, hwork⟩ := step_work hstep
    cases works_of_work hwork with
    | success hp' hw ho ht hc => exact htrap
    | cancelTasks unrecorded hp' ho => cases unrecorded <;> exact htrap
    | dropScan q rest hp' hq hs | drain unrecorded hp' ho hf => exact htrap
    | input r rest hp' hr | answer r rest hp' hr | ready k' rest hp' hk
    | finish k' rest hp' hk hr => simp [hp'] at hp
    | _ => cases hp
  | complete k =>
    obtain ⟨t, hstate, -, -, rfl⟩ := step_complete hstep
    have htask := Engine.taskInfo_eq_none client (h.settled success hp).taskInfo k
    exact absurd htask (by rw [hstate]; simp [RuleState.taskInfo])
  | cancel =>
    cases hstep
    exact htrap

variable {actions : List (Action Key)}

/-- Nothing but a cancellation happens after undefined behaviour. -/
theorem run_of_trap (htrap : e.engine.trap ≠ none) (hrun : e.run client actions = some e') :
  e'.phase = e.phase ∧ e'.engine.trap = e.engine.trap
  := by
  induction actions generalizing e with
  | nil =>
    cases hrun
    exact ⟨rfl, rfl⟩
  | cons a actions ih =>
    obtain ⟨e₁, hstep, hrun⟩ := run_cons hrun
    cases a with
    | work => exact absurd (step_work hstep).1 htrap
    | complete k =>
      obtain ⟨t, -, -, h, -⟩ := step_complete hstep
      exact absurd h htrap
    | cancel =>
      exact ih (e := { e with engine := e.engine.setCancelled }) htrap hrun

/-- A build that has returned has not run into undefined behaviour. -/
theorem trap_of_returned
    (h : e.Inv client) (htrap : e.engine.trap = none) (hrun : e.run client actions = some e')
    {success : Bool} (hp : e'.phase = .returned success) :
  e'.engine.trap = none
  := by
  induction actions generalizing e with
  | nil =>
    cases hrun
    exact htrap
  | cons a actions ih =>
    obtain ⟨e₁, hstep, hrun⟩ := run_cons hrun
    by_cases htrap₁ : e₁.engine.trap = none
    · exact ih (h.step hstep htrap₁) htrap₁ hrun
    · rw [(run_of_trap htrap₁ hrun).1] at hp
      exact absurd (h.trap_step htrap hstep hp) htrap₁

/-- The engine does not use a task that is not in progress. -/
theorem Inv.trap_run
    (h : e.Inv client) (htrap : e.engine.trap = none) (hrun : e.run client actions = some e') :
  e'.engine.trap ≠ some .danglingTaskInfo
  := by
  induction actions generalizing e with
  | nil =>
    cases hrun
    rw [htrap]
    exact nofun
  | cons a actions ih =>
    obtain ⟨e₁, hstep, hrun⟩ := run_cons hrun
    by_cases htrap₁ : e₁.engine.trap = none
    · exact ih (h.step hstep htrap₁) htrap₁ hrun
    · rw [(run_of_trap htrap₁ hrun).2]
      obtain ⟨-, -, hmoves⟩ | ⟨k, s, -, -, hmoves, hunrecorded, -⟩ | ⟨-, hcancels⟩
        | hdangling | hpast := h.step_cases hstep
      · exact Moves.trap_ne hmoves htrap
      · rw [hunrecorded.trap]
        exact Moves.trap_ne hmoves htrap
      · rw [hcancels.events.2, htrap]
        exact nofun
      · rw [hdangling]
        exact nofun
      · rw [hpast]
        exact nofun

end Execution

namespace Engine

omit [DecidableEq Value] in
variable (client) in
theorem trap_start {s : Engine Key Value} (h : s.trap = none) (key : Key) :
  (Execution.start client key s).engine.trap = none
  := by
  rw [← h]
  simp only [Execution.start, addInputRequests_trap, getRuleInfoForKey]
  split_ifs
  · rfl
  · split <;> rfl

omit [DecidableEq Value] [Inhabited Value] in
/-- The database and the events have nothing to do with what is left of a build. -/
theorem Quiet.congr {s : Engine Key Value} (hq : s.Quiet) (db : Option (BuildDB Key Value))
    (events : List (Event Key Value)) (buildCancelled : Bool) :
  { s with db := db, events := events, buildCancelled := buildCancelled }.Quiet
  := ⟨hq.inputRequests, hq.ruleInfosToScan, hq.readyTaskInfos, hq.finishedTaskInfos,
    hq.numOutstandingUnfinishedTasks, hq.trap, hq.state, hq.builtAt⟩

omit [LinearOrder Key] [DecidableEq Value] [Inhabited Value] in
variable (client) in
theorem setCurrentIteration_spec (s : Engine Key Value) :
  ∃ db, (s.setCurrentIteration client).2 = s.setDB db
  := by
  rw [setCurrentIteration]
  split
  next hdb => exact ⟨s.db, rfl⟩
  next db hdb =>
    split
    next => exact ⟨s.db, rfl⟩
    next => exact ⟨_, rfl⟩

/-- Nothing is left of a build when it has returned. -/
theorem Quiet.finish {s s' : Engine Key Value} {value : Value} (hq : s.Quiet) {key : Key}
    {e : Execution Key Value} {actions : List (Action Key)}
    (hrun : (Execution.start client key s).run client actions = some e)
    (hfinish : e.finish client = some (value, s')) :
  s'.Quiet
  := by
  rw [Execution.finish] at hfinish
  split at hfinish
  next success hp =>
    have hinv := Execution.inv_start client hq key
    have htrap := Execution.trap_of_returned hinv (trap_start client hq.trap key) hrun hp
    have hinv' := hinv.run hrun htrap
    have hquiet := (hinv'.settled success hp).quiet hinv'.timely htrap
    obtain ⟨db, hdb⟩ := setCurrentIteration_spec client e.engine.freeRuleScanRecords
    rcases hset : e.engine.freeRuleScanRecords.setCurrentIteration client with ⟨error, s₁⟩
    rw [hset] at hfinish hdb
    obtain rfl : s₁ = _ := hdb
    cases error with
    | some message =>
      obtain ⟨-, rfl⟩ := Prod.mk.inj (some.inj hfinish)
      exact hquiet.congr db _ _
    | none =>
      split_ifs at hfinish
      · obtain ⟨-, rfl⟩ := Prod.mk.inj (some.inj hfinish)
        exact hquiet.congr db _ _
      · obtain ⟨-, rfl⟩ := Prod.mk.inj (some.inj hfinish)
        exact hquiet.congr db _ _
  next => cases hfinish

theorem Between.quiet {s : Engine Key Value} (h : Between s) :
  s.Quiet
  := by
  induction h with
  | fresh db => exact ⟨rfl, rfl, rfl, rfl, rfl, rfl, nofun, nofun⟩
  | cancelBuild _ ih => exact ih.congr _ _ true
  | resetForBuild _ ih => exact ih.congr _ _ false
  | build _ client key actions value hbuild ih =>
    rw [Engine.build] at hbuild
    split at hbuild
    next =>
      obtain ⟨-, rfl⟩ := Prod.mk.inj (some.inj hbuild)
      exact ih.congr _ _ _
    next =>
      split_ifs at hbuild
      · obtain ⟨-, rfl⟩ := Prod.mk.inj (some.inj hbuild)
        exact ih.congr _ _ _
      · obtain ⟨e, hrun, hfinish⟩ := bind_eq_some_iff.mp hbuild
        exact ih.finish hrun hfinish

end Engine

end LLBuild

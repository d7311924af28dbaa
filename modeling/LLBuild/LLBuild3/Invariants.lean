import LLBuild.LLBuild3.Collect

/-!
# Invariants of the llbuild3 engine

A task is scheduled while a job for its next step is queued, then running, then waiting,
done or thrown out by an exception.  `phases` counts the phases a task is in, apart from
running, in terms of the queued jobs and the status of the task: what it waits on and how
its last step ended.  No task is ever in two phases.
-/

namespace LLBuild3

open TaskNextState

open TaskInfo

open Table

open Option

open List

open EngineImpl

namespace EngineImpl

variable (e : EngineImpl)

variable (T : ℕ)

/-- What a task waits on and how its last step ended. -/
def status : Option (List ℕ × TaskNextState) :=
  (e.taskInfos.lookup T).map (fun ti => (ti.waitingOn, ti.nextState))

/-- Whether a job is for a step of the task. -/
def isStepOf : Job → Bool
  | .transition _ X _ _ _ => X == T
  | .finished _ => false

/-- The number of jobs queued for a step of the task. -/
def scheduled : ℕ :=
  e.readyJobs.countP (isStepOf T)

/-- The number of phases a task with the status is in. -/
def statusPhases : Option (List ℕ × TaskNextState) → ℕ
  | none => 0
  | some (waitingOn, nextState) =>
      (if waitingOn = [] then 0 else 1) + (if nextState.isFinal then 1 else 0)

/-- The number of phases of its life a task is in, apart from running. -/
def phases : ℕ :=
  e.scheduled T + statusPhases (e.status T) + e.threw.count T

theorem status_eq_some {e : EngineImpl} {T : ℕ} {s : List ℕ × TaskNextState} :
  e.status T = some s
    ↔ ∃ ti, e.taskInfos.lookup T = some ti ∧ ti.waitingOn = s.1 ∧ ti.nextState = s.2
  := by
  rw [status, map_eq_some_iff]
  constructor
  · rintro ⟨ti, hti, rfl⟩
    exact ⟨ti, hti, rfl, rfl⟩
  · rintro ⟨ti, hti, h₁, h₂⟩
    exact ⟨ti, hti, Prod.ext h₁ h₂⟩

theorem status_isSome {e : EngineImpl} {T : ℕ} :
  (e.status T).isSome ↔ T ∈ e.taskInfos
  := by
  rw [status, isSome_map, AList.lookup_isSome]

end EngineImpl

/-- What holds for the engine in every state. -/
structure EngineInv (e : EngineImpl) : Prop where
  below : ∀ X, (e.status X).isSome → X < e.nextTaskID
  actions : ∀ id ∈ e.actionTaskMap, id < e.nextTaskID ∧ e.status id = none
  subtasks : ∀ id ∈ e.subtaskTaskMap, id < e.nextTaskID ∧ e.status id = none
  names : ∀ label id, e.taskNameMap.find label = some id → (e.status id).isSome
  artifacts : ∀ label id, e.taskArtifactMap.find label = some id → (e.status id).isSome
  /-- A task is done when the tasks waiting on it are told so. -/
  finished : ∀ X, .finished X ∈ e.readyJobs →
    ∃ waitingOn nextState, e.status X = some (waitingOn, nextState) ∧ nextState.isFinal
  waiting : ∀ X waitingOn nextState, e.status X = some (waitingOn, nextState) →
    waitingOn ≠ [] → ∃ ids ctx, nextState = .wait ids ctx
  known : ∀ X, 0 < e.scheduled X → (e.status X).isSome
  threw : ∀ X ∈ e.threw, (e.status X).isSome
  phases : ∀ X, e.phases X ≤ 1

/-- What holds in every state of a machine. -/
structure Inv (m : Machine) : Prop where
  engine : EngineInv m.engine
  /-- A task that is running is in no other phase. -/
  running : ∀ T ∈ m.running, (m.engine.status T).isSome ∧ m.engine.phases T = 0
  /-- A task that is not running is in another phase: no task is forgotten. -/
  busy : ∀ T, (m.engine.status T).isSome → T ∉ m.running → m.engine.phases T = 1

/-! ### A task enters a phase -/

/-- The ways in which a task enters a phase. -/
inductive Enters (T : ℕ) (e e' : EngineImpl) : Prop where
  | scheduled (nextState : TaskNextState) (hfinal : nextState.isFinal = false) (job : Job)
      (hjob : isStepOf T job) (hstatus : e'.status T = some ([], nextState))
      (hjobs : e'.readyJobs = e.readyJobs ++ [job]) (hthrew : e'.threw = e.threw)
  | finished (nextState : TaskNextState) (hfinal : nextState.isFinal)
      (hstatus : e'.status T = some ([], nextState))
      (hjobs : e'.readyJobs = e.readyJobs ++ [.finished T]) (hthrew : e'.threw = e.threw)
  | threw (nextState : TaskNextState) (hfinal : nextState.isFinal = false)
      (hstatus : e'.status T = some ([], nextState))
      (hjobs : e'.readyJobs = e.readyJobs) (hthrew : e'.threw = T :: e.threw)
  | waiting (ids : List UInt64) (ctx : TaskContext) (waitingOn : List ℕ) (hne : waitingOn ≠ [])
      (hstatus : e'.status T = some (waitingOn, .wait ids ctx))
      (hjobs : e'.readyJobs = e.readyJobs) (hthrew : e'.threw = e.threw)

variable {X : ℕ} {T id buildID : ℕ} {e e' : EngineImpl}

theorem Touches.status (h : Touches T e e') (hX : X ≠ T) :
  e'.status X = e.status X
  := by
  rw [EngineImpl.status, EngineImpl.status, h.infos X hX]

theorem isStepOf_eq {job : Job} (hT : isStepOf T job) :
  isStepOf X job = decide (X = T)
  := by
  cases job with
  | transition cached Y ctx inputs sres =>
    obtain rfl : Y = T := by simpa [isStepOf] using hT
    rw [isStepOf, Bool.eq_iff_iff, beq_iff_eq, decide_eq_true_iff, eq_comm]
  | finished Y => simp [isStepOf] at hT

section Enters

variable {T : ℕ} {e e' : EngineImpl}

section

variable (h : Enters T e e')

include h

/-- What happens when a task enters a phase: it gets a status, and either a job for its next
step, the news that it is done, or a place among the tasks thrown out. -/
theorem Enters.spec :
  ∃ waitingOn nextState jobs threw, e'.status T = some (waitingOn, nextState)
    ∧ e'.readyJobs = e.readyJobs ++ jobs ∧ e'.threw = threw ++ e.threw
    ∧ (∀ job ∈ jobs, isStepOf T job ∨ job = .finished T ∧ nextState.isFinal)
    ∧ (nextState.isFinal → .finished T ∈ jobs) ∧ (∀ X ∈ threw, X = T)
    ∧ (waitingOn ≠ [] → ∃ ids ctx, nextState = .wait ids ctx)
    ∧ jobs.countP (isStepOf T) + statusPhases (some (waitingOn, nextState)) + threw.count T = 1
  := by
  cases h with
  | scheduled nextState hfinal job hjob hstatus hjobs hthrew =>
    exact ⟨_, _, [job], [], hstatus, hjobs, hthrew, by simp [hjob], by simp [hfinal],
      by simp, by simp, by simp [statusPhases, hjob, hfinal]⟩
  | finished nextState hfinal hstatus hjobs hthrew =>
    exact ⟨_, _, [.finished T], [], hstatus, hjobs, hthrew, by simp [hfinal], by simp,
      by simp, by simp, by simp [statusPhases, isStepOf, hfinal]⟩
  | threw nextState hfinal hstatus hjobs hthrew =>
    exact ⟨_, _, [], [T], hstatus, by simp [hjobs], hthrew, by simp, by simp [hfinal],
      by simp, by simp, by simp [statusPhases, hfinal]⟩
  | waiting ids ctx waitingOn hne hstatus hjobs hthrew =>
    exact ⟨_, _, [], [], hstatus, by simp [hjobs], hthrew, by simp,
      by simp [isFinal], by simp, fun _ => ⟨ids, ctx, rfl⟩,
      by simp [statusPhases, isFinal, hne]⟩

/-- A task that was in no phase, or was waiting, is in one after it entered a phase. -/
theorem Enters.phases (hscheduled : e.scheduled T = 0) (hthrew : T ∉ e.threw) :
  e'.phases T = 1
  := by
  obtain ⟨waitingOn, nextState, jobs, threw, hstatus, hjobs, hthrew', -, -, -, -, hone⟩ := h.spec
  have hcount : e.threw.count T = 0 := count_eq_zero.mpr hthrew
  rw [EngineImpl.scheduled] at hscheduled
  rw [EngineImpl.phases, EngineImpl.scheduled, hstatus, hjobs, hthrew', countP_append, count_append]
  omega

theorem Enters.scheduled_of_ne (hX : X ≠ T) :
  e'.scheduled X = e.scheduled X
  := by
  obtain ⟨_, _, jobs, _, -, hjobs, -, hstep, -⟩ := h.spec
  rw [EngineImpl.scheduled, hjobs, countP_append, ← EngineImpl.scheduled,
    Nat.add_eq_left, countP_eq_zero]
  intro job hjob
  rcases hstep job hjob with hT | ⟨rfl, -⟩
  · simp [isStepOf_eq hT, hX]
  · simp [isStepOf]

theorem Enters.phases_of_ne (htouches : Touches T e e') (hX : X ≠ T) :
  e'.phases X = e.phases X
  := by
  obtain ⟨_, _, _, threw, -, -, hthrew, -, -, hT, -⟩ := h.spec
  have hcount : threw.count X = 0 := count_eq_zero.mpr (fun hmem => hX (hT X hmem))
  rw [EngineImpl.phases, h.scheduled_of_ne hX, htouches.status hX, hthrew, count_append,
    hcount, Nat.zero_add, ← EngineImpl.phases]

end

/-- The invariant is kept when a known task that is not scheduled, done or thrown out
enters a phase. -/
theorem EngineInv.enters
    (h : EngineInv e) (htouches : Touches T e e') (henters : Enters T e e')
    (hknown : (e.status T).isSome) (hscheduled : e.scheduled T = 0) (hthrew : T ∉ e.threw)
    (hdone : ∀ waitingOn nextState, e.status T = some (waitingOn, nextState) →
      nextState.isFinal = false) :
  EngineInv e'
  := by
  obtain ⟨waitingOn, nextState, jobs, threw, hstatus, hjobs, hthrew', hjob, -, hT, hwait, -⟩ :=
    henters.spec
  have hsome : ∀ X, (e'.status X).isSome ↔ (e.status X).isSome := by
    intro X
    by_cases hX : X = T
    · subst hX
      exact iff_of_true (by rw [hstatus]; rfl) hknown
    · rw [htouches.status hX]
  have hnone : ∀ X, e.status X = none → e'.status X = none := by
    intro X hX
    rw [← not_isSome_iff_eq_none] at hX ⊢
    rwa [hsome]
  constructor
  case below =>
    intro X hX
    rw [htouches.nextTaskID]
    exact h.below X ((hsome X).mp hX)
  case actions =>
    intro id hid
    rw [htouches.actionTaskMap] at hid
    rw [htouches.nextTaskID]
    exact (h.actions id hid).imp_right (hnone id)
  case subtasks =>
    intro id hid
    rw [htouches.subtaskTaskMap] at hid
    rw [htouches.nextTaskID]
    exact (h.subtasks id hid).imp_right (hnone id)
  case names =>
    intro label id hid
    rw [htouches.taskNameMap] at hid
    exact (hsome id).mpr (h.names label id hid)
  case artifacts =>
    intro label id hid
    rw [htouches.taskArtifactMap] at hid
    exact (hsome id).mpr (h.artifacts label id hid)
  case finished =>
    intro X hX
    rw [hjobs, mem_append] at hX
    rcases hX with hX | hX
    · obtain ⟨waitingOn, nextState, hX, hfinal⟩ := h.finished X hX
      have hXT : X ≠ T := by
        rintro rfl
        rw [hdone _ _ hX] at hfinal
        cases hfinal
      exact ⟨waitingOn, nextState, by rw [htouches.status hXT, hX], hfinal⟩
    · obtain hstep | ⟨⟨⟩, hfinal⟩ := hjob _ hX
      · cases hstep
      · exact ⟨waitingOn, nextState, hstatus, hfinal⟩
  case waiting =>
    intro X waitingOn nextState hX hne
    by_cases hXT : X = T
    · rw [hXT, hstatus] at hX
      cases hX
      exact hwait hne
    · rw [htouches.status hXT] at hX
      exact h.waiting X waitingOn nextState hX hne
  case known =>
    intro X hX
    by_cases hXT : X = T
    · rwa [hsome, hXT]
    · rw [henters.scheduled_of_ne hXT] at hX
      exact (hsome X).mpr (h.known X hX)
  case threw =>
    intro X hX
    rw [hthrew', mem_append] at hX
    rw [hsome]
    exact hX.elim (hT X · ▸ hknown) (h.threw X)
  case phases =>
    intro X
    by_cases hXT : X = T
    · subst hXT
      rw [henters.phases hscheduled hthrew]
    · rw [henters.phases_of_ne htouches hXT]
      exact h.phases X

end Enters

/-! ### Waiting and going on -/

variable {ti : TaskInfo}

variable {ids : List UInt64}

variable {ctx : TaskContext}

/-- A task that waits on nothing any more goes on. -/
theorem enters_unblockTask
    (hti : e.taskInfos.lookup T = some ti) (hnext : ti.nextState = .wait ids ctx)
    (hwaiting : ti.waitingOn = []) :
  Enters T e (e.unblockTask T)
  := by
  cases unblockTask_unblocks hti hnext with
  | ready ti' cached inputs sres hcollect hinfo hjobs hthrew =>
    have hrest : ti.SameRest ti' := collect_sameRest (by rw [hcollect]; rfl)
    refine .scheduled (.wait ids ctx) rfl _ (by simp [isStepOf]) ?_ hjobs hthrew
    exact status_eq_some.mpr ⟨ti', hinfo, hrest.waitingOn.trans hwaiting,
      hrest.nextState.trans hnext⟩
  | failed ti' description err hcollect hinfo hjobs hthrew =>
    have hrest : ti.SameRest ti' := collect_sameRest (by rw [hcollect]; rfl)
    refine .finished (.error err) rfl ?_ hjobs hthrew
    exact status_eq_some.mpr ⟨_, hinfo, hrest.waitingOn.trans hwaiting, rfl⟩
  | threw hcollect hinfo hjobs hthrew =>
    exact .threw _ rfl (status_eq_some.mpr ⟨ti, hinfo, hwaiting, hnext⟩) hjobs hthrew

/-- A task that goes on keeps its waiters. -/
theorem requestedBy_unblockTask
    (hti : e.taskInfos.lookup T = some ti) (hnext : ti.nextState = .wait ids ctx) :
  ((e.unblockTask T).taskInfos.lookup T).map requestedBy = some ti.requestedBy
  := by
  cases unblockTask_unblocks hti hnext with
  | ready ti' _ _ _ hcollect hinfo | failed ti' _ _ hcollect hinfo =>
    have hrest : ti.SameRest ti' := collect_sameRest (by rw [hcollect]; rfl)
    rw [hinfo]
    exact congrArg some hrest.requestedBy
  | threw hcollect hinfo =>
    rw [hinfo]
    rfl

/-- Entering a phase from an engine that differs in the record of the task. -/
theorem Enters.of_modify
    {infos : Table ℕ TaskInfo} (h : Enters T { e with taskInfos := infos } e') :
  Enters T e e'
  := by
  cases h with
  | scheduled nextState hfinal job hjob hstatus hjobs hthrew =>
    exact .scheduled nextState hfinal job hjob hstatus hjobs hthrew
  | finished nextState hfinal hstatus hjobs hthrew =>
    exact .finished nextState hfinal hstatus hjobs hthrew
  | threw nextState hfinal hstatus hjobs hthrew =>
    exact .threw nextState hfinal hstatus hjobs hthrew
  | waiting ids ctx waitingOn hne hstatus hjobs hthrew =>
    exact .waiting ids ctx waitingOn hne hstatus hjobs hthrew

variable (e : EngineImpl)

theorem touches_unblockOn (id T : ℕ) :
  Touches T e (e.unblockOn id T)
  := by
  rw [unblockOn]
  split
  · exact ⟨fun _ _ => rfl, rfl, rfl, rfl, rfl, rfl⟩
  · dsimp only
    split_ifs
    · exact (touches_modify e T _).trans (touches_unblockTask _ T)
    · exact touches_modify e T _

/-- A task that waits is taken off what it waits on, and goes on if that was the last. -/
theorem enters_unblockOn
    {e : EngineImpl} (hti : e.taskInfos.lookup T = some ti) (hnext : ti.nextState = .wait ids ctx)
    (hwaiting : ti.waitingOn ≠ []) (id : ℕ) :
  Enters T e (e.unblockOn id T)
  := by
  have hmodify : ∀ f, (e.taskInfos.modify T f).lookup T = some (f ti) := by
    intro f
    rw [lookup_modify, if_pos rfl, hti]
    rfl
  rw [unblockOn, hti]
  dsimp only
  split_ifs with h
  · have henters := enters_unblockTask (e := { e with
      taskInfos := e.taskInfos.modify T (fun info => { info with
        waitingOn := ti.waitingOn.filter (· ≠ id) }) }) (hmodify _) hnext h.2
    exact henters.of_modify
  · refine .waiting ids ctx _ (fun heq => h ⟨hwaiting, heq⟩) ?_ rfl rfl
    exact status_eq_some.mpr ⟨_, hmodify _, rfl, hnext⟩

/-- Nothing happens to a task that does not wait. -/
theorem unblockOn_of_not_waiting
    {e : EngineImpl}
    (hti : e.taskInfos.lookup T = some ti) (hwaiting : ti.waitingOn = []) (id : ℕ) :
  e.unblockOn id T = { e with
    taskInfos := e.taskInfos.modify T ({ · with waitingOn := [] }) }
  := by
  rw [unblockOn, hti]
  simp [hwaiting]

/-! ### The end of a step -/

/-- The engines agree in all but who waits on the tasks, and no waiter is lost. -/
structure AddsWaiters (e e' : EngineImpl) : Prop where
  infos : ∀ X, ∃ waiters,
    e'.taskInfos.lookup X
      = (e.taskInfos.lookup X).map (fun ti => { ti with requestedBy := waiters })
    ∧ ∀ ti, e.taskInfos.lookup X = some ti → ti.requestedBy ⊆ waiters
  rest : e' = { e with taskInfos := e'.taskInfos }

theorem AddsWaiters.refl :
  AddsWaiters e e
  where
  infos X := by
    cases h : e.taskInfos.lookup X with
    | none => exact ⟨[], rfl, by simp⟩
    | some ti => exact ⟨ti.requestedBy, rfl, by simp⟩
  rest := rfl

theorem AddsWaiters.trans {e e' e'' : EngineImpl} (h : AddsWaiters e e') (h' : AddsWaiters e' e'') :
  AddsWaiters e e''
  where
  infos X := by
    obtain ⟨waiters, hX, hsub⟩ := h.infos X
    obtain ⟨waiters', hX', hsub'⟩ := h'.infos X
    refine ⟨waiters', ?_, ?_⟩
    · rw [hX', hX, Option.map_map]
      rfl
    · intro ti hti
      rw [hti] at hX
      exact List.Subset.trans (hsub ti hti) (hsub' _ hX)
  rest := by
    have h₁ := h.rest
    have h₂ := h'.rest
    rw [h₁] at h₂
    exact h₂

theorem AddsWaiters.status {e e' : EngineImpl} (h : AddsWaiters e e') (X : ℕ) :
  e'.status X = e.status X
  := by
  obtain ⟨waiters, hX, -⟩ := h.infos X
  rw [EngineImpl.status, hX, Option.map_map]
  rfl

/-- Joining the waiters of a task. -/
theorem addsWaiters_modify (T X : ℕ) :
  AddsWaiters e { e with
    taskInfos := e.taskInfos.modify X (fun ti => { ti with
      requestedBy := ti.requestedBy.insert T }) }
  where
  infos Y := by
    by_cases hY : Y = X
    · subst hY
      rw [lookup_modify, if_pos rfl]
      cases h : e.taskInfos.lookup Y with
      | none => exact ⟨[], rfl, by simp⟩
      | some ti =>
          refine ⟨ti.requestedBy.insert T, rfl, ?_⟩
          rintro _ ⟨⟩ Z hZ
          exact mem_insert_of_mem hZ
    · rw [lookup_modify, if_neg hY]
      exact (AddsWaiters.refl e).infos Y
  rest := rfl

theorem addsWaiters_waitFor
    (T : ℕ) (ti : TaskInfo) (e : EngineImpl) (unresolved : List ℕ) (ids : List UInt64) :
  AddsWaiters e (waitFor T ti e unresolved ids).1
  := by
  induction ids generalizing e unresolved with
  | nil => exact .refl e
  | cons sid ids ih =>
    rw [waitFor]
    split
    · exact .refl e
    · split_ifs
      · split
        · exact .refl e
        · split_ifs
          · exact ih e unresolved
          · exact (addsWaiters_modify e T _).trans (ih _ _)
      · split
        · exact ih e _
        · split
          · exact ih e _
          · exact .refl e

/-- A task in no phase: it is neither scheduled nor waiting, done or thrown out. -/
structure Idle (e : EngineImpl) (T : ℕ) (ti : TaskInfo) : Prop where
  info : e.taskInfos.lookup T = some ti
  waitingOn : ti.waitingOn = []
  nextState : ti.nextState.isFinal = false
  scheduled : e.scheduled T = 0
  threw : T ∉ e.threw

theorem idle_of_phases {e : EngineImpl} (hT : (e.status T).isSome) (h : e.phases T = 0) :
  ∃ ti, Idle e T ti
  := by
  obtain ⟨⟨waitingOn, nextState⟩, hstatus⟩ := isSome_iff_exists.mp hT
  obtain ⟨ti, hti, rfl, rfl⟩ := status_eq_some.mp hstatus
  rw [EngineImpl.phases, hstatus, statusPhases] at h
  refine ⟨ti, hti, ?_, ?_, by omega, count_eq_zero.mp (by omega)⟩
  · by_contra hne
    rw [if_neg hne] at h
    omega
  · rw [← Bool.not_eq_true]
    intro hfinal
    rw [if_pos hfinal] at h
    omega

theorem Idle.addsWaiters {e e' : EngineImpl} (h : Idle e T ti) (hadds : AddsWaiters e e') :
  ∃ waiters, Idle e' T { ti with requestedBy := waiters }
  := by
  obtain ⟨waiters, hinfo, -⟩ := hadds.infos T
  rw [h.info] at hinfo
  refine ⟨waiters, hinfo, h.waitingOn, h.nextState, ?_, ?_⟩
  · rw [hadds.rest]
    exact h.scheduled
  · rw [hadds.rest]
    exact h.threw

/-- An idle task that enters a phase keeps the invariant. -/
theorem Idle.engineInv
    {e e' : EngineImpl} (h : Idle e T ti) (he : EngineInv e)
    (htouches : Touches T e e') (henters : Enters T e e') :
  EngineInv e'
  := by
  have hstatus : e.status T = some (ti.waitingOn, ti.nextState) :=
    status_eq_some.mpr ⟨ti, h.info, rfl, rfl⟩
  apply he.enters htouches henters _ h.scheduled h.threw
  · intro waitingOn nextState heq
    rw [hstatus, some.injEq, Prod.mk.injEq] at heq
    rw [← heq.2]
    exact h.nextState
  · rw [hstatus]
    rfl

theorem enters_failTask
    {e : EngineImpl} (h : Idle e T ti) (code : EngineError) (d : Option String) :
  Enters T e (e.failTask T code d)
  := by
  refine .finished (.error ⟨.engine, some (rawCode code), d⟩) rfl ?_ rfl rfl
  refine status_eq_some.mpr ⟨{ ti with
    nextState := .error ⟨.engine, some (rawCode code), d⟩ }, ?_, h.waitingOn, rfl⟩
  rw [failTask, processFinishedTask, lookup_modify, if_pos rfl, h.info]
  rfl

/-- At the end of its step an idle task joins the waiters of others and enters a phase. -/
theorem processTaskNextState_enters {e : EngineImpl} (h : Idle e T ti) (next : TaskNextState) :
  ∃ e₁, AddsWaiters e e₁ ∧ Touches T e₁ (e.processTaskNextState T next)
    ∧ Enters T e₁ (e.processTaskNextState T next)
    ∧ ((e.processTaskNextState T next).taskInfos.lookup T).map requestedBy
      = (e₁.taskInfos.lookup T).map requestedBy
  := by
  have hmodify : ∀ {e : EngineImpl} {ti : TaskInfo}, Idle e T ti → ∀ f,
      (e.taskInfos.modify T f).lookup T = some (f ti) := by
    intro e ti h f
    rw [lookup_modify, if_pos rfl, h.info]
    rfl
  have hby : ∀ {e : EngineImpl} {ti : TaskInfo}, Idle e T ti → ∀ f,
      (f ti).requestedBy = ti.requestedBy →
      ((e.taskInfos.modify T f).lookup T).map requestedBy
        = (e.taskInfos.lookup T).map requestedBy := by
    intro e ti h f hf
    rw [hmodify h, h.info]
    exact congrArg some hf
  rw [processTaskNextState, h.info]
  cases next with
  | wait ids ctx =>
    have hadds := addsWaiters_waitFor T ti e [] ids
    dsimp only
    generalize hwait : waitFor T ti e [] ids = waited at hadds
    obtain ⟨e₁, waited⟩ := waited
    obtain ⟨waiters, hidle⟩ := h.addsWaiters hadds
    refine ⟨e₁, hadds, ?_⟩
    cases waited with
    | threw =>
      refine ⟨⟨fun _ _ => rfl, rfl, rfl, rfl, rfl, rfl⟩, .threw _ h.nextState ?_ rfl rfl, rfl⟩
      exact status_eq_some.mpr ⟨_, hidle.info, h.waitingOn, rfl⟩
    | badInput sid =>
      exact ⟨touches_failTask e₁ T _ _, enters_failTask hidle _ _, hby hidle _ rfl⟩
    | unresolved unresolved =>
      cases unresolved with
      | nil =>
        have hset : ({ e₁ with taskInfos := e₁.taskInfos.modify T (fun ti => { ti with
            nextState := .wait ids ctx }) } : EngineImpl).taskInfos.lookup T = some { ti with
              requestedBy := waiters, nextState := .wait ids ctx } := hmodify hidle _
        refine ⟨(touches_modify e₁ T _).trans (touches_unblockTask _ T),
          (enters_unblockTask hset rfl h.waitingOn).of_modify, ?_⟩
        rw [requestedBy_unblockTask hset rfl, hidle.info]
        rfl
      | cons id unresolved =>
        refine ⟨touches_modify e₁ T _, ?_, hby hidle _ rfl⟩
        refine .waiting ids ctx (id :: unresolved) (by simp) ?_ rfl rfl
        exact status_eq_some.mpr ⟨_, hmodify hidle _, rfl, rfl⟩
  | notSet =>
    exact ⟨e, .refl e, touches_failTask e T _ _, enters_failTask h _ _, hby h _ rfl⟩
  | result _ | error _ =>
    exact ⟨e, .refl e, ⟨(touches_modify e T _).infos, rfl, rfl, rfl, rfl, rfl⟩,
      .finished _ (by rfl) (status_eq_some.mpr ⟨_, hmodify h _, h.waitingOn, rfl⟩) rfl rfl,
      hby h _ rfl⟩

/-! ### Sections keep the invariant -/

/-- Going from one engine to the other keeps the invariant, the idle tasks and the others. -/
structure Sound (e e' : EngineImpl) : Prop where
  inv : EngineInv e → EngineInv e'
  idle : ∀ X, EngineInv e → (e.status X).isSome → e.phases X = 0 →
    (e'.status X).isSome ∧ e'.phases X = 0
  busy : ∀ X, EngineInv e → (e'.status X).isSome →
    (e.status X).isSome ∧ e'.phases X = e.phases X ∨ e'.phases X = 1

theorem Sound.refl :
  Sound e e
  := ⟨id, fun _ _ h h' => ⟨h, h'⟩, fun _ _ h => .inl ⟨h, rfl⟩⟩

theorem Sound.trans {e e' e'' : EngineImpl} (h : Sound e e') (h' : Sound e' e'') :
  Sound e e''
  where
  inv he := h'.inv (h.inv he)
  idle X he hX hphases := by
    obtain ⟨hX', hphases'⟩ := h.idle X he hX hphases
    exact h'.idle X (h.inv he) hX' hphases'
  busy X he hX := by
    obtain ⟨hX', hphases'⟩ | hone := h'.busy X (h.inv he) hX
    · rw [hphases']
      exact h.busy X he hX'
    · exact .inr hone

/-- A change that leaves the status of the tasks, the ids and the jobs alone. -/
theorem Sound.of_status
    {e e' : EngineImpl} (hstatus : ∀ X, e'.status X = e.status X)
    (hrest : e' = { e with
      taskInfos := e'.taskInfos
      casDB := e'.casDB
      actionCache := e'.actionCache
      rules := e'.rules
      ruleRuleMap := e'.ruleRuleMap
      ruleArtifactMap := e'.ruleArtifactMap
      lost := e'.lost }) :
  Sound e e'
  := by
  have hstatus' : e'.status = e.status := funext hstatus
  have hscheduled : e'.scheduled = e.scheduled := by
    funext X
    rw [hrest]
    rfl
  have hphases : e'.phases = e.phases := by
    funext X
    rw [EngineImpl.phases, hstatus', hrest]
    rfl
  constructor
  · intro h
    constructor
    case below => rw [hstatus', hrest]; exact h.below
    case actions => rw [hstatus', hrest]; exact h.actions
    case subtasks => rw [hstatus', hrest]; exact h.subtasks
    case names => rw [hstatus', hrest]; exact h.names
    case artifacts => rw [hstatus', hrest]; exact h.artifacts
    case finished => rw [hstatus', hrest]; exact h.finished
    case waiting => rw [hstatus']; exact h.waiting
    case known => rw [hstatus', hscheduled]; exact h.known
    case threw => rw [hstatus', hrest]; exact h.threw
    case phases => rw [hphases]; exact h.phases
  · rw [hstatus', hphases]
    exact fun _ _ hX hidle => ⟨hX, hidle⟩
  · rw [hstatus', hphases]
    exact fun _ _ hX => .inl ⟨hX, rfl⟩

open Sound

theorem AddsWaiters.engineInv {e e' : EngineImpl} (h : AddsWaiters e e') (he : EngineInv e) :
  EngineInv e'
  := (of_status h.status (by rw [h.rest])).inv he

/-- A change of the record of a task that leaves its status alone. -/
theorem Sound.of_modify
    (T : ℕ) (f : TaskInfo → TaskInfo)
    (hf : ∀ ti, (f ti).waitingOn = ti.waitingOn ∧ (f ti).nextState = ti.nextState) :
  Sound e { e with taskInfos := e.taskInfos.modify T f }
  := by
  apply of_status _ rfl
  intro X
  by_cases hX : X = T
  · subst hX
    rw [EngineImpl.status, EngineImpl.status, lookup_modify, if_pos rfl]
    cases e.taskInfos.lookup X with
    | none => rfl
    | some ti => simp [hf ti]
  · exact (touches_modify e T f).status hX

theorem sound_unblockOn (id T : ℕ) :
  Sound e (e.unblockOn id T)
  := by
  cases hti : e.taskInfos.lookup T with
  | none =>
    rw [unblockOn, hti]
    exact .of_status (fun _ => rfl) rfl
  | some ti =>
    have hstatus : e.status T = some (ti.waitingOn, ti.nextState) :=
      status_eq_some.mpr ⟨ti, hti, rfl, rfl⟩
    by_cases hwaiting : ti.waitingOn = []
    · rw [unblockOn_of_not_waiting hti hwaiting]
      apply of_status _ rfl
      intro X
      by_cases hX : X = T
      · subst hX
        rw [hstatus, hwaiting, status_eq_some]
        refine ⟨{ ti with waitingOn := [] }, ?_, rfl, rfl⟩
        rw [lookup_modify, if_pos rfl, hti]
        rfl
      · exact (touches_modify e T _).status hX
    · have htouches := touches_unblockOn e id T
      -- A waiting task is in no other phase.
      have hphases : e.phases T = e.scheduled T + (1 + (if ti.nextState.isFinal then 1 else 0))
          + e.threw.count T := by
        rw [EngineImpl.phases, hstatus, statusPhases, if_neg hwaiting]
      have hrest : EngineInv e → e.scheduled T = 0 ∧ T ∉ e.threw := by
        intro he
        have hle := he.phases T
        exact ⟨by omega, count_eq_zero.mp (by omega)⟩
      constructor
      · intro he
        obtain ⟨ids, ctx, hnext⟩ := he.waiting T _ _ hstatus hwaiting
        apply he.enters htouches (enters_unblockOn hti hnext hwaiting id)
        · rw [hstatus]
          rfl
        · exact (hrest he).1
        · exact (hrest he).2
        · intro waitingOn nextState heq
          rw [hstatus, some.injEq, Prod.mk.injEq] at heq
          rw [← heq.2, hnext]
          rfl
      · intro X he hX hidle
        obtain ⟨ids, ctx, hnext⟩ := he.waiting T _ _ hstatus hwaiting
        have hXT : X ≠ T := by
          rintro rfl
          omega
        rw [htouches.status hXT, (enters_unblockOn hti hnext hwaiting id).phases_of_ne htouches hXT]
        exact ⟨hX, hidle⟩
      · intro X he hX
        obtain ⟨ids, ctx, hnext⟩ := he.waiting T _ _ hstatus hwaiting
        have henters := enters_unblockOn hti hnext hwaiting id
        by_cases hXT : X = T
        · subst hXT
          exact .inr (henters.phases (hrest he).1 (hrest he).2)
        · rw [htouches.status hXT] at hX
          exact .inl ⟨hX, henters.phases_of_ne htouches hXT⟩

theorem sound_notifyFinished (T : ℕ) :
  Sound e (e.notifyFinished T)
  := by
  rw [notifyFinished]
  split
  · exact .refl e
  · next ti hti =>
      clear hti
      induction ti.requestedBy generalizing e with
      | nil => exact .refl e
      | cons id ids ih => exact (sound_unblockOn e T id).trans (ih _)

theorem sound_notifyActionComplete (workID : ℕ) (result : Outcome ActionResult) :
  Sound e (e.notifyActionComplete workID result)
  := by
  rw [notifyActionComplete]
  split
  · exact .refl e
  · split
    · exact .of_status (fun _ => rfl) rfl
    · refine .trans ?_ (sound_unblockOn _ _ _)
      apply of_modify
      intro ti
      exact ⟨rfl, rfl⟩

theorem sound_notifySubtaskComplete (workID : ℕ) (result : SubtaskResult) :
  Sound e (e.notifySubtaskComplete workID result)
  := by
  rw [notifySubtaskComplete]
  split
  · exact .refl e
  · split
    · exact .of_status (fun _ => rfl) rfl
    · refine .trans ?_ (sound_unblockOn _ _ _)
      apply of_modify
      intro ti
      exact ⟨rfl, rfl⟩

variable (w : Wire)

theorem sound_updateTaskCache
    (e : EngineImpl) (ti : TaskInfo) (ctx : TaskContext) (inputs : List TaskInput)
    (next : TaskNextState) :
  Sound e (e.updateTaskCache w ti ctx inputs next)
  := by
  rw [updateTaskCache]
  split
  · exact .refl e
  · split_ifs
    · exact .refl e
    · exact .refl e
    · exact .of_status (fun _ => rfl) rfl

theorem EngineInv.unknown {e : EngineImpl} (h : EngineInv e) (hT : e.status T = none) :
  e.scheduled T = 0 ∧ T ∉ e.threw
  := by
  constructor
  · by_contra hne
    have hsome := h.known T (Nat.pos_of_ne_zero hne)
    rw [hT] at hsome
    cases hsome
  · intro hmem
    have hsome := h.threw T hmem
    rw [hT] at hsome
    cases hsome

theorem EngineInv.fresh {e : EngineImpl} (h : EngineInv e) :
  e.status e.nextTaskID = none
  := by
  rw [← not_isSome_iff_eq_none]
  intro hsome
  exact Nat.lt_irrefl _ (h.below _ hsome)

/-- A new task is scheduled. -/
structure Inserted (e e' : EngineImpl) : Prop where
  nextTaskID : e'.nextTaskID = e.nextTaskID + 1
  infos : ∀ X, X ≠ e.nextTaskID → e'.taskInfos.lookup X = e.taskInfos.lookup X
  status : e'.status e.nextTaskID = some ([], .notSet)
  names : ∀ label id, e'.taskNameMap.find label = some id →
    id = e.nextTaskID ∨ e.taskNameMap.find label = some id
  artifacts : ∀ label id, e'.taskArtifactMap.find label = some id →
    id = e.nextTaskID ∨ e.taskArtifactMap.find label = some id
  jobs : e'.readyJobs = e.readyJobs ++ [.transition false e.nextTaskID .notSet [] []]
  actionTaskMap : e'.actionTaskMap = e.actionTaskMap
  subtaskTaskMap : e'.subtaskTaskMap = e.subtaskTaskMap
  threw : e'.threw = e.threw

theorem Inserted.status_of_ne {e e' : EngineImpl} (h : Inserted e e') (hX : X ≠ e.nextTaskID) :
  e'.status X = e.status X
  := by
  rw [EngineImpl.status, EngineImpl.status, h.infos X hX]

theorem Inserted.phases_of_ne {e e' : EngineImpl} (h : Inserted e e') (hX : X ≠ e.nextTaskID) :
  e'.phases X = e.phases X
  := by
  rw [EngineImpl.phases, EngineImpl.phases, EngineImpl.scheduled, EngineImpl.scheduled,
    h.status_of_ne hX, h.jobs, h.threw]
  simp [isStepOf, Ne.symm hX]

theorem Inserted.isSome {e e' : EngineImpl} (h : Inserted e e') (hX : (e.status X).isSome) :
  (e'.status X).isSome
  := by
  by_cases heq : X = e.nextTaskID
  · rw [heq, h.status]
    rfl
  · rwa [h.status_of_ne heq]

/-- A new task has its first step queued. -/
theorem Inserted.phases {e e' : EngineImpl} (h : Inserted e e') (he : EngineInv e) :
  e'.phases e.nextTaskID = 1
  := by
  obtain ⟨hscheduled, hthrew⟩ := he.unknown he.fresh
  rw [EngineImpl.scheduled] at hscheduled
  simp [EngineImpl.phases, EngineImpl.scheduled, h.jobs, h.status, h.threw, hscheduled,
    count_eq_zero.mpr hthrew, isStepOf, statusPhases, isFinal]

theorem Inserted.sound {e e' : EngineImpl} (h : Inserted e e') :
  Sound e e'
  := by
  constructor
  · intro he
    have hnone : ∀ id, id < e.nextTaskID → e.status id = none → e'.status id = none := by
      intro id hlt hid
      rwa [h.status_of_ne (Nat.ne_of_lt hlt)]
    constructor
    case below =>
      intro X hX
      rw [h.nextTaskID]
      by_cases heq : X = e.nextTaskID
      · omega
      · rw [h.status_of_ne heq] at hX
        exact Nat.lt_succ_of_lt (he.below X hX)
    case actions =>
      intro id hid
      rw [h.actionTaskMap] at hid
      rw [h.nextTaskID]
      obtain ⟨hlt, hid⟩ := he.actions id hid
      exact ⟨Nat.lt_succ_of_lt hlt, hnone id hlt hid⟩
    case subtasks =>
      intro id hid
      rw [h.subtaskTaskMap] at hid
      rw [h.nextTaskID]
      obtain ⟨hlt, hid⟩ := he.subtasks id hid
      exact ⟨Nat.lt_succ_of_lt hlt, hnone id hlt hid⟩
    case names =>
      intro label id hid
      rcases h.names label id hid with rfl | hid
      · rw [h.status]
        rfl
      · exact h.isSome (he.names label id hid)
    case artifacts =>
      intro label id hid
      rcases h.artifacts label id hid with rfl | hid
      · rw [h.status]
        rfl
      · exact h.isSome (he.artifacts label id hid)
    case finished =>
      intro X hX
      rw [h.jobs, mem_append] at hX
      obtain ⟨waitingOn, nextState, hstatus, hfinal⟩ :=
        he.finished X (hX.resolve_right (by simp))
      refine ⟨waitingOn, nextState, ?_, hfinal⟩
      rw [h.status_of_ne (Nat.ne_of_lt (he.below X (by rw [hstatus]; rfl))), hstatus]
    case waiting =>
      intro X waitingOn nextState hX hne
      by_cases heq : X = e.nextTaskID
      · rw [heq, h.status, some.injEq, Prod.mk.injEq] at hX
        exact absurd hX.1.symm hne
      · rw [h.status_of_ne heq] at hX
        exact he.waiting X waitingOn nextState hX hne
    case known =>
      intro X hX
      by_cases heq : X = e.nextTaskID
      · rw [heq, h.status]
        rfl
      · rw [EngineImpl.scheduled, h.jobs] at hX
        rw [h.status_of_ne heq]
        apply he.known X
        simpa [EngineImpl.scheduled, isStepOf, Ne.symm heq] using hX
    case threw =>
      intro X hX
      rw [h.threw] at hX
      exact h.isSome (he.threw X hX)
    case phases =>
      intro X
      by_cases heq : X = e.nextTaskID
      · rw [heq, h.phases he]
      · rw [h.phases_of_ne heq]
        exact he.phases X
  · intro X he hX hphases
    have hne : X ≠ e.nextTaskID := Nat.ne_of_lt (he.below X hX)
    rw [h.phases_of_ne hne]
    exact ⟨h.isSome hX, hphases⟩
  · intro X he hX
    by_cases heq : X = e.nextTaskID
    · rw [heq]
      exact .inr (h.phases he)
    · rw [h.status_of_ne heq] at hX
      exact .inl ⟨hX, h.phases_of_ne heq⟩

theorem insertTask_inserted {e e' : EngineImpl} {task : Task}
    (h : e.insertTask buildID task = (.ok id, e')) :
  id = e.nextTaskID ∧ Inserted e e'
  := by
  rw [insertTask] at h
  split_ifs at h
  · cases h
  · split at h
    · cases h
    · cases h
      refine ⟨rfl, rfl, ?_, ?_, ?_, ?_, rfl, rfl, rfl, rfl⟩
      · intro X hX
        rw [lookup_insert, if_neg hX]
      · rw [EngineImpl.status, lookup_insert, if_pos rfl]
        rfl
      · intro label id hid
        exact LabelTrie.find_insert _ _ _ _ _ hid
      · intro label id hid
        exact LabelTrie.find_foldl_insert _ _ _ _ _ hid

theorem insertTask_error {e e' : EngineImpl} {task : Task} {err : Error}
    (h : e.insertTask buildID task = (.error err, e')) :
  e' = e
  := by
  rw [insertTask] at h
  split_ifs at h
  · exact (Prod.mk.inj h).2.symm
  · split at h
    · exact (Prod.mk.inj h).2.symm
    · cases h

theorem sound_insertTask (buildID : ℕ) (task : Task) :
  Sound e (e.insertTask buildID task).2
  := by
  cases h : e.insertTask buildID task with
  | mk r e' =>
    cases r with
    | ok id => exact (insertTask_inserted h).2.sound
    | error err =>
      rw [insertTask_error h]
      exact .refl e

theorem sound_constructTask (buildID : ℕ) (rule : Rule) (label : Label) :
  Sound e (e.constructTask buildID rule label).2
  := by
  rw [constructTask]
  split
  · exact .refl e
  · split
    · exact .refl e
    · split_ifs
      · exact .refl e
      · exact sound_insertTask e buildID _

/-- Looking for a rule touches nothing but the rules. -/
theorem resolveRule_eq (isRule : Bool) (label : Label) :
  ∃ rules ruleMap artifactMap, (e.resolveRule isRule label).2 = { e with
    rules := rules, ruleRuleMap := ruleMap, ruleArtifactMap := artifactMap }
  := by
  have hinsert : ∀ rule, ∃ rules ruleMap artifactMap, (e.insertRule rule).2 = { e with
      rules := rules, ruleRuleMap := ruleMap, ruleArtifactMap := artifactMap } := by
    intro rule
    rw [insertRule]
    split_ifs
    · exact ⟨_, _, _, rfl⟩
    · split <;> exact ⟨_, _, _, rfl⟩
  rw [resolveRule]
  split
  · exact ⟨_, _, _, rfl⟩
  · split
    · exact ⟨_, _, _, rfl⟩
    · split
      · exact ⟨_, _, _, rfl⟩
      · next rule _ =>
          obtain ⟨rules, ruleMap, artifactMap, h⟩ := hinsert rule
          refine ⟨rules, ruleMap, artifactMap, ?_⟩
          rw [← h]
          split <;> next heq => rw [heq]

theorem sound_resolveRule (isRule : Bool) (label : Label) :
  Sound e (e.resolveRule isRule label).2
  := by
  obtain ⟨rules, ruleMap, artifactMap, h⟩ := resolveRule_eq e isRule label
  rw [h]
  exact .of_status (fun _ => rfl) rfl

variable {e} in
theorem EngineInv.eraseJob (he : EngineInv e) (job : Job) :
  EngineInv { e with readyJobs := e.readyJobs.erase job }
  := by
  have hle : ∀ X, ({ e with readyJobs := e.readyJobs.erase job } : EngineImpl).scheduled X
      ≤ e.scheduled X := by
    intro X
    exact List.Sublist.countP_le erase_sublist
  exact { he with
    finished := fun X hX => he.finished X (mem_of_mem_erase hX)
    known := fun X hX => he.known X (lt_of_lt_of_le hX (hle X))
    phases := by
      intro X
      have h := hle X
      have hphases := he.phases X
      simp only [EngineImpl.phases, EngineImpl.status] at h hphases ⊢
      omega }

/-- A job that is no step of a task leaves the phases of the task alone. -/
theorem phases_eraseJob {job : Job} (hjob : isStepOf X job = false) :
  ({ e with readyJobs := e.readyJobs.erase job } : EngineImpl).phases X = e.phases X
  := by
  simp [EngineImpl.phases, EngineImpl.scheduled, EngineImpl.status, countP_erase, hjob]

theorem sound_eraseFinished (T : ℕ) :
  Sound e { e with readyJobs := e.readyJobs.erase (.finished T) }
  where
  inv he := he.eraseJob _
  idle _ _ hX hidle := ⟨hX, (phases_eraseJob e rfl).trans hidle⟩
  busy _ _ hX := .inl ⟨hX, phases_eraseJob e rfl⟩

/-- A step of a task that is taken up was the only one queued. -/
theorem EngineInv.take
    {e : EngineImpl} (h : EngineInv e) {call : Call} (hjob : Machine.job T call ∈ e.readyJobs) :
  (e.status T).isSome
    ∧ ({ e with readyJobs := e.readyJobs.erase (Machine.job T call) } : EngineImpl).phases T = 0
  := by
  have hstep : isStepOf T (Machine.job T call) = true := by simp [Machine.job, isStepOf]
  have hcount : e.scheduled T
      = ({ e with readyJobs := e.readyJobs.erase (Machine.job T call) } : EngineImpl).scheduled T
        + 1 := by
    rw [EngineImpl.scheduled, EngineImpl.scheduled,
      (perm_cons_erase hjob).countP_eq, countP_cons_of_pos hstep]
  have hphases := h.phases T
  refine ⟨h.known T (by omega), ?_⟩
  rw [EngineImpl.phases] at hphases ⊢
  simp only [EngineImpl.status] at hphases ⊢
  omega

/-- An id is taken for an action or a subtask. -/
theorem sound_begin
    (actions subtasks : Table ℕ ℕ)
    (hactions : ∀ id ∈ actions, id ∈ e.actionTaskMap ∨ id = e.nextTaskID)
    (hsubtasks : ∀ id ∈ subtasks, id ∈ e.subtaskTaskMap ∨ id = e.nextTaskID) :
  Sound e { e with
    nextTaskID := e.nextTaskID + 1, actionTaskMap := actions, subtaskTaskMap := subtasks }
  := by
  constructor
  · intro he
    exact { he with
      below := fun X hX => Nat.lt_succ_of_lt (he.below X hX)
      actions := by
        intro id hid
        rcases hactions id hid with hid | rfl
        · exact (he.actions id hid).imp_left Nat.lt_succ_of_lt
        · exact ⟨Nat.lt_succ_self _, he.fresh⟩
      subtasks := by
        intro id hid
        rcases hsubtasks id hid with hid | rfl
        · exact (he.subtasks id hid).imp_left Nat.lt_succ_of_lt
        · exact ⟨Nat.lt_succ_self _, he.fresh⟩ }
  · intro X _ hX hidle
    exact ⟨hX, hidle⟩
  · intro X _ hX
    exact .inl ⟨hX, rfl⟩

theorem sound_drop
    (actions subtasks : Table ℕ ℕ) (hactions : ∀ id ∈ actions, id ∈ e.actionTaskMap)
    (hsubtasks : ∀ id ∈ subtasks, id ∈ e.subtaskTaskMap) :
  Sound e { e with actionTaskMap := actions, subtaskTaskMap := subtasks }
  := by
  constructor
  · intro he
    exact { he with
      actions := fun id hid => he.actions id (hactions id hid)
      subtasks := fun id hid => he.subtasks id (hsubtasks id hid) }
  · intro X _ hX hidle
    exact ⟨hX, hidle⟩
  · intro X _ hX
    exact .inl ⟨hX, rfl⟩

variable {m : Machine}

/-- A sound change of the engine keeps the invariant of the machine. -/
theorem Inv.of_sound (h : Inv m) {e : EngineImpl} (hsound : Sound m.engine e) :
  Inv { m with engine := e }
  where
  engine := hsound.inv h.engine
  running T hT := hsound.idle T h.engine (h.running T hT).1 (h.running T hT).2
  busy T hT hrunning := by
    obtain ⟨hT', hphases⟩ | hone := hsound.busy T h.engine hT
    · exact hphases.trans (h.busy T hT' hrunning)
    · exact hone

theorem Inv.idle (h : Inv m) (hT : T ∈ m.running) :
  ∃ ti, Idle m.engine T ti
  := idle_of_phases (h.running T hT).1 (h.running T hT).2

/-- A running task that enters a phase stops running. -/
theorem Inv.of_enters
    (h : Inv m) (hT : T ∈ m.running) {e₁ e : EngineImpl}
    (hadds : AddsWaiters m.engine e₁) (htouches : Touches T e₁ e) (henters : Enters T e₁ e) :
  Inv { engine := e, running := m.running.erase T }
  := by
  obtain ⟨ti, hidle⟩ := h.idle hT
  obtain ⟨waiters, hidle₁⟩ := hidle.addsWaiters hadds
  have hother {X : ℕ} (hne : X ≠ T) :
      e.status X = m.engine.status X ∧ e.phases X = m.engine.phases X := by
    rw [henters.phases_of_ne htouches hne, htouches.status hne, EngineImpl.phases, hadds.status,
      hadds.rest]
    exact ⟨rfl, rfl⟩
  constructor
  · exact hidle₁.engineInv (hadds.engineInv h.engine) htouches henters
  · intro X hX
    rw [AList.mem_erase] at hX
    rw [(hother hX.1).1, (hother hX.1).2]
    exact h.running X hX.2
  · intro X hX hrunning
    by_cases hne : X = T
    · subst hne
      exact henters.phases hidle₁.scheduled hidle₁.threw
    · rw [(hother hne).1] at hX
      rw [(hother hne).2]
      exact h.busy X hX fun hmem => hrunning (AList.mem_erase.mpr ⟨hne, hmem⟩)

theorem mem_insert_of_table {t : Table ℕ ℕ} {k id : ℕ} {a : ℕ} (h : id ∈ t.insert k a) :
  id ∈ t ∨ id = k
  := by
  rw [AList.mem_insert] at h
  exact h.symm

theorem Inv.step {m' : Machine} {ev : Event} (h : Inv m) (hstep : m.step w ev = some m') :
  Inv m'
  := by
  cases ev with
  | build buildID task =>
    cases hstep
    exact h.of_sound (sound_insertTask _ _ _)
  | take T call =>
    obtain ⟨hjob, ⟨⟩⟩ := ite_none_right_eq_some.mp hstep
    obtain ⟨hsome, hphases⟩ := h.engine.take hjob
    have hother {X : ℕ} (hne : X ≠ T) : isStepOf X (Machine.job T call) = false := by
      simpa [Machine.job, isStepOf] using hne.symm
    refine ⟨h.engine.eraseJob _, ?_, ?_⟩
    · intro X hX
      by_cases hne : X = T
      · subst hne
        exact ⟨hsome, hphases⟩
      · rw [AList.mem_insert] at hX
        obtain ⟨hX, hidle⟩ := h.running X (hX.resolve_left hne)
        exact ⟨hX, (phases_eraseJob _ (hother hne)).trans hidle⟩
    · intro X hX hrunning
      rw [AList.mem_insert, not_or] at hrunning
      exact (phases_eraseJob _ (hother hrunning.1)).trans (h.busy X hX hrunning.2)
  | resolveRule T isRule label =>
    obtain rfl := Machine.eq_of_guard hstep
    exact h.of_sound (sound_resolveRule _ _ _)
  | constructTask T rule label =>
    obtain rfl := Machine.eq_of_guard hstep
    exact h.of_sound (sound_constructTask _ _ _ _)
  | register T isRule label id | recordAction T workID action | recordSubtask T workID =>
    obtain rfl := Machine.eq_of_guard hstep
    exact h.of_sound (of_modify _ _ _ (fun _ => ⟨rfl, rfl⟩))
  | beginAction T =>
    obtain rfl := Machine.eq_of_guard hstep
    refine h.of_sound (sound_begin _ _ _ ?_ ?_)
    · exact fun id hid => mem_insert_of_table hid
    · exact fun id hid => .inl hid
  | dropAction T workID =>
    obtain rfl := Machine.eq_of_guard hstep
    refine h.of_sound (sound_drop _ _ _ ?_ ?_)
    · exact fun id hid => (AList.mem_erase.mp hid).2
    · exact fun id hid => hid
  | beginSubtask T =>
    obtain rfl := Machine.eq_of_guard hstep
    refine h.of_sound (sound_begin _ _ _ ?_ ?_)
    · exact fun id hid => .inl hid
    · exact fun id hid => mem_insert_of_table hid
  | dropSubtask T workID =>
    obtain rfl := Machine.eq_of_guard hstep
    refine h.of_sound (sound_drop _ _ _ ?_ ?_)
    · exact fun id hid => hid
    · exact fun id hid => (AList.mem_erase.mp hid).2
  | miss T =>
    rw [Machine.step] at hstep
    split at hstep
    · next call hcall =>
        obtain ⟨-, ⟨⟩⟩ := ite_none_right_eq_some.mp hstep
        have hT : T ∈ m.running := AList.lookup_isSome.mp (by rw [hcall]; rfl)
        obtain ⟨ti, hidle⟩ := h.idle hT
        apply h.of_enters hT (.refl _)
        · exact ⟨fun _ _ => rfl, rfl, rfl, rfl, rfl, rfl⟩
        · exact .scheduled ti.nextState hidle.nextState _ (by simp [isStepOf])
            (status_eq_some.mpr ⟨ti, hidle.info, hidle.waitingOn, rfl⟩) rfl rfl
    · cases hstep
  | store T next =>
    rw [Machine.step] at hstep
    split at hstep
    · split_ifs at hstep
      cases hstep
      exact h.of_sound (sound_updateTaskCache _ _ _ _ _ _)
    · cases hstep
  | next T next =>
    obtain ⟨hT, ⟨⟩⟩ := ite_none_right_eq_some.mp hstep
    obtain ⟨ti, hidle⟩ := h.idle hT
    obtain ⟨e₁, hadds, htouches, henters, -⟩ := processTaskNextState_enters hidle next
    exact h.of_enters hT hadds htouches henters
  | finished X =>
    obtain rfl := Machine.eq_of_guard hstep
    exact h.of_sound ((sound_eraseFinished _ _).trans (sound_notifyFinished _ _))
  | actionComplete workID result =>
    cases hstep
    exact h.of_sound (sound_notifyActionComplete _ _ _)
  | subtaskComplete workID result =>
    cases hstep
    exact h.of_sound (sound_notifySubtaskComplete _ _ _)

/-- The invariant holds after every run. -/
theorem Inv.run {m' : Machine} {events : List Event} (h : Inv m) (hrun : m.run w events = some m') :
  Inv m'
  := Machine.run_induction w (fun _ _ _ _ h hstep => h.step w hstep) h hrun

end LLBuild3

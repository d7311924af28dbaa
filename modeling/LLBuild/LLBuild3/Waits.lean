import LLBuild.LLBuild3.Invariants

/-!
# Waiting for requests

`Keeps T e e'` says what the sections of other tasks leave alone: the maps of `T`, what it
waits on and the job for its next step, and how the tasks that are done ended.
`Waiting` describes a task from the end of a step with a wait for requests to different
tasks, until its next step is taken up: either it waits on some of these tasks, each of
which is not done yet or about to tell so, or its next step is scheduled, with one input
for each request.  The sections of other tasks keep it (`Waiting.step`).
-/

namespace LLBuild3

open Table

open Option

open AList

open Grant

open List

open EngineImpl

/-- The task is done. -/
def EngineImpl.Final (e : EngineImpl) (X : ℕ) : Prop :=
  ∃ info, e.taskInfos.lookup X = some info ∧ info.nextState.isFinal

/-- What the sections of other tasks leave alone. -/
structure Keeps (T : ℕ) (e e' : EngineImpl) : Prop where
  info : ∀ ti, e.taskInfos.lookup T = some ti → ∃ ti', e'.taskInfos.lookup T = some ti'
    ∧ ti'.stableIDMap = ti.stableIDMap ∧ ti'.requestedTaskInputs = ti.requestedTaskInputs
    ∧ ti'.waitingOn = ti.waitingOn ∧ ti'.nextState = ti.nextState
  others : ∀ X info, e.taskInfos.lookup X = some info →
    ∃ info', e'.taskInfos.lookup X = some info' ∧ info.requestedBy ⊆ info'.requestedBy
      ∧ (info.nextState.isFinal → info'.nextState = info.nextState)
      ∧ (info'.nextState.isFinal → info.nextState.isFinal ∨ .finished X ∈ e'.readyJobs)
  jobs : e'.readyJobs.filter (isStepOf T) = e.readyJobs.filter (isStepOf T)
  finished : ∀ X, .finished X ∈ e.readyJobs → .finished X ∈ e'.readyJobs
  threw : T ∈ e'.threw → T ∈ e.threw

namespace Keeps

variable {T : ℕ} {e e' e'' : EngineImpl}

theorem refl (T : ℕ) (e : EngineImpl) :
  Keeps T e e
  where
  info ti hti := ⟨ti, hti, rfl, rfl, rfl, rfl⟩
  others _ info hinfo := ⟨info, hinfo, .refl _, fun _ => rfl, .inl⟩
  jobs := rfl
  finished _ := id
  threw := id

theorem trans (h : Keeps T e e') (h' : Keeps T e' e'') :
  Keeps T e e''
  where
  info ti hti := by
    obtain ⟨ti', hti', h₁, h₂, h₃, h₄⟩ := h.info ti hti
    obtain ⟨ti'', hti'', h₁', h₂', h₃', h₄'⟩ := h'.info ti' hti'
    exact ⟨ti'', hti'', h₁'.trans h₁, h₂'.trans h₂, h₃'.trans h₃, h₄'.trans h₄⟩
  others X info hinfo := by
    obtain ⟨info', hinfo', hsub, hfinal, hback⟩ := h.others X info hinfo
    obtain ⟨info'', hinfo'', hsub', hfinal', hback'⟩ := h'.others X info' hinfo'
    refine ⟨info'', hinfo'', List.Subset.trans hsub hsub', ?_, ?_⟩
    · intro hf
      rw [hfinal' (hfinal hf ▸ hf), hfinal hf]
    · intro hf
      rcases hback' hf with hf' | hjob
      · exact (hback hf').imp_right (h'.finished X)
      · exact .inr hjob
  jobs := h'.jobs.trans h.jobs
  finished X hX := h'.finished X (h.finished X hX)
  threw hT := h.threw (h'.threw hT)

/-- A change of the record of one task, which leaves alone how its last step ended and its
waiters and, for `T` itself, all that matters. -/
theorem of_modify
    (T : ℕ) (e : EngineImpl) (R : ℕ) (f : TaskInfo → TaskInfo)
    (hf : ∀ ti, (f ti).nextState = ti.nextState ∧ ti.requestedBy ⊆ (f ti).requestedBy)
    (hT : R = T → ∀ ti, e.taskInfos.lookup T = some ti → (f ti).stableIDMap = ti.stableIDMap
      ∧ (f ti).requestedTaskInputs = ti.requestedTaskInputs ∧ (f ti).waitingOn = ti.waitingOn) :
  Keeps T e { e with taskInfos := e.taskInfos.modify R f }
  where
  info ti hti := by
    by_cases hR : R = T
    · subst hR
      obtain ⟨h₁, h₂, h₃⟩ := hT rfl ti hti
      exact ⟨f ti, by rw [lookup_modify, if_pos rfl, hti]; rfl, h₁, h₂, h₃, (hf ti).1⟩
    · exact ⟨ti, by rw [lookup_modify, if_neg (Ne.symm hR), hti], rfl, rfl, rfl, rfl⟩
  others X info hinfo := by
    by_cases hX : X = R
    · subst hX
      refine ⟨f info, by rw [lookup_modify, if_pos rfl, hinfo]; rfl, (hf info).2,
        fun _ => (hf info).1, fun hfinal => .inl ?_⟩
      rwa [(hf info).1] at hfinal
    · exact ⟨info, by rw [lookup_modify, if_neg hX, hinfo], .refl _, fun _ => rfl, .inl⟩
  jobs := rfl
  finished _ := id
  threw := id

theorem of_addsWaiters (T : ℕ) (h : AddsWaiters e e') :
  Keeps T e e'
  where
  info ti hti := by
    obtain ⟨waiters, hinfo, -⟩ := h.infos T
    rw [hti] at hinfo
    exact ⟨_, hinfo, rfl, rfl, rfl, rfl⟩
  others X info hinfo := by
    obtain ⟨waiters, hinfo', hsub⟩ := h.infos X
    rw [hinfo] at hinfo'
    exact ⟨_, hinfo', hsub info hinfo, fun _ => rfl, .inl⟩
  jobs := by rw [h.rest]
  finished X hX := by
    rw [h.rest]
    exact hX
  threw hT := by
    rw [h.rest] at hT
    exact hT

theorem of_inserted (h : Inserted e e') (hT : T ∈ e.taskInfos) (he : EngineInv e) :
  Keeps T e e'
  := by
  have hne : ∀ X info, e.taskInfos.lookup X = some info → X ≠ e.nextTaskID := by
    intro X info hinfo
    apply Nat.ne_of_lt (he.below X _)
    rw [status_isSome, ← lookup_isSome, hinfo]
    rfl
  constructor
  · intro ti hti
    exact ⟨ti, by rw [h.infos T (hne T ti hti), hti], rfl, rfl, rfl, rfl⟩
  · intro X info hinfo
    exact ⟨info, by rw [h.infos X (hne X info hinfo), hinfo], .refl _, fun _ => rfl,
      .inl⟩
  · have hT' : e.nextTaskID ≠ T := by
      obtain ⟨ti, hti⟩ := isSome_iff_exists.mp (lookup_isSome.mpr hT)
      exact (hne T ti hti).symm
    simp [h.jobs, isStepOf, hT']
  · intro X hX
    rw [h.jobs]
    exact mem_append_left _ hX
  · rw [h.threw]
    exact id

variable {R : ℕ} {ti : TaskInfo}

/-- Another task enters a phase. -/
theorem of_enters
    (hR : R ≠ T) (htouches : Touches R e e') (henters : Enters R e e')
    (hti : e.taskInfos.lookup R = some ti) (hfinal : ti.nextState.isFinal = false)
    (hby : (e'.taskInfos.lookup R).map TaskInfo.requestedBy = some ti.requestedBy) :
  Keeps T e e'
  := by
  obtain ⟨waitingOn, nextState, jobs, threw, hstatus, hjobs, hthrew, hstep, hdone, hout, -⟩ :=
    henters.spec
  constructor
  · intro ti hti
    exact ⟨ti, by rw [htouches.infos T hR.symm, hti], rfl, rfl, rfl, rfl⟩
  · intro X info hinfo
    by_cases hX : X = R
    · subst hX
      rw [hti] at hinfo
      cases hinfo
      obtain ⟨ti', hti', hby⟩ := map_eq_some_iff.mp hby
      obtain ⟨ti'', hti'', -, rfl⟩ := status_eq_some.mp hstatus
      obtain rfl := some.inj (hti'.symm.trans hti'')
      refine ⟨ti', hti', by rw [hby]; exact .refl _, ?_, ?_⟩
      · intro h
        rw [hfinal] at h
        cases h
      · intro h
        rw [hjobs]
        exact .inr (mem_append_right _ (hdone h))
    · exact ⟨info, by rw [htouches.infos X hX, hinfo], .refl _, fun _ => rfl, .inl⟩
  · rw [hjobs, filter_append, append_right_eq_self, filter_eq_nil_iff]
    intro job hjob
    rcases hstep job hjob with h | ⟨rfl, -⟩
    · simp [isStepOf_eq h, hR.symm]
    · simp [isStepOf]
  · intro X hX
    rw [hjobs]
    exact mem_append_left _ hX
  · intro h
    rw [hthrew] at h
    exact (mem_append.mp h).resolve_left (fun h => hR (hout T h).symm)

/-- Another task is taken off what it waits on. -/
theorem of_unblockOn (he : EngineInv e) (hR : R ≠ T) (id : ℕ) :
  Keeps T e (e.unblockOn id R)
  := by
  rw [unblockOn]
  split
  · exact ⟨(refl T e).info, (refl T e).others, rfl, fun _ h => h, fun h => h⟩
  · next ti hti =>
      dsimp only
      have hmodify : Keeps T e { e with taskInfos := e.taskInfos.modify R (fun info =>
          { info with waitingOn := ti.waitingOn.filter (· ≠ id) }) } :=
        of_modify T e R _ (fun _ => ⟨rfl, .refl _⟩) (absurd · hR)
      split_ifs with h
      · obtain ⟨ids, ctx, hnext⟩ := he.waiting R _ _
          (status_eq_some.mpr ⟨ti, hti, rfl, rfl⟩) h.1
        have hti' : (e.taskInfos.modify R (fun info =>
            { info with waitingOn := ti.waitingOn.filter (· ≠ id) })).lookup R
            = some { ti with waitingOn := ti.waitingOn.filter (· ≠ id) } := by
          rw [lookup_modify, if_pos rfl, hti]
          rfl
        exact hmodify.trans (of_enters hR (touches_unblockTask _ R)
          (enters_unblockTask hti' hnext h.2) hti' (by simp [hnext, TaskNextState.isFinal])
          (requestedBy_unblockTask hti' hnext))
      · exact hmodify

/-- A section that leaves the records of the tasks and the queue alone. -/
theorem of_eq
    (hinfos : e'.taskInfos = e.taskInfos) (hjobs : e'.readyJobs = e.readyJobs)
    (hthrew : T ∈ e'.threw → T ∈ e.threw) :
  Keeps T e e'
  where
  info ti hti := ⟨ti, by rw [hinfos, hti], rfl, rfl, rfl, rfl⟩
  others _ info hinfo := ⟨info, by rw [hinfos, hinfo], .refl _, fun _ => rfl, .inl⟩
  jobs := by rw [hjobs]
  finished X hX := by rwa [hjobs]
  threw := hthrew

theorem of_updateTaskCache
    (T : ℕ) (w : Wire) (e : EngineImpl) (ti : TaskInfo) (ctx : TaskContext)
    (inputs : List TaskInput) (next : TaskNextState) :
  Keeps T e (e.updateTaskCache w ti ctx inputs next)
  := by
  rw [updateTaskCache]
  split
  · exact refl T e
  · split_ifs
    · exact refl T e
    · exact refl T e
    · exact of_eq rfl rfl (fun h => h)

/-- A job for a step of another task is taken off the queue. -/
theorem of_take (hR : R ≠ T) (call : Call) :
  Keeps T e { e with readyJobs := e.readyJobs.erase (Machine.job R call) }
  where
  info ti hti := ⟨ti, hti, rfl, rfl, rfl, rfl⟩
  others _ info hinfo := ⟨info, hinfo, .refl _, fun _ => rfl, .inl⟩
  jobs := by
    rw [← erase_filter]
    simp [isStepOf, Machine.job, hR]
  finished X hX := (mem_erase_of_ne (by simp [Machine.job])).mpr hX
  threw := id

/-- A step of another task ends. -/
theorem of_processTaskNextState (hR : R ≠ T) (hidle : Idle e R ti) (next : TaskNextState) :
  Keeps T e (e.processTaskNextState R next)
  := by
  obtain ⟨e₁, hadds, htouches, henters, hby⟩ := processTaskNextState_enters hidle next
  obtain ⟨waiters, hidle₁⟩ := hidle.addsWaiters hadds
  refine (of_addsWaiters T hadds).trans ?_
  apply of_enters hR htouches henters hidle₁.info hidle₁.nextState
  rw [hby, hidle₁.info]
  rfl

end Keeps

namespace Event

/-- The section tells tasks that something they wait on is done. -/
def notifies : Event → Bool
  | finished _ | actionComplete _ _ | subtaskComplete _ _ => true
  | _ => false

/-- The task whose record or whose jobs the section changes. -/
def alters : Event → Option ℕ
  | take T _ | register T _ _ _ | recordAction T _ _ | recordSubtask T _ | miss T | next T _ =>
      some T
  | _ => none

theorem alters_ne {T : ℕ} {ev : Event} (h : ev.actor ≠ some T) :
  ev.alters ≠ some T
  := by
  intro heq
  cases ev <;> first | exact h heq | cases heq

end Event

variable {m' m : Machine} {w : Wire}

/-- A section that neither changes the task nor tells any task of something it waits on. -/
theorem Keeps.step
    {T : ℕ} {ev : Event} (hinv : Inv m) (hT : T ∈ m.engine.taskInfos) (hactor : ev.alters ≠ some T)
    (hnotifies : ev.notifies = false) (hstep : m.step w ev = some m') :
  Keeps T m.engine m'.engine
  := by
  have hinsert : ∀ buildID task, Keeps T m.engine (m.engine.insertTask buildID task).2 := by
    intro buildID task
    cases heq : m.engine.insertTask buildID task with
    | mk result e =>
      cases result with
      | error err => rw [insertTask_error heq]; exact .refl T _
      | ok id => exact of_inserted (insertTask_inserted heq).2 hT hinv.engine
  cases ev with
  | build buildID task =>
    cases hstep
    exact hinsert buildID task
  | take R call =>
    obtain ⟨-, ⟨⟩⟩ := ite_none_right_eq_some.mp hstep
    exact of_take (fun h => hactor (congrArg some h)) call
  | resolveRule R isRule label =>
    obtain ⟨rules, ruleMap, artifactMap, h⟩ := resolveRule_eq m.engine isRule label
    obtain rfl := Machine.eq_of_guard hstep
    apply Keeps.of_eq <;> simp [h]
  | constructTask R rule label =>
    obtain rfl := Machine.eq_of_guard hstep
    rw [constructTask]
    split
    · exact .refl T _
    · split
      · exact .refl T _
      · split_ifs
        · exact .refl T _
        · exact hinsert _ _
  | register R isRule label id | recordAction R workID action | recordSubtask R workID =>
    obtain rfl := Machine.eq_of_guard hstep
    refine of_modify T _ R _ ?_ (fun h => absurd (congrArg some h) hactor)
    exact fun _ => ⟨rfl, .refl _⟩
  | beginAction R | dropAction R workID | beginSubtask R | dropSubtask R workID =>
    obtain rfl := Machine.eq_of_guard hstep
    exact of_eq rfl rfl (fun h => h)
  | miss R =>
    have hR : R ≠ T := fun h => hactor (congrArg some h)
    rw [Machine.step] at hstep
    split at hstep
    · next call hcall =>
        obtain ⟨-, ⟨⟩⟩ := ite_none_right_eq_some.mp hstep
        exact ⟨fun ti hti => ⟨ti, hti, rfl, rfl, rfl, rfl⟩,
          fun _ info hinfo => ⟨info, hinfo, .refl _, fun _ => rfl, .inl⟩,
          by simp [enqueueReadyTask, isStepOf, hR],
          fun X hX => mem_append_left _ hX, id⟩
    · cases hstep
  | store R next =>
    rw [Machine.step] at hstep
    split at hstep
    · split_ifs at hstep
      cases hstep
      exact of_updateTaskCache T w m.engine _ _ _ _
    · cases hstep
  | next R next =>
    obtain ⟨hR, ⟨⟩⟩ := ite_none_right_eq_some.mp hstep
    obtain ⟨ti, hidle⟩ := hinv.idle hR
    exact of_processTaskNextState (fun h => hactor (congrArg some h)) hidle next
  | finished | actionComplete | subtaskComplete => cases hnotifies

/-- How the completion of work reaches a task: not at all, or it is taken off what the
task waits on. -/
inductive Notified (T : ℕ) (e e' : EngineImpl) : Prop where
  | keeps (h : Keeps T e e')
  | unblocks (e₁ : EngineImpl) (workID : ℕ) (hkeeps : Keeps T e e₁) (hinv : EngineInv e₁)
      (hid : workID ∉ e₁.taskInfos) (heq : e' = e₁.unblockOn workID T)

variable {e : EngineImpl}

theorem Notified.of_modify
    (T : ℕ) (he : EngineInv e) (R : ℕ) {workID : ℕ} (hid : e.status workID = none)
    (f : TaskInfo → TaskInfo) (hf : ∀ ti, (f ti).nextState = ti.nextState
      ∧ (f ti).requestedBy = ti.requestedBy ∧ (f ti).stableIDMap = ti.stableIDMap
      ∧ (f ti).requestedTaskInputs = ti.requestedTaskInputs ∧ (f ti).waitingOn = ti.waitingOn) :
  Notified T e (unblockOn { e with taskInfos := e.taskInfos.modify R f } workID R)
  := by
  have hkeeps : Keeps T e { e with taskInfos := e.taskInfos.modify R f } := by
    apply Keeps.of_modify T e R f
    · exact fun ti => ⟨(hf ti).1, by rw [(hf ti).2.1]; exact .refl _⟩
    · exact fun _ ti _ => (hf ti).2.2
  have hsound : Sound e { e with taskInfos := e.taskInfos.modify R f } :=
    Sound.of_modify e R f (fun ti => ⟨(hf ti).2.2.2.2, (hf ti).1⟩)
  by_cases hR : R = T
  · subst hR
    refine .unblocks _ workID hkeeps (hsound.inv he) ?_ rfl
    rw [status, map_eq_none_iff] at hid
    rw [← lookup_isSome, lookup_modify]
    split_ifs with h
    · rw [h] at hid
      simp [hid]
    · simp [hid]
  · exact .keeps (hkeeps.trans (Keeps.of_unblockOn (hsound.inv he) hR workID))

theorem notified_notifyActionComplete
    (T : ℕ) (he : EngineInv e) (workID : ℕ) (result : Outcome ActionResult) :
  Notified T e (e.notifyActionComplete workID result)
  := by
  rw [notifyActionComplete]
  split
  · exact .keeps (Keeps.refl T e)
  · next R hR =>
      split
      · exact .keeps (Keeps.of_eq rfl rfl (fun h => h))
      · apply Notified.of_modify T he R
          (he.actions workID (lookup_isSome.mp (by rw [hR]; rfl))).2
        exact fun ti => ⟨rfl, rfl, rfl, rfl, rfl⟩

theorem notified_notifySubtaskComplete
    (T : ℕ) (he : EngineInv e) (workID : ℕ) (result : SubtaskResult) :
  Notified T e (e.notifySubtaskComplete workID result)
  := by
  rw [notifySubtaskComplete]
  split
  · exact .keeps (Keeps.refl T e)
  · next R hR =>
      split
      · exact .keeps (Keeps.of_eq rfl rfl (fun h => h))
      · apply Notified.of_modify T he R
          (he.subtasks workID (lookup_isSome.mp (by rw [hR]; rfl))).2
        exact fun ti => ⟨rfl, rfl, rfl, rfl, rfl⟩

/-! ### A task that waits for requests -/

/-- The record of a task has the request, and the task that answers it is known. -/
def Granted (e : EngineImpl) (ti : TaskInfo) (g : Grant) : Prop :=
  ti.Has g ∧ g.id ∈ e.taskInfos

/-- A task that ended its step with a wait for the requests.  The tasks in `pending` are
telling their waiters that they are done. -/
structure Waiting (e : EngineImpl) (T : ℕ) (gs : List Grant) (ctx : TaskContext)
    (pending : ℕ → Prop) (ti : TaskInfo) : Prop where
  info : e.taskInfos.lookup T = some ti
  nextState : ti.nextState = .wait (gs.map sid) ctx
  threw : T ∉ e.threw
  phase :
    (ti.waitingOn ≠ [] ∧ e.readyJobs.filter (isStepOf T) = []
      ∧ (∀ g ∈ gs, Granted e ti g) ∧ (∀ g ∈ gs, e.Final g.id ∨ g.id ∈ ti.waitingOn)
      ∧ ∀ id ∈ ti.waitingOn, (∃ g ∈ gs, g.id = id) ∧ ∃ info, e.taskInfos.lookup id = some info
        ∧ T ∈ info.requestedBy
        ∧ (info.nextState.isFinal → .finished id ∈ e.readyJobs ∨ pending id))
    ∨ (ti.waitingOn = [] ∧ (∀ g ∈ gs, e.Final g.id) ∧ ∃ cached,
      e.readyJobs.filter (isStepOf T)
        = [.transition cached T ctx (gs.map (input e.taskInfos)) []])

section Waiting

variable {T : ℕ} {gs : List Grant} {ctx : TaskContext} {pending : ℕ → Prop} {e e' : EngineImpl}

variable {X : ℕ}

theorem Keeps.final (h : Keeps T e e') (hX : e.Final X) :
  e'.Final X
  := by
  obtain ⟨info, hinfo, hfinal⟩ := hX
  obtain ⟨info', hinfo', -, heq, -⟩ := h.others X info hinfo
  exact ⟨info', hinfo', heq hfinal ▸ hfinal⟩

theorem Keeps.mem (h : Keeps T e e') (hX : X ∈ e.taskInfos) :
  X ∈ e'.taskInfos
  := by
  obtain ⟨info, hinfo⟩ := isSome_iff_exists.mp (lookup_isSome.mpr hX)
  obtain ⟨info', hinfo', -⟩ := h.others X info hinfo
  rw [← lookup_isSome, hinfo']
  rfl

/-- The input from a task that is done stays the same. -/
theorem Keeps.input (h : Keeps T e e') {g : Grant} (hg : e.Final g.id) :
  g.input e'.taskInfos = g.input e.taskInfos
  := by
  obtain ⟨info, hinfo, hfinal⟩ := hg
  obtain ⟨info', hinfo', -, heq, -⟩ := h.others g.id info hinfo
  rw [Grant.input, Grant.input, hinfo, hinfo']
  simp [heq hfinal]

variable {ti : TaskInfo}

theorem Waiting.keeps (h : Waiting e T gs ctx pending ti) (hkeeps : Keeps T e e') :
  ∃ ti', Waiting e' T gs ctx pending ti'
  := by
  obtain ⟨ti', hti', hstable, hrequested, hwaiting, hnext⟩ := hkeeps.info ti h.info
  refine ⟨ti', hti', hnext.trans h.nextState, fun hmem => h.threw (hkeeps.threw hmem), ?_⟩
  rcases h.phase with ⟨hne, hjobs, hgranted, hfinal, hwaits⟩ | ⟨hnil, hfinal, cached, hjobs⟩
  · refine .inl ⟨hwaiting ▸ hne, hkeeps.jobs.trans hjobs, ?_, ?_, ?_⟩
    · intro g hg
      obtain ⟨⟨hsid, hreq⟩, hmem⟩ := hgranted g hg
      exact ⟨⟨hstable ▸ hsid, hrequested ▸ hreq⟩, hkeeps.mem hmem⟩
    · intro g hg
      rw [hwaiting]
      exact (hfinal g hg).imp_left hkeeps.final
    · intro id hid
      rw [hwaiting] at hid
      obtain ⟨hg, info, hinfo, hby, htold⟩ := hwaits id hid
      obtain ⟨info', hinfo', hsub, -, hback⟩ := hkeeps.others id info hinfo
      refine ⟨hg, info', hinfo', hsub hby, ?_⟩
      intro hfinal'
      rcases hback hfinal' with hfinal | hjob
      · exact (htold hfinal).imp_left (hkeeps.finished id)
      · exact .inl hjob
  · refine .inr ⟨hwaiting.trans hnil, fun g hg => hkeeps.final (hfinal g hg), cached, ?_⟩
    rw [hkeeps.jobs, hjobs]
    have hinputs : gs.map (input e'.taskInfos) = gs.map (input e.taskInfos) :=
      map_congr_left (fun g hg => hkeeps.input (hfinal g hg))
    rw [hinputs]

/-- The tasks that are telling their waiters matter only if the task waits on them. -/
theorem Waiting.pending_mono
    {pending' : ℕ → Prop} (h : Waiting e T gs ctx pending ti)
    (hpending : ∀ id ∈ ti.waitingOn, ∀ info, e.taskInfos.lookup id = some info →
      T ∈ info.requestedBy → pending id → pending' id) :
  Waiting e T gs ctx pending' ti
  := by
  refine ⟨h.info, h.nextState, h.threw, ?_⟩
  rcases h.phase with ⟨hne, hjobs, hgranted, hfinal, hwaits⟩ | hready
  · refine .inl ⟨hne, hjobs, hgranted, hfinal, ?_⟩
    intro id hid
    obtain ⟨hg, info, hinfo, hby, htold⟩ := hwaits id hid
    exact ⟨hg, info, hinfo, hby, fun hf => (htold hf).imp_right (hpending id hid info hinfo hby)⟩
  · exact .inr hready

/-- A task whose requests are all answered goes on with one input for each of them. -/
theorem waiting_unblockTask
    (hgs : Grants gs) (hti : e.taskInfos.lookup T = some ti)
    (hnext : ti.nextState = .wait (gs.map sid) ctx) (hwaiting : ti.waitingOn = [])
    (hthrew : T ∉ e.threw) (hjobs : e.readyJobs.filter (isStepOf T) = [])
    (hgranted : ∀ g ∈ gs, Granted e ti g) (hfinal : ∀ g ∈ gs, e.Final g.id) :
  ∃ ti', Waiting (e.unblockTask T) T gs ctx pending ti'
  := by
  have htouches := touches_unblockTask e T
  have hne : ∀ g ∈ gs, g.id ≠ T := by
    intro g hg heq
    obtain ⟨info, hinfo, hf⟩ := hfinal g hg
    rw [heq, hti] at hinfo
    cases hinfo
    rw [hnext] at hf
    cases hf
  obtain ⟨ti₁, hcollect₁⟩ : ∃ ti₁, collect e.taskInfos ti [] [] (gs.map sid)
      = .ready ti₁ ([] ++ gs.map (input e.taskInfos)) [] :=
    collect_grants hgs hgranted
  cases unblockTask_unblocks hti hnext with
  | failed ti' description err hcollect | threw hcollect =>
    rw [hcollect₁] at hcollect; cases hcollect
  | ready ti' cached inputs sres hcollect hinfo hjobs' hthrew' =>
    have hrest : ti.SameRest ti' := collect_sameRest (by rw [hcollect]; rfl)
    rw [hcollect₁] at hcollect
    obtain ⟨rfl, rfl, rfl⟩ := Collected.ready.inj hcollect
    refine ⟨ti₁, hinfo, hrest.nextState.trans hnext, hthrew' ▸ hthrew,
      .inr ⟨hrest.waitingOn.trans hwaiting, ?_, cached, ?_⟩⟩
    · intro g hg
      obtain ⟨info, hinfo, hf⟩ := hfinal g hg
      exact ⟨info, by rw [htouches.infos _ (hne g hg), hinfo], hf⟩
    · have hinputs : gs.map (input (e.unblockTask T).taskInfos)
          = gs.map (input e.taskInfos) := by
        apply map_congr_left
        intro g hg
        rw [input, input, htouches.infos _ (hne g hg)]
      rw [hjobs', filter_append, hjobs, hinputs]
      simp [isStepOf]

/-- The waiting task is taken off a task that is done. -/
theorem Waiting.unblockOn
    (hgs : Grants gs) (h : Waiting e T gs ctx pending ti) (hX : X ∈ e.taskInfos → e.Final X) :
  ∃ ti', Waiting (e.unblockOn X T) T gs ctx (fun id => id ≠ X ∧ pending id) ti'
  := by
  have hlookup : ∀ f : TaskInfo → TaskInfo, (e.taskInfos.modify T f).lookup T = some (f ti) := by
    intro f
    rw [lookup_modify, if_pos rfl, h.info]
    rfl
  rcases h.phase with ⟨hne, hjobs, hgranted, hfinal, hwaits⟩ | ⟨hnil, -⟩
  · let left := ti.waitingOn.filter (· ≠ X)
    let ti₁ : TaskInfo := { ti with waitingOn := left }
    let e₁ : EngineImpl := { e with
      taskInfos := e.taskInfos.modify T ({ · with waitingOn := left }) }
    have hti₁ : e₁.taskInfos.lookup T = some ti₁ := hlookup _
    have hothers : ∀ Y info, e.taskInfos.lookup Y = some info → ∃ info',
        e₁.taskInfos.lookup Y = some info' ∧ info'.requestedBy = info.requestedBy
          ∧ info'.nextState = info.nextState := by
      intro Y info hinfo
      by_cases hY : Y = T
      · subst hY
        rw [h.info] at hinfo
        cases hinfo
        exact ⟨ti₁, hti₁, rfl, rfl⟩
      · exact ⟨info, by rw [lookup_modify, if_neg hY, hinfo], rfl, rfl⟩
    have hfinal₁ : ∀ Y, e.Final Y → e₁.Final Y := by
      rintro Y ⟨info, hinfo, hf⟩
      obtain ⟨info', hinfo', -, hnext⟩ := hothers Y info hinfo
      exact ⟨info', hinfo', hnext ▸ hf⟩
    have hgranted₁ : ∀ g ∈ gs, Granted e₁ ti₁ g := by
      intro g hg
      obtain ⟨hhas, hmem⟩ := hgranted g hg
      obtain ⟨info, hinfo⟩ := isSome_iff_exists.mp (lookup_isSome.mpr hmem)
      obtain ⟨info', hinfo', -⟩ := hothers g.id info hinfo
      exact ⟨hhas, lookup_isSome.mp (by rw [hinfo']; rfl)⟩
    have hdone : ∀ g ∈ gs, e₁.Final g.id ∨ g.id ∈ left := by
      intro g hg
      by_cases hgX : g.id = X
      · exact .inl (hfinal₁ _ (hgX ▸ hX (hgX ▸ (hgranted g hg).2)))
      · exact (hfinal g hg).imp (hfinal₁ _) (fun hmem => mem_filter.mpr ⟨hmem, by simpa⟩)
    have hunblock : e.unblockOn X T = if left = [] then e₁.unblockTask T else e₁ := by
      rw [EngineImpl.unblockOn, h.info]
      simp [hne, left, e₁]
    rw [hunblock]
    split_ifs with hleft
    · apply waiting_unblockTask hgs hti₁ h.nextState hleft h.threw hjobs hgranted₁
      intro g hg
      refine (hdone g hg).resolve_right ?_
      rw [hleft]
      exact not_mem_nil
    · refine ⟨ti₁, hti₁, h.nextState, h.threw, Or.inl ⟨hleft, hjobs, hgranted₁, hdone, ?_⟩⟩
      intro id hid
      obtain ⟨hid, hidX⟩ := mem_filter.mp hid
      obtain ⟨hg, info, hinfo, hby, htold⟩ := hwaits id hid
      obtain ⟨info', hinfo', hby', hnext'⟩ := hothers id info hinfo
      refine ⟨hg, info', hinfo', hby' ▸ hby, ?_⟩
      rw [hnext']
      exact fun hf => (htold hf).imp_right (fun hp => ⟨by simpa using hidX, hp⟩)
  · have hkeeps : Keeps T e (e.unblockOn X T) := by
      rw [unblockOn_of_not_waiting h.info hnil]
      refine .of_modify T e T ({ · with waitingOn := [] })
        (fun _ => ⟨rfl, .refl _⟩) ?_
      intro _ ti' hti'
      rw [h.info] at hti'
      cases hti'
      exact ⟨rfl, rfl, hnil.symm⟩
    obtain ⟨ti', hwaiting⟩ := h.keeps hkeeps
    refine ⟨ti', hwaiting.pending_mono ?_⟩
    obtain ⟨ti'', hti'', -, -, hwait, -⟩ := hkeeps.info ti h.info
    rw [hwaiting.info] at hti''
    cases hti''
    intro id hid
    rw [hwait, hnil] at hid
    cases hid

/-- The waiters of a task that is done are told so, one after the other. -/
theorem Waiting.foldl_unblockOn
    (hgs : Grants gs) (waiters : List ℕ) (h : Waiting e T gs ctx (· = X ∧ T ∈ waiters) ti)
    (he : EngineInv e) (hX : e.Final X) :
  ∃ ti', Waiting (waiters.foldl (fun e id => e.unblockOn X id) e) T gs ctx (fun _ => False) ti'
  := by
  induction waiters generalizing e ti with
  | nil => exact ⟨ti, h.pending_mono (by simp)⟩
  | cons R waiters ih =>
    have he' : EngineInv (e.unblockOn X R) := (sound_unblockOn e X R).inv he
    by_cases hR : R = T
    · subst hR
      obtain ⟨ti', h'⟩ := h.unblockOn hgs (fun _ => hX)
      have hX' : (e.unblockOn X R).Final X := by
        obtain ⟨info, hinfo, hfinal⟩ := hX
        by_cases hXR : X = R
        · subst hXR
          rw [h.info] at hinfo
          cases hinfo
          rw [h.nextState] at hfinal
          cases hfinal
        · exact ⟨info, by rw [(touches_unblockOn e X R).infos X hXR, hinfo], hfinal⟩
      refine ih (h'.pending_mono ?_) he' hX'
      rintro id - - - - ⟨hne, rfl, -⟩
      exact absurd rfl hne
    · have hkeeps : Keeps T e (e.unblockOn X R) := Keeps.of_unblockOn he hR X
      obtain ⟨ti', h'⟩ := h.keeps hkeeps
      refine ih (h'.pending_mono ?_) he' (hkeeps.final hX)
      rintro id - - - - ⟨rfl, hmem⟩
      exact ⟨rfl, (mem_cons.mp hmem).resolve_left (Ne.symm hR)⟩

/-- The queue loses the job of a task that is about to tell its waiters. -/
theorem Waiting.eraseFinished (h : Waiting e T gs ctx (fun _ => False) ti) (X : ℕ) :
  Waiting { e with readyJobs := e.readyJobs.erase (.finished X) } T gs ctx (· = X) ti
  := by
  have hjobs : (e.readyJobs.erase (.finished X)).filter (isStepOf T)
      = e.readyJobs.filter (isStepOf T) := by
    rw [← erase_filter]
    simp [isStepOf]
  refine ⟨h.info, h.nextState, h.threw, ?_⟩
  rcases h.phase with ⟨hne, hjobs', hgranted, hfinal, hwaits⟩ | ⟨hnil, hfinal, cached, hjobs'⟩
  · refine .inl ⟨hne, hjobs.trans hjobs', hgranted, hfinal, ?_⟩
    intro id hid
    obtain ⟨hg, info, hinfo, hby, htold⟩ := hwaits id hid
    refine ⟨hg, info, hinfo, hby, ?_⟩
    intro hf
    by_cases hidX : id = X
    · exact .inr hidX
    · refine .inl ((mem_erase_of_ne ?_).mpr ((htold hf).resolve_right not_false))
      intro heq
      exact hidX (Job.finished.inj heq)
  · exact .inr ⟨hnil, hfinal, cached, hjobs.trans hjobs'⟩

/-- The sections of other tasks keep a task waiting for its requests. -/
theorem Waiting.step
    {ev : Event} (hinv : Inv m) (hgs : Grants gs)
    (h : Waiting m.engine T gs ctx (fun _ => False) ti) (hactor : ev.actor ≠ some T)
    (hstep : m.step w ev = some m') :
  ∃ ti', Waiting m'.engine T gs ctx (fun _ => False) ti'
  := by
  have hnotified : ∀ e', Notified T m.engine e' →
      ∃ ti', Waiting e' T gs ctx (fun _ => False) ti' := by
    intro e' hnotified
    cases hnotified with
    | keeps hkeeps => exact h.keeps hkeeps
    | unblocks e₁ workID hkeeps _ hid heq =>
      subst heq
      obtain ⟨ti₁, h₁⟩ := h.keeps hkeeps
      obtain ⟨ti', h'⟩ := h₁.unblockOn hgs (absurd · hid)
      exact ⟨ti', h'.pending_mono (fun _ _ _ _ _ hp => hp.2)⟩
  cases hev : ev.notifies with
  | false =>
    have hT : T ∈ m.engine.taskInfos := lookup_isSome.mp (by rw [h.info]; rfl)
    exact h.keeps (Keeps.step hinv hT (Event.alters_ne hactor) hev hstep)
  | true =>
    cases ev with
    | finished X =>
      obtain ⟨hX, ⟨⟩⟩ := ite_none_right_eq_some.mp hstep
      obtain ⟨waitingOn, nextState, hstatus, hfinal⟩ := hinv.engine.finished X hX
      obtain ⟨info, hinfo, -, rfl⟩ := status_eq_some.mp hstatus
      rw [notifyFinished, hinfo]
      apply Waiting.foldl_unblockOn hgs info.requestedBy ((h.eraseFinished X).pending_mono ?_)
        ((sound_eraseFinished _ _).inv hinv.engine) ⟨info, hinfo, hfinal⟩
      rintro id - info' hinfo' hby rfl
      rw [hinfo] at hinfo'
      cases hinfo'
      exact ⟨rfl, hby⟩
    | actionComplete workID result =>
      cases hstep
      exact hnotified _ (notified_notifyActionComplete T hinv.engine workID result)
    | subtaskComplete workID result =>
      cases hstep
      exact hnotified _ (notified_notifySubtaskComplete T hinv.engine workID result)
    | _ => cases hev

/-- A task goes on waiting for its requests as long as only sections of other tasks are
executed. -/
theorem Waiting.run
    {events : List Event} (hinv : Inv m)
    (hgs : Grants gs) (h : Waiting m.engine T gs ctx (fun _ => False) ti)
    (hactor : ∀ ev ∈ events, ev.actor ≠ some T) (hrun : m.run w events = some m') :
  ∃ ti', Waiting m'.engine T gs ctx (fun _ => False) ti'
  := by
  refine (Machine.run_induction w (P := fun m => Inv m
    ∧ ∃ ti', Waiting m.engine T gs ctx (fun _ => False) ti') ?_ ⟨hinv, ti, h⟩ hrun).2
  rintro m m' ev hev ⟨hinv, ti, h⟩ hstep
  exact ⟨hinv.step w hstep, h.step hinv hgs (hactor ev hev) hstep⟩

/-- The wait for requests that a task has is accepted: the task joins the waiters of each
task that answers one of them and is not done. -/
theorem waitFor_grants (unresolved : List ℕ) (hhas : ∀ g ∈ gs, Granted e ti g) :
  ∃ e' unresolved', waitFor T ti e unresolved (gs.map sid) = (e', .unresolved unresolved')
    ∧ unresolved ⊆ unresolved' ∧ (∀ g ∈ gs, e'.Final g.id ∨ g.id ∈ unresolved')
    ∧ ∀ id ∈ unresolved', id ∈ unresolved ∨ (∃ g ∈ gs, g.id = id) ∧
      ∃ info, e'.taskInfos.lookup id = some info ∧ T ∈ info.requestedBy
        ∧ info.nextState.isFinal = false
  := by
  induction gs generalizing e unresolved with
  | nil =>
    exact ⟨e, unresolved, rfl, .refl _, by simp, fun id hid => .inl hid⟩
  | cons g gs ih =>
    obtain ⟨⟨hsid, hreq⟩, hmem⟩ := hhas g mem_cons_self
    have hrequested : g.id ∈ ti.requestedTaskInputs :=
      lookup_isSome.mp (by rw [hreq]; rfl)
    obtain ⟨info, hinfo⟩ := isSome_iff_exists.mp (lookup_isSome.mpr hmem)
    have hrest : ∀ g ∈ gs, Granted e ti g := fun g hg => hhas g (mem_cons_of_mem _ hg)
    cases hfinal : info.nextState.isFinal with
    | true =>
      obtain ⟨e', unresolved', heq, hsub, hdone, hwaits⟩ := ih unresolved hrest
      have hadds : AddsWaiters e e' := by
        have := addsWaiters_waitFor T ti e unresolved (gs.map sid)
        rwa [heq] at this
      refine ⟨e', unresolved', ?_, hsub, ?_, ?_⟩
      · simp [waitFor, hsid, hrequested, hinfo, hfinal, heq]
      · intro g' hg'
        rcases mem_cons.mp hg' with rfl | hg'
        · exact .inl ((Keeps.of_addsWaiters T hadds).final ⟨info, hinfo, hfinal⟩)
        · exact hdone g' hg'
      · intro id hid
        refine (hwaits id hid).imp_right (fun h => ⟨?_, h.2⟩)
        obtain ⟨g', hg', hid'⟩ := h.1
        exact ⟨g', mem_cons_of_mem _ hg', hid'⟩
    | false =>
      let e₁ : EngineImpl := { e with
        taskInfos := e.taskInfos.modify g.id (fun input => { input with
          requestedBy := input.requestedBy.insert T }) }
      have hkeeps : Keeps T e e₁ := Keeps.of_addsWaiters T (addsWaiters_modify e T g.id)
      have hrest₁ : ∀ g ∈ gs, Granted e₁ ti g :=
        fun g hg => (hrest g hg).imp_right hkeeps.mem
      obtain ⟨e', unresolved', heq, hsub, hdone, hwaits⟩ :=
        ih (unresolved.insert g.id) hrest₁
      have hadds : AddsWaiters e₁ e' := by
        have := addsWaiters_waitFor T ti e₁ (unresolved.insert g.id) (gs.map sid)
        rwa [heq] at this
      refine ⟨e', unresolved', ?_, ?_, ?_, ?_⟩
      · simp [waitFor, hsid, hrequested, hinfo, hfinal, heq, e₁]
      · exact fun id hid => hsub (mem_insert_of_mem hid)
      · intro g' hg'
        rcases mem_cons.mp hg' with rfl | hg'
        · exact .inr (hsub mem_insert_self)
        · exact hdone g' hg'
      · intro id hid
        rcases hwaits id hid with hid | ⟨⟨g', hg', hid'⟩, hinfo'⟩
        · rcases mem_insert_iff.mp hid with rfl | hid
          · obtain ⟨waiters, hinfo', hwaiters⟩ := hadds.infos g.id
            have hinfo₁ : e₁.taskInfos.lookup g.id
                = some { info with requestedBy := info.requestedBy.insert T } := by
              rw [lookup_modify, if_pos rfl, hinfo]
              rfl
            rw [hinfo₁] at hinfo'
            exact .inr ⟨⟨g, mem_cons_self, rfl⟩, _, hinfo',
              hwaiters _ hinfo₁ mem_insert_self, hfinal⟩
          · exact .inl hid
        · exact .inr ⟨⟨g', mem_cons_of_mem _ hg', hid'⟩, hinfo'⟩

/-- A task that ends its step with a wait for requests that it has waits for them. -/
theorem waiting_processTaskNextState
    (hgs : Grants gs) (hidle : Idle e T ti) (hhas : ∀ g ∈ gs, Granted e ti g) :
  ∃ ti', Waiting (e.processTaskNextState T (.wait (gs.map sid) ctx)) T gs ctx
    (fun _ => False) ti'
  := by
  obtain ⟨e₁, unresolved, heq, -, hdone, hwaits⟩ := waitFor_grants (T := T) [] hhas
  have hadds : AddsWaiters e e₁ := by
    have := addsWaiters_waitFor T ti e [] (gs.map sid)
    rwa [heq] at this
  obtain ⟨waiters, hidle₁⟩ := hidle.addsWaiters hadds
  have hkeeps : Keeps T e e₁ := Keeps.of_addsWaiters T hadds
  have hjobs : e₁.readyJobs.filter (isStepOf T) = [] := by
    rw [← length_eq_zero_iff, ← countP_eq_length_filter]
    exact hidle₁.scheduled
  -- Both branches change the record of the task, and how no other task ended.
  have hset : ∀ f : TaskInfo → TaskInfo, (e₁.taskInfos.modify T f).lookup T
      = some (f { ti with requestedBy := waiters }) := by
    intro f
    rw [lookup_modify, if_pos rfl, hidle₁.info]
    rfl
  have hothers : ∀ {X : ℕ}, X ≠ T → ∀ f, (e₁.taskInfos.modify T f).lookup X
      = e₁.taskInfos.lookup X := by
    intro X hX f
    rw [lookup_modify, if_neg hX]
  have hmem : ∀ g ∈ gs, ∀ f, g.id ∈ e₁.taskInfos.modify T f := by
    intro g hg f
    rw [← lookup_isSome]
    by_cases hgT : g.id = T
    · rw [hgT, hset]
      rfl
    · rw [hothers hgT, lookup_isSome]
      exact hkeeps.mem (hhas g hg).2
  have hfinal : ∀ f X, e₁.Final X → ({ e₁ with
      taskInfos := e₁.taskInfos.modify T f } : EngineImpl).Final X := by
    rintro f X ⟨info, hinfo, hf⟩
    by_cases hX : X = T
    · subst hX
      rw [hidle₁.info] at hinfo
      cases hinfo
      rw [hidle₁.nextState] at hf
      cases hf
    · exact ⟨info, (hothers hX f).trans hinfo, hf⟩
  rw [processTaskNextState, hidle.info]
  dsimp only
  rw [heq]
  cases unresolved with
  | nil =>
    refine waiting_unblockTask hgs (hset _) rfl hidle₁.waitingOn ?_ ?_ ?_ ?_
    · exact hidle₁.threw
    · exact hjobs
    · exact fun g hg => ⟨(hhas g hg).1, hmem g hg _⟩
    · exact fun g hg => hfinal _ _ ((hdone g hg).resolve_right not_mem_nil)
  | cons id unresolved =>
    refine ⟨_, hset _, rfl, hidle₁.threw, .inl ⟨cons_ne_nil _ _, hjobs, ?_, ?_, ?_⟩⟩
    · exact fun g hg => ⟨(hhas g hg).1, hmem g hg _⟩
    · exact fun g hg => (hdone g hg).imp_left (hfinal _ _)
    · intro id' hid'
      obtain ⟨hg, info, hinfo, hby, hopen⟩ := (hwaits id' hid').resolve_left not_mem_nil
      refine ⟨hg, ?_⟩
      by_cases hidT : id' = T
      · subst hidT
        rw [hidle₁.info] at hinfo
        cases hinfo
        refine ⟨_, hset _, hby, ?_⟩
        intro hf
        cases hf
      · refine ⟨info, (hothers hidT _).trans hinfo, hby, ?_⟩
        intro hf
        rw [hopen] at hf
        cases hf

end Waiting

end LLBuild3

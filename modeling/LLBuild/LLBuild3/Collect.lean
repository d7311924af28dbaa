import LLBuild.LLBuild3.Machine
import Mathlib.Data.List.Count

/-!
# Unblocking a task

What the collection of inputs does to the maps of a task: it consumes the entries of the
ids it is given and no others, and succeeds if each id stands for a request to a task of
its own.  `Unblocks` says what `unblockTask` does to the engine in terms of how the
collection ends.
-/

namespace LLBuild3

open Table

open EngineImpl

/-- A request of a task that is answered by another task. -/
structure Grant where
  sid : UInt64
  id : ℕ
  req : TaskInputRequest
deriving DecidableEq

/-- The maps of a task have the request. -/
def TaskInfo.Has (ti : TaskInfo) (g : Grant) : Prop :=
  ti.stableIDMap.lookup g.sid = some g.id ∧ ti.requestedTaskInputs.lookup g.id = some g.req

/-- The records of a task agree in what the collection of inputs does not touch. -/
structure TaskInfo.SameRest (ti ti' : TaskInfo) : Prop where
  task : ti'.task = ti.task
  requestedBy : ti'.requestedBy = ti.requestedBy
  waitingOn : ti'.waitingOn = ti.waitingOn
  nextState : ti'.nextState = ti.nextState

/-- The record that a collection leaves, if it does not throw. -/
def EngineImpl.Collected.info? : Collected → Option TaskInfo
  | .ready ti _ _ => some ti
  | .failed ti _ => some ti
  | .threw => none

variable {infos : Table ℕ TaskInfo} {ids : List UInt64} {inputs : List TaskInput}

variable {sres : SubtaskResults}

/-- A property of the record of a task holds after a collection if it is kept when the
entries of an id are consumed. -/
theorem collect_invariant
    {P : TaskInfo → Prop}
    (hconsume : ∀ (ti : TaskInfo) (sid : UInt64) (id : ℕ) requested actions subtasks,
      sid ∈ ids → P ti → ti.stableIDMap.lookup sid = some id →
      (requested = ti.requestedTaskInputs ∨ requested = ti.requestedTaskInputs.erase id) →
      P { ti with
        stableIDMap := ti.stableIDMap.erase sid
        requestedTaskInputs := requested
        pendingActions := actions
        pendingSubtasks := subtasks })
    {ti ti' : TaskInfo}
    (hti : P ti) (h : (collect infos ti inputs sres ids).info? = some ti') :
  P ti'
  := by
  induction ids generalizing ti inputs sres with
  | nil =>
    obtain rfl : ti = ti' := Option.some.inj h
    exact hti
  | cons sid ids ih =>
    have hrest :=
      fun (ti : TaskInfo) (sid : UInt64) (id : ℕ) requested actions subtasks hmem =>
        hconsume ti sid id requested actions subtasks (List.mem_cons_of_mem _ hmem)
    have hfirst := fun id requested actions subtasks =>
      hconsume ti sid id requested actions subtasks List.mem_cons_self hti
    rw [collect] at h
    split at h
    · obtain rfl : ti = ti' := Option.some.inj h
      exact hti
    next id hid =>
      dsimp only at h
      split at h
      · split at h
        · cases h
        · exact ih hrest (hfirst id _ _ _ hid (Or.inr rfl)) h
      · split at h
        · split at h
          · cases h
          · exact ih hrest (hfirst id _ _ _ hid (Or.inl rfl)) h
        · split at h
          · exact ih hrest (hfirst id _ _ _ hid (Or.inl rfl)) h
          · cases h
          · cases h
            exact hfirst id _ _ _ hid (Or.inl rfl)

variable {ti : TaskInfo}

/-- The collection touches only the maps it takes inputs from. -/
theorem collect_sameRest
    {ti' : TaskInfo} (h : (collect infos ti inputs sres ids).info? = some ti') :
  ti.SameRest ti'
  := by
  apply collect_invariant (P := fun ti' => ti.SameRest ti') _ ⟨rfl, rfl, rfl, rfl⟩ h
  intro ti' sid id requested actions subtasks _ hti _ _
  exact ⟨hti.task, hti.requestedBy, hti.waitingOn, hti.nextState⟩

/-- The collection keeps a request if no id it is given stands for the same task. -/
theorem collect_keeps
    {ti' : TaskInfo} {g : Grant} (hg : ti.Has g)
    (hids : ∀ sid ∈ ids, ti.stableIDMap.lookup sid ≠ some g.id)
    (h : (collect infos ti inputs sres ids).info? = some ti') :
  ti'.Has g
  := by
  suffices hP : ti'.Has g ∧ ∀ sid ∈ ids, ti'.stableIDMap.lookup sid ≠ some g.id from hP.1
  apply collect_invariant
    (P := fun ti => ti.Has g ∧ ∀ sid ∈ ids, ti.stableIDMap.lookup sid ≠ some g.id) _ ⟨hg, hids⟩ h
  rintro ti sid id requested actions subtasks hsid ⟨hg, hids⟩ hid hrequested
  have hne : g.sid ≠ sid := by
    intro heq
    exact hids sid hsid (heq ▸ hg.1)
  have hne' : g.id ≠ id := by
    intro heq
    exact hids sid hsid (heq ▸ hid)
  refine ⟨⟨?_, ?_⟩, ?_⟩
  · rw [lookup_erase, if_neg hne]
    exact hg.1
  · rcases hrequested with rfl | rfl
    · exact hg.2
    · rw [lookup_erase, if_neg hne']
      exact hg.2
  · intro sid' hsid'
    rw [lookup_erase]
    split_ifs
    · simp
    · exact hids sid' hsid'

/-- The requests of a list are for different stable ids and answered by different tasks. -/
structure Grants (gs : List Grant) : Prop where
  sids : (gs.map Grant.sid).Nodup
  ids : (gs.map Grant.id).Nodup

/-- The input a request is answered with. -/
def Grant.input (infos : Table ℕ TaskInfo) (g : Grant) : TaskInput :=
  prepareInput (((infos.lookup g.id).map TaskInfo.nextState).getD .notSet) g.req

/-- The collection of the inputs for requests that a task has, to different tasks. -/
theorem collect_grants
    {gs : List Grant} (hgs : Grants gs) (hhas : ∀ g ∈ gs, ti.Has g ∧ g.id ∈ infos) :
  ∃ ti', collect infos ti inputs sres (gs.map Grant.sid)
    = .ready ti' (inputs ++ gs.map (Grant.input infos)) sres
  := by
  induction gs generalizing ti inputs with
  | nil => exact ⟨ti, by simp [collect]⟩
  | cons g gs ih =>
    obtain ⟨⟨hsid, hreq⟩, hmem⟩ := hhas g List.mem_cons_self
    obtain ⟨info, hinfo⟩ := Option.isSome_iff_exists.mp (AList.lookup_isSome.mpr hmem)
    obtain ⟨hgsid, hsids⟩ := List.nodup_cons.mp hgs.sids
    obtain ⟨hgid, hids⟩ := List.nodup_cons.mp hgs.ids
    -- The entries of the other requests stay.
    let rest : TaskInfo := { ti with
      stableIDMap := ti.stableIDMap.erase g.sid
      requestedTaskInputs := ti.requestedTaskInputs.erase g.id }
    have hrest : ∀ g' ∈ gs, rest.Has g' ∧ g'.id ∈ infos := by
      intro g' hg'
      obtain ⟨⟨hsid', hreq'⟩, hmem'⟩ := hhas g' (List.mem_cons_of_mem _ hg')
      have hne : g'.sid ≠ g.sid := fun heq => hgsid (heq ▸ List.mem_map_of_mem hg')
      have hne' : g'.id ≠ g.id := fun heq => hgid (heq ▸ List.mem_map_of_mem hg')
      refine ⟨⟨?_, ?_⟩, hmem'⟩
      · rw [lookup_erase, if_neg hne, hsid']
      · rw [lookup_erase, if_neg hne', hreq']
    obtain ⟨ti', hcollect⟩ : ∃ ti', collect infos rest (inputs ++ [g.input infos]) sres
        (gs.map Grant.sid)
        = .ready ti' (inputs ++ [g.input infos] ++ gs.map (Grant.input infos)) sres :=
      ih ⟨hsids, hids⟩ hrest
    rw [List.map_cons, collect, hsid]
    simp only [hinfo, hreq]
    have hinput : prepareInput info.nextState g.req = g.input infos := by
      rw [Grant.input, hinfo]
      rfl
    rw [hinput, hcollect]
    simp

/-! ### What unblocking does to the engine -/

/-- The engines know the same ids, and agree on the records of all tasks but one. -/
structure Touches (T : ℕ) (e e' : EngineImpl) : Prop where
  infos : ∀ X, X ≠ T → e'.taskInfos.lookup X = e.taskInfos.lookup X
  nextTaskID : e'.nextTaskID = e.nextTaskID
  actionTaskMap : e'.actionTaskMap = e.actionTaskMap
  subtaskTaskMap : e'.subtaskTaskMap = e.subtaskTaskMap
  taskNameMap : e'.taskNameMap = e.taskNameMap
  taskArtifactMap : e'.taskArtifactMap = e.taskArtifactMap

theorem Touches.trans {T : ℕ} {e e' e'' : EngineImpl} (h : Touches T e e') (h' : Touches T e' e'') :
  Touches T e e''
  where
  infos X hX := (h'.infos X hX).trans (h.infos X hX)
  nextTaskID := h'.nextTaskID.trans h.nextTaskID
  actionTaskMap := h'.actionTaskMap.trans h.actionTaskMap
  subtaskTaskMap := h'.subtaskTaskMap.trans h.subtaskTaskMap
  taskNameMap := h'.taskNameMap.trans h.taskNameMap
  taskArtifactMap := h'.taskArtifactMap.trans h.taskArtifactMap

variable (e : EngineImpl)

/-- Only the record of a task is modified. -/
theorem touches_modify (T : ℕ) (f : TaskInfo → TaskInfo) :
  Touches T e { e with taskInfos := e.taskInfos.modify T f }
  where
  infos X hX := by rw [lookup_modify, if_neg hX]
  nextTaskID := rfl
  actionTaskMap := rfl
  subtaskTaskMap := rfl
  taskNameMap := rfl
  taskArtifactMap := rfl

/-- The ways to go on with a task that waited for the ids. -/
inductive Unblocks (T : ℕ) (ti : TaskInfo) (ids : List UInt64) (ctx : TaskContext)
    (e e' : EngineImpl) : Prop where
  | ready (ti' : TaskInfo) (cached : Bool) (inputs : List TaskInput) (sres : SubtaskResults)
      (hcollect : collect e.taskInfos ti [] [] ids = .ready ti' inputs sres)
      (hinfo : e'.taskInfos.lookup T = some ti')
      (hjobs : e'.readyJobs = e.readyJobs ++ [.transition cached T ctx inputs sres])
      (hthrew : e'.threw = e.threw)
  | failed (ti' : TaskInfo) (description : String) (err : Error)
      (hcollect : collect e.taskInfos ti [] [] ids = .failed ti' description)
      (hinfo : e'.taskInfos.lookup T = some { ti' with nextState := .error err })
      (hjobs : e'.readyJobs = e.readyJobs ++ [.finished T])
      (hthrew : e'.threw = e.threw)
  | threw
      (hcollect : collect e.taskInfos ti [] [] ids = .threw)
      (hinfo : e'.taskInfos.lookup T = some ti)
      (hjobs : e'.readyJobs = e.readyJobs)
      (hthrew : e'.threw = T :: e.threw)

theorem touches_failTask (T : ℕ) (code : EngineError) (d : Option String) :
  Touches T e (e.failTask T code d)
  where
  infos X hX := by rw [failTask, processFinishedTask, lookup_modify, if_neg hX]
  nextTaskID := rfl
  actionTaskMap := rfl
  subtaskTaskMap := rfl
  taskNameMap := rfl
  taskArtifactMap := rfl

theorem touches_unblockTask (T : ℕ) :
  Touches T e (e.unblockTask T)
  := by
  have hinsert : ∀ ti X, X ≠ T →
      (e.taskInfos.insert T ti).lookup X = e.taskInfos.lookup X := by
    intro ti X hX
    rw [lookup_insert, if_neg hX]
  rw [unblockTask]
  split
  · exact ⟨fun _ _ => rfl, rfl, rfl, rfl, rfl, rfl⟩
  · split
    · split
      · rw [checkTaskCacheForReadyTask]
        split_ifs <;> exact ⟨hinsert _, rfl, rfl, rfl, rfl, rfl⟩
      · exact ⟨fun X hX => ((touches_failTask _ T _ _).infos X hX).trans (hinsert _ X hX),
          rfl, rfl, rfl, rfl, rfl⟩
      · exact ⟨fun _ _ => rfl, rfl, rfl, rfl, rfl, rfl⟩
    · exact touches_failTask e T _ _

theorem unblockTask_unblocks
    {e : EngineImpl} {T : ℕ} {ctx : TaskContext}
    (hti : e.taskInfos.lookup T = some ti) (hnext : ti.nextState = .wait ids ctx) :
  Unblocks T ti ids ctx e (e.unblockTask T)
  := by
  rw [unblockTask, hti]
  simp only [hnext]
  cases hcollect : collect e.taskInfos ti [] [] ids with
  | ready ti' inputs sres =>
    simp only [checkTaskCacheForReadyTask]
    split_ifs
    · exact .ready ti' false inputs sres hcollect (by simp [enqueueReadyTask]) rfl rfl
    · exact .ready ti' true inputs sres hcollect (by simp) rfl rfl
  | failed ti' description =>
    exact .failed ti' description _ hcollect
      (by simp [failTask, processFinishedTask, lookup_modify]; rfl) rfl rfl
  | threw => exact .threw hcollect hti rfl rfl

end LLBuild3

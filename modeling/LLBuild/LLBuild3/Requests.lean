import LLBuild.LLBuild3.Waits

/-!
# Requests that are waited for

A task that requests an artifact or a rule gets an id, and may wait for the id at the end
of the same step or of a later one.

* A request for a rule whose task is in flight is not recorded (`taskRequestRule`), and a
  wait for the id it returns ends the task.
* The record of the requests has one entry for each task that answers them.  When a task
  requests two artifacts of one producer, the second request is not recorded, and a wait
  for both ends with an exception.
* When the requests of a task are `Apart`, a request that was granted stays `Outstanding`
  until the task waits for it, and the wait is answered with one input for each request.
-/

namespace LLBuild3

open List

open Table

open EngineImpl Machine

/-! ### Outstanding requests -/

/-- The record of the task has the request, no other id stands for the task that answers
it, and the task is not waiting for it. -/
structure Outstanding (e : EngineImpl) (T : ℕ) (g : Grant) (ti : TaskInfo) : Prop where
  info : e.taskInfos.lookup T = some ti
  granted : Granted e ti g
  unique : ∀ sid, ti.stableIDMap.lookup sid = some g.id → sid = g.sid
  spared : ti.waitingOn ≠ [] → ∀ ids ctx, ti.nextState = .wait ids ctx → g.sid ∉ ids

section Outstanding

variable {T : ℕ} {g : Grant} {e e' : EngineImpl} {ti : TaskInfo}

section

variable (h : Outstanding e T g ti)

include h

theorem Outstanding.keeps (hkeeps : Keeps T e e') :
  ∃ ti', Outstanding e' T g ti'
  := by
  obtain ⟨ti', hti', hstable, hrequested, hwaiting, hnext⟩ := hkeeps.info ti h.info
  obtain ⟨⟨hsid, hreq⟩, hmem⟩ := h.granted
  refine ⟨ti', hti', ⟨⟨hstable ▸ hsid, hrequested ▸ hreq⟩, hkeeps.mem hmem⟩, ?_, ?_⟩
  · rw [hstable]
    exact h.unique
  · rw [hwaiting, hnext]
    exact h.spared

/-- A change of the record of the task that leaves its maps alone. -/
theorem Outstanding.modify
    (f : TaskInfo → TaskInfo) (hstable : (f ti).stableIDMap = ti.stableIDMap)
    (hrequested : (f ti).requestedTaskInputs = ti.requestedTaskInputs)
    (hspared : (f ti).waitingOn ≠ [] → ∀ ids ctx, (f ti).nextState = .wait ids ctx → g.sid ∉ ids)
    (hinfos : e'.taskInfos = e.taskInfos.modify T f) :
  Outstanding e' T g (f ti)
  := by
  obtain ⟨⟨hsid, hreq⟩, hmem⟩ := h.granted
  refine ⟨?_, ⟨⟨by rw [hstable, hsid], by rw [hrequested, hreq]⟩, ?_⟩, ?_, hspared⟩
  · rw [hinfos, lookup_modify, if_pos rfl, h.info]
    rfl
  · rw [← AList.lookup_isSome, hinfos, lookup_modify]
    split_ifs with hT
    · rw [h.info]
      rfl
    · exact AList.lookup_isSome.mpr hmem
  · rw [hstable]
    exact h.unique

/-- The collection of inputs for other ids leaves the request outstanding. -/
theorem Outstanding.collect
    {ids : List UInt64} (hids : g.sid ∉ ids) {ti' : TaskInfo}
    (hcollect : (collect e.taskInfos ti [] [] ids).info? = some ti') :
  ti'.Has g ∧ ∀ sid, ti'.stableIDMap.lookup sid = some g.id → sid = g.sid
  := by
  constructor
  · apply collect_keeps h.granted.1 _ hcollect
    intro sid hsid heq
    exact hids (h.unique sid heq ▸ hsid)
  · apply collect_invariant
      (P := fun ti => ∀ sid, ti.stableIDMap.lookup sid = some g.id → sid = g.sid) _ h.unique
      hcollect
    intro ti sid id requested actions subtasks _ hunique _ _ sid' hsid'
    rw [lookup_erase] at hsid'
    split_ifs at hsid'
    exact hunique sid' hsid'

/-- The task goes on after a wait for other ids. -/
theorem Outstanding.unblockTask
    (hwaiting : ti.waitingOn = []) {ids : List UInt64}
    {ctx : TaskContext} (hnext : ti.nextState = .wait ids ctx) (hids : g.sid ∉ ids) :
  ∃ ti', Outstanding (e.unblockTask T) T g ti'
  := by
  have htouches := touches_unblockTask e T
  have hmem : ∀ {ti'}, (e.unblockTask T).taskInfos.lookup T = some ti' →
      g.id ∈ (e.unblockTask T).taskInfos := by
    intro ti' hti'
    rw [← AList.lookup_isSome]
    by_cases hT : g.id = T
    · rw [hT, hti']
      rfl
    · rw [htouches.infos _ hT, AList.lookup_isSome]
      exact h.granted.2
  cases unblockTask_unblocks h.info hnext with
  | ready ti' _ _ _ hcollect hinfo | failed ti' _ _ hcollect hinfo =>
    have hrest : ti.SameRest ti' := collect_sameRest (by rw [hcollect]; rfl)
    obtain ⟨hhas, hunique⟩ : ti'.Has g ∧ ∀ sid, ti'.stableIDMap.lookup sid = some g.id →
        sid = g.sid := h.collect hids (by rw [hcollect]; rfl)
    exact ⟨_, hinfo, ⟨hhas, hmem hinfo⟩, hunique,
      fun hne => absurd (hrest.waitingOn.trans hwaiting) hne⟩
  | threw hcollect hinfo hjobs hthrew =>
    exact ⟨ti, hinfo, ⟨h.granted.1, hmem hinfo⟩, h.unique, h.spared⟩

/-- Something the task waits on is done. -/
theorem Outstanding.unblockOn (he : EngineInv e) (X : ℕ) :
  ∃ ti', Outstanding (e.unblockOn X T) T g ti'
  := by
  rw [EngineImpl.unblockOn, h.info]
  dsimp only
  have hmodify : Outstanding { e with taskInfos := e.taskInfos.modify T (fun ti' =>
      { ti' with waitingOn := ti.waitingOn.filter (· ≠ X) }) } T g
      { ti with waitingOn := ti.waitingOn.filter (· ≠ X) } := by
    refine h.modify (fun ti' => { ti' with waitingOn := ti.waitingOn.filter (· ≠ X) })
      rfl rfl ?_ rfl
    intro hne
    apply h.spared
    rintro hnil
    rw [hnil] at hne
    exact hne rfl
  split_ifs with hcond
  · obtain ⟨ids, ctx, hnext⟩ := he.waiting T _ _
      (status_eq_some.mpr ⟨ti, h.info, rfl, rfl⟩) hcond.1
    exact hmodify.unblockTask hcond.2 hnext (h.spared hcond.1 ids ctx hnext)
  · exact ⟨_, hmodify⟩

theorem Outstanding.foldl_unblockOn (he : EngineInv e) (X : ℕ) (waiters : List ℕ) :
  ∃ ti', Outstanding (waiters.foldl (fun e id => e.unblockOn X id) e) T g ti'
  := by
  induction waiters generalizing e ti with
  | nil => exact ⟨ti, h⟩
  | cons R waiters ih =>
    have he' : EngineInv (e.unblockOn X R) := (sound_unblockOn e X R).inv he
    obtain ⟨ti', h'⟩ : ∃ ti', Outstanding (e.unblockOn X R) T g ti' := by
      by_cases hR : R = T
      · subst hR
        exact h.unblockOn he X
      · exact h.keeps (Keeps.of_unblockOn he hR X)
    exact ih h' he'

/-- The task ends its step, and does not wait for the request. -/
theorem Outstanding.processTaskNextState
    (hidle : Idle e T ti) {next : TaskNextState}
    (hwait : ∀ ids ctx, next = .wait ids ctx → g.sid ∉ ids) :
  ∃ ti', Outstanding (e.processTaskNextState T next) T g ti'
  := by
  have hfail : ∀ {e₁ : EngineImpl} {ti₁ : TaskInfo} (code : EngineError) description,
      Outstanding e₁ T g ti₁ → ti₁.waitingOn = [] →
      ∃ ti', Outstanding (e₁.failTask T code description) T g ti' := by
    intro e₁ ti₁ code description h₁ hnil
    exact ⟨_, h₁.modify _ rfl rfl (absurd hnil ·) rfl⟩
  rw [EngineImpl.processTaskNextState, hidle.info]
  dsimp only
  split
  · next ids ctx =>
      have hadds : AddsWaiters e (waitFor T ti e [] ids).1 := addsWaiters_waitFor T ti e [] ids
      obtain ⟨waiters, hidle₁⟩ := hidle.addsWaiters hadds
      obtain ⟨ti₁, h₁⟩ := h.keeps (Keeps.of_addsWaiters T hadds)
      obtain rfl := Option.some.inj (hidle₁.info.symm.trans h₁.info)
      have hids := hwait ids ctx rfl
      split
      · next e₁ heq =>
          rw [heq] at h₁
          exact ⟨_, h₁.info, h₁.granted, h₁.unique, h₁.spared⟩
      · next e₁ sid heq =>
          rw [heq] at h₁
          exact hfail _ _ h₁ hidle₁.waitingOn
      · next e₁ heq =>
          rw [heq] at h₁
          have hset : Outstanding { e₁ with taskInfos := e₁.taskInfos.modify T (fun ti =>
              { ti with nextState := .wait ids ctx }) } T g
              { ti with requestedBy := waiters, nextState := .wait ids ctx } :=
            h₁.modify ({ · with nextState := .wait ids ctx }) rfl rfl
              (absurd hidle₁.waitingOn ·) rfl
          exact hset.unblockTask hidle₁.waitingOn rfl hids
      · next e₁ unresolved _ heq =>
          rw [heq] at h₁
          refine ⟨_, h₁.modify _ rfl rfl ?_ rfl⟩
          rintro - ids' ctx' heq
          obtain ⟨rfl, rfl⟩ := TaskNextState.wait.inj heq
          exact hids
  · exact hfail _ _ h hidle.waitingOn
  · exact ⟨_, h.modify _ rfl rfl (absurd hidle.waitingOn ·) rfl⟩
  · exact ⟨_, h.modify _ rfl rfl (absurd hidle.waitingOn ·) rfl⟩

end

end Outstanding

/-! ### Requests that are kept apart -/

/-- None of the outstanding requests has the id `sid` or is answered by the task `id`. -/
structure TaskInfo.Apart (ti : TaskInfo) (sid : UInt64) (id : ℕ) : Prop where
  sid : sid ∉ ti.stableIDMap
  requested : id ∉ ti.requestedTaskInputs
  ids : ∀ entry ∈ ti.stableIDMap.entries, entry.2 ≠ id

variable {sid : UInt64} {id : ℕ}

theorem TaskInfo.Apart.lookup_ne {ti : TaskInfo} (h : ti.Apart sid id) (sid' : UInt64) :
  ti.stableIDMap.lookup sid' ≠ some id
  := fun heq => h.ids ⟨sid', id⟩ (mem_entries.mpr heq) rfl

instance (ti : TaskInfo) (sid : UInt64) (id : ℕ) : Decidable (ti.Apart sid id) :=
  decidable_of_iff (sid ∉ ti.stableIDMap ∧ id ∉ ti.requestedTaskInputs
      ∧ ∀ entry ∈ ti.stableIDMap.entries, entry.2 ≠ id)
    ⟨fun h => ⟨h.1, h.2.1, h.2.2⟩, fun h => ⟨h.sid, h.requested, h.ids⟩⟩

/-- If the section records a request of the task, the request is kept apart from those
that are outstanding. -/
def Event.Apart (w : Wire) (T : ℕ) (m : Machine) : Event → Prop
  | .register R isRule label id => R = T → ∀ ti ∈ m.engine.taskInfos.lookup T,
      ti.Apart (w.stableHashTaskRequest isRule label) id
  | _ => True

instance (w : Wire) (T : ℕ) (m : Machine) (ev : Event) : Decidable (ev.Apart w T m) := by
  unfold Event.Apart
  split <;> infer_instance

section Apart

variable {T : ℕ} {g : Grant} {ti : TaskInfo} {w : Wire} {m m' : Machine}

/-- A further id of the task that stands for something else. -/
theorem Outstanding.emplace
    {e e' : EngineImpl} (h : Outstanding e T g ti) (f : TaskInfo → TaskInfo)
    (hid : id ≠ g.id) (hstable : (f ti).stableIDMap = ti.stableIDMap.emplace sid id)
    (hrequested : (f ti).requestedTaskInputs.lookup g.id = ti.requestedTaskInputs.lookup g.id)
    (hwaiting : (f ti).waitingOn = ti.waitingOn) (hnext : (f ti).nextState = ti.nextState)
    (hinfos : e'.taskInfos = e.taskInfos.modify T f) :
  Outstanding e' T g (f ti)
  := by
  obtain ⟨⟨hsid, hreq⟩, hmem⟩ := h.granted
  refine ⟨?_, ⟨⟨?_, by rw [hrequested, hreq]⟩, ?_⟩, ?_, ?_⟩
  · rw [hinfos, lookup_modify, if_pos rfl, h.info]
    rfl
  · rw [hstable, lookup_emplace]
    split_ifs with heq
    · rw [← heq, hsid]
      rfl
    · exact hsid
  · rw [← AList.lookup_isSome, hinfos, lookup_modify]
    split_ifs with hT
    · rw [h.info]
      rfl
    · exact AList.lookup_isSome.mpr hmem
  · intro sid' hsid'
    rw [hstable, lookup_emplace] at hsid'
    split_ifs at hsid' with heq
    · subst heq
      cases hlookup : ti.stableIDMap.lookup sid' with
      | none =>
        rw [hlookup] at hsid'
        exact absurd (Option.some.inj hsid') hid
      | some id' =>
        rw [hlookup] at hsid'
        exact h.unique sid' (hlookup.trans hsid')
    · exact h.unique sid' hsid'
  · rw [hwaiting, hnext]
    exact h.spared

/-- A request stays outstanding in every section, other than a wait of the task for it,
if further requests of the task are kept apart. -/
theorem Outstanding.step
    {ev : Event} (h : Outstanding m.engine T g ti) (hinv : Inv m) (hapart : ev.Apart w T m)
    (hwait : ∀ ids ctx, ev = .next T (.wait ids ctx) → g.sid ∉ ids)
    (hstep : m.step w ev = some m') :
  ∃ ti', Outstanding m'.engine T g ti'
  := by
  have hT : T ∈ m.engine.taskInfos := AList.lookup_isSome.mp (by rw [h.info]; rfl)
  have hnotified : ∀ {e'}, Notified T m.engine e' → ∃ ti', Outstanding e' T g ti' := by
    intro e' hnotified
    cases hnotified with
    | keeps hkeeps => exact h.keeps hkeeps
    | unblocks e₁ workID hkeeps hinv₁ _ heq =>
      obtain ⟨ti₁, h₁⟩ := h.keeps hkeeps
      rw [heq]
      exact h₁.unblockOn hinv₁ workID
  have hwork : ∀ {workID}, m.engine.status workID = none → workID ≠ g.id := by
    rintro workID hnone rfl
    have hsome := status_isSome.mpr h.granted.2
    rw [hnone] at hsome
    cases hsome
  by_cases halters : ev.alters = some T
  · cases ev with
    | take R call =>
      obtain ⟨-, ⟨⟩⟩ := Option.ite_none_right_eq_some.mp hstep
      exact ⟨ti, h.info, h.granted, h.unique, h.spared⟩
    | register R isRule label id =>
      cases halters
      obtain ⟨-, ⟨⟩⟩ := Option.ite_none_right_eq_some.mp hstep
      have hne : id ≠ g.id := by
        rintro rfl
        exact (hapart rfl ti h.info).lookup_ne g.sid h.granted.1.1
      refine ⟨_, h.emplace _ hne rfl ?_ rfl rfl rfl⟩
      rw [lookup_emplace, if_neg hne.symm]
    | recordAction R workID action =>
      cases halters
      obtain ⟨⟨-, hlookup⟩, ⟨⟩⟩ := Option.ite_none_right_eq_some.mp hstep
      have hnone := (hinv.engine.actions workID (AList.lookup_isSome.mp (by rw [hlookup]; rfl))).2
      exact ⟨_, h.emplace _ (hwork hnone) rfl rfl rfl rfl rfl⟩
    | recordSubtask R workID =>
      cases halters
      obtain ⟨⟨-, hlookup⟩, ⟨⟩⟩ := Option.ite_none_right_eq_some.mp hstep
      have hnone := (hinv.engine.subtasks workID (AList.lookup_isSome.mp (by rw [hlookup]; rfl))).2
      exact ⟨_, h.emplace _ (hwork hnone) rfl rfl rfl rfl rfl⟩
    | miss R =>
      rw [Machine.step] at hstep
      split at hstep
      · obtain ⟨-, heq⟩ := Option.ite_none_right_eq_some.mp hstep
        cases heq
        exact ⟨ti, h.info, h.granted, h.unique, h.spared⟩
      · cases hstep
    | next R next =>
      cases halters
      obtain ⟨hR, ⟨⟩⟩ := Option.ite_none_right_eq_some.mp hstep
      obtain ⟨ti', hidle⟩ := hinv.idle hR
      obtain rfl := Option.some.inj (hidle.info.symm.trans h.info)
      exact h.processTaskNextState hidle (fun ids ctx heq => hwait ids ctx (heq ▸ rfl))
    | _ => cases halters
  · cases hev : ev.notifies with
    | false => exact h.keeps (Keeps.step hinv hT halters hev hstep)
    | true =>
      cases ev with
      | finished X =>
        obtain ⟨-, ⟨⟩⟩ := Option.ite_none_right_eq_some.mp hstep
        rw [notifyFinished]
        have h' : Outstanding { m.engine with
            readyJobs := m.engine.readyJobs.erase (.finished X) } T g ti :=
          ⟨h.info, h.granted, h.unique, h.spared⟩
        split
        · exact ⟨ti, h'⟩
        · exact h'.foldl_unblockOn ((sound_eraseFinished _ _).inv hinv.engine) X _
      | actionComplete workID result =>
        cases hstep
        exact hnotified (notified_notifyActionComplete T hinv.engine workID result)
      | subtaskComplete workID result =>
        cases hstep
        exact hnotified (notified_notifySubtaskComplete T hinv.engine workID result)
      | _ => cases hev

/-- A request that is recorded, apart from the others, is outstanding. -/
theorem Outstanding.of_register
    {isRule : Bool} {label : Label} (hinv : Inv m)
    (hapart : (Event.register T isRule label id).Apart w T m)
    (hstep : m.step w (.register T isRule label id) = some m') :
  let sid := w.stableHashTaskRequest isRule label
  ∃ ti, Outstanding m'.engine T ⟨sid, id, ⟨isRule, label, sid⟩⟩ ti
  := by
  obtain ⟨⟨hT, hid⟩, ⟨⟩⟩ := Option.ite_none_right_eq_some.mp hstep
  obtain ⟨ti, hidle⟩ := hinv.idle hT
  have hti := hapart rfl ti hidle.info
  have hsid_none := AList.lookup_eq_none.mpr hti.sid
  have hrequested_none := AList.lookup_eq_none.mpr hti.requested
  dsimp only [register]
  use { ti with
    requestedTaskInputs := ti.requestedTaskInputs.emplace id
      ⟨isRule, label, w.stableHashTaskRequest isRule label⟩
    stableIDMap := ti.stableIDMap.emplace (w.stableHashTaskRequest isRule label) id }
  refine ⟨?_, ⟨⟨?_, ?_⟩, ?_⟩, ?_, ?_⟩
  · rw [lookup_modify, if_pos rfl, hidle.info]
    rfl
  · simp [lookup_emplace, hsid_none]
  · simp [lookup_emplace, hrequested_none]
  · rw [← AList.lookup_isSome, lookup_modify]
    split_ifs
    · rw [hidle.info]
      rfl
    · exact AList.lookup_isSome.mpr hid
  · intro sid' hsid'
    rw [lookup_emplace] at hsid'
    split_ifs at hsid' with heq
    · exact heq
    · exact absurd hsid' (hti.lookup_ne sid')
  · exact fun hne => absurd hidle.waitingOn hne

end Apart

/-! ### Calls -/

theorem Inv.of_fresh {m : Machine} (h : m.Fresh) :
  Inv m
  := by
  have hstatus : ∀ X, m.engine.status X = none := by
    intro X
    rw [status, h.taskInfos]
    rfl
  have hphases : ∀ X, m.engine.phases X = 0 := by
    intro X
    rw [EngineImpl.phases, hstatus, EngineImpl.scheduled, h.readyJobs, h.threw]
    rfl
  constructor
  · constructor
    case below => simp [hstatus]
    case actions => simp [h.actionTaskMap]
    case subtasks => simp [h.subtaskTaskMap]
    case names => simp [h.taskNameMap]
    case artifacts => simp [h.taskArtifactMap]
    case finished => simp [h.readyJobs]
    case waiting => simp [hstatus]
    case known => simp [EngineImpl.scheduled, h.readyJobs]
    case threw => simp [h.threw]
    case phases => simp [hphases]
  · simp [h.running]
  · simp [hstatus]

/-- A call of `taskRequestArtifact` or `taskRequestRule`: the sections executed until it
returns, those of other tasks among them, the id it returns and the task that answers
the request. -/
inductive Requests (w : Wire) (T : ℕ) (m : Machine) :
    Bool → Label → List Event → UInt64 → ℕ → Prop where
  /-- A task that produces the artifact is in flight. -/
  | artifactInFlight (label : Label) (id : ℕ)
      (hfind : m.engine.taskArtifactMap.find label = some id) :
      Requests w T m false label [.register T false label id]
        (w.stableHashTaskRequest false label) id
  /-- The task of the rule is in flight. -/
  | ruleInFlight (label : Label) (id : ℕ) (hfind : m.engine.taskNameMap.find label = some id) :
      Requests w T m true label [] (UInt64.ofNat id) id
  /-- A rule is looked for, and its task made or found. -/
  | new (isRule : Bool) (label : Label) (rule : Rule) (id : ℕ) (m₁ m₂ : Machine)
      (others₁ others₂ others₃ : List Event)
      (hfind : (if isRule then m.engine.taskNameMap else m.engine.taskArtifactMap).find label
        = none)
      (hothers₁ : ∀ ev ∈ others₁, ev.actor ≠ some T) (hrun₁ : m.run w others₁ = some m₁)
      (hresolve : (m₁.engine.resolveRule isRule label).1 = .ok rule)
      (hothers₂ : ∀ ev ∈ others₂, ev.actor ≠ some T)
      (hrun₂ : m₁.run w (.resolveRule T isRule label :: others₂) = some m₂)
      (hconstruct : (m₂.engine.constructTask (m₂.engine.minBuild T) rule label).1 = .ok id)
      (hothers₃ : ∀ ev ∈ others₃, ev.actor ≠ some T) :
      Requests w T m isRule label
        (others₁ ++ .resolveRule T isRule label :: others₂ ++ .constructTask T rule label :: others₃
          ++ [.register T isRule label id])
        (w.stableHashTaskRequest isRule label) id

/-- In a run, the task requested the label and was granted an id, and has not waited for
the id since.  The request was not one for a rule whose task was in flight. -/
def Requested (w : Wire) (T : ℕ) (isRule : Bool) (label : Label) (m : Machine)
    (events : List Event) (sid : UInt64) (id : ℕ) : Prop :=
  ∃ before call after m₁, events = before ++ call ++ after ∧ m.run w before = some m₁
    ∧ Requests w T m₁ isRule label call sid id
    ∧ (isRule = true → m₁.engine.taskNameMap.find label = none)
    ∧ ∀ ids ctx, .next T (.wait ids ctx) ∈ after → sid ∉ ids

/-! ### Two tasks -/

namespace Samples

/-- A hash that tells labels apart by the number of their components. -/
def wire : Wire where
  blake3 bytes := bytes.drop 1 ++ replicate 8 0
  label label := [UInt8.ofNat label.components.length]
  action _ := []
  transitionKey _ := []
  transitionValue _ := []
  parseTransitionValue _ := none

def header : Label := { components := ["gen", "header"] }

def source : Label := { components := ["gen", "source", "file"] }

/-- A task that produces two artifacts. -/
def generator : Task := { name := { components := ["gen"] }, produces := [header, source] }

/-- A task that needs artifacts of another task. -/
def compiler : Task := { name := { components := ["compile"] }, produces := [] }

/-- The first step of the compiler starts. -/
def started : List Event :=
  [.build 0 generator, .build 0 compiler, .take 1 ⟨false, .notSet, [], []⟩]

/-- The generator computes its result, and the compiler is told. -/
def generated : List Event :=
  [.take 0 ⟨false, .notSet, [], []⟩, .next 0 (.result ⟨[⟨header, .file, .notSet⟩,
    ⟨source, .file, .notSet⟩]⟩), .finished 0]

end Samples

open Samples

theorem Machine.fresh_empty :
  Machine.Fresh {}
  := ⟨rfl, rfl, rfl, rfl, rfl, rfl, rfl, rfl⟩

/-- **A task is in one phase of its life.**  Whatever the interleaving, a task that was made is
running, queued for one step, waiting, done or has thrown, and is one and only one of these; no
other id is any of them.  The ids of actions and subtasks are not those of tasks. -/
theorem Machine.Fresh.one_phase
    {w : Wire} {m₀ m : Machine} {events : List Event} (hfresh : m₀.Fresh)
    (hrun : m₀.run w events = some m) (T : ℕ) :
  (if T ∈ m.running then 1 else 0) + m.engine.phases T = (if T ∈ m.engine.taskInfos then 1 else 0)
    ∧ (T ∈ m.engine.actionTaskMap ∨ T ∈ m.engine.subtaskTaskMap → T ∉ m.engine.taskInfos)
  := by
  have hinv := (Inv.of_fresh hfresh).run w hrun
  simp only [← EngineImpl.status_isSome]
  constructor
  · by_cases hT : T ∈ m.running
    · obtain ⟨hsome, hphases⟩ := hinv.running T hT
      rw [if_pos hT, if_pos hsome, hphases]
    · rw [if_neg hT, zero_add]
      split_ifs with hsome
      · exact hinv.busy T hsome hT
      · have hnone : m.engine.status T = none := by simpa using hsome
        obtain ⟨hscheduled, hthrew⟩ := hinv.engine.unknown hnone
        rw [EngineImpl.phases, hscheduled, hnone, count_eq_zero.mpr hthrew, statusPhases]
  · rintro (h | h)
    · simp [(hinv.engine.actions T h).2]
    · simp [(hinv.engine.subtasks T h).2]

theorem Machine.Fresh.one_phase_started :
  ∃ m, run wire {} started = some m ∧ 1 ∈ m.running ∧ m.engine.phases 1 = 0
  := by
  have hrun : run wire {} started = some _ := rfl
  have h := (one_phase fresh_empty hrun 1).1
  rw [if_pos (by decide), if_pos (by decide)] at h
  exact ⟨_, hrun, by decide, by omega⟩

theorem requested_header :
  Requested wire 1 false header {} (started ++ [.register 1 false header 0])
    (wire.stableHashTaskRequest false header) 0
  := ⟨started, [.register 1 false header 0], [], _, rfl, rfl, .artifactInFlight _ _ (by decide),
    by simp, by simp⟩

/-! ### Waits -/

section Runs

open Outstanding

variable {w : Wire} {T : ℕ} {m₀ m m' : Machine} {events : List Event} {ctx : TaskContext}

/-- The last section of a call records the request. -/
theorem Requests.register
    {isRule : Bool} {label : Label} {call : List Event}
    (h : Requests w T m isRule label call sid id)
    (hrule : isRule = true → m.engine.taskNameMap.find label = none) :
  sid = w.stableHashTaskRequest isRule label
    ∧ ∃ init, call = init ++ [.register T isRule label id]
  := by
  cases h with
  | artifactInFlight => exact ⟨rfl, [], rfl⟩
  | ruleInFlight _ _ hfind =>
    rw [hrule rfl] at hfind
    cases hfind
  | new => exact ⟨rfl, _, rfl⟩

/-- A request that was granted is outstanding until the task waits for it. -/
theorem Requested.outstanding
    {isRule : Bool} {label : Label} (hfresh : m₀.Fresh)
    (hrun : m₀.run w events = some m) (hapart : m₀.Meets w (Event.Apart w T) events)
    (h : Requested w T isRule label m₀ events sid id) :
  ∃ ti, Outstanding m.engine T ⟨sid, id, ⟨isRule, label, sid⟩⟩ ti
  := by
  obtain ⟨before, call, after, m₁, rfl, hm₁, hrequests, hrule, hafter⟩ := h
  obtain ⟨rfl, init, rfl⟩ := hrequests.register hrule
  have hsplit : before ++ (init ++ [Event.register T isRule label id]) ++ after
      = (before ++ init) ++ (.register T isRule label id :: after) := by simp
  rw [hsplit] at hrun hapart
  rw [run_append] at hrun
  obtain ⟨m₂, hm₂, hrun⟩ := Option.bind_eq_some_iff.mp hrun
  obtain ⟨m₃, hm₃, hrun⟩ := Option.bind_eq_some_iff.mp hrun
  obtain ⟨-, hregister, hmeets⟩ := hapart.append hm₂
  have hinv₂ : Inv m₂ := (Inv.of_fresh hfresh).run w hm₂
  have h₃ := of_register hinv₂ hregister hm₃
  refine ((hmeets m₃ hm₃).induction (P := fun m => Inv m ∧ ∃ ti, Outstanding m.engine T _ ti)
    ?_ ⟨hinv₂.step w hm₃, h₃⟩ hrun).2
  rintro m m' ev hev ⟨hinv, ti, h⟩ hC hstep
  refine ⟨hinv.step w hstep, h.step hinv hC ?_ hstep⟩
  rintro ids ctx rfl
  exact hafter ids ctx hev

/-- Requests that are outstanding are answered by different tasks. -/
theorem Outstanding.grants
    {e : EngineImpl} {gs : List Grant} (hsids : (gs.map Grant.sid).Nodup)
    (h : ∀ g ∈ gs, ∃ ti, Outstanding e T g ti) :
  Grants gs
  := by
  refine ⟨hsids, ?_⟩
  apply List.Nodup.map_on _ (List.Nodup.of_map _ hsids)
  intro g hg g' hg' heq
  obtain ⟨ti, hti⟩ := h g hg
  obtain ⟨ti', hti'⟩ := h g' hg'
  obtain rfl := Option.some.inj (hti.info.symm.trans hti'.info)
  have hsid : g.sid = g'.sid := hti'.unique g.sid (heq ▸ hti.granted.1.1)
  exact inj_on_of_nodup_map hsids hg hg' hsid

/-- A wait for requests that are outstanding. -/
theorem Outstanding.waiting
    {gs : List Grant} {others : List Event} (hinv : Inv m) (hsids : (gs.map Grant.sid).Nodup)
    (h : ∀ g ∈ gs, ∃ ti, Outstanding m.engine T g ti) (hothers : ∀ ev ∈ others, ev.actor ≠ some T)
    (hwait : m.run w (.next T (.wait (gs.map Grant.sid) ctx) :: others) = some m') :
  ∃ ti, Waiting m'.engine T gs ctx (fun _ => False) ti
  := by
  obtain ⟨m₁, hm₁, hrun⟩ := Option.bind_eq_some_iff.mp hwait
  have hinv₁ : Inv m₁ := hinv.step w hm₁
  have hgs : Grants gs := grants hsids h
  obtain ⟨hT, ⟨⟩⟩ := Option.ite_none_right_eq_some.mp hm₁
  obtain ⟨ti, hidle⟩ := hinv.idle hT
  have hgranted : ∀ g ∈ gs, Granted m.engine ti g := by
    intro g hg
    obtain ⟨ti', h'⟩ := h g hg
    obtain rfl := Option.some.inj (hidle.info.symm.trans h'.info)
    exact h'.granted
  obtain ⟨ti₁, h₁⟩ : ∃ ti₁, Waiting _ T gs ctx (fun _ => False) ti₁ :=
    waiting_processTaskNextState hgs hidle hgranted
  exact h₁.run hinv₁ hgs hothers hrun

/-- Grants for ids, from a grant for each of them. -/
theorem exists_grants
    {P : Grant → Prop} {ids : List UInt64} (h : ∀ sid ∈ ids, ∃ g : Grant, g.sid = sid ∧ P g) :
  ∃ gs : List Grant, gs.map Grant.sid = ids ∧ ∀ g ∈ gs, P g
  := by
  induction ids with
  | nil => exact ⟨[], rfl, by simp⟩
  | cons sid ids ih =>
    obtain ⟨g, rfl, hg⟩ := h sid mem_cons_self
    obtain ⟨gs, rfl, hgs⟩ := ih (fun sid hsid => h sid (mem_cons_of_mem _ hsid))
    exact ⟨g :: gs, rfl, forall_mem_cons.mpr ⟨hg, hgs⟩⟩

/-- In a run in which the requests of a task are kept apart, a wait of the task for ids it
was granted is accepted, and the task is not ended before its next step. -/
theorem requested_wait_accepted
    {ids : List UInt64} {others : List Event} (hfresh : m₀.Fresh) (hrun : m₀.run w events = some m)
    (hapart : m₀.Meets w (Event.Apart w T) events) (hids : ids.Nodup)
    (hrequested : ∀ sid ∈ ids, ∃ isRule label id, Requested w T isRule label m₀ events sid id)
    (hothers : ∀ ev ∈ others, ev.actor ≠ some T)
    (hwait : m.run w (.next T (.wait ids ctx) :: others) = some m') :
  ∃ ti, m'.engine.taskInfos.lookup T = some ti ∧ ti.nextState = .wait ids ctx
    ∧ T ∉ m'.engine.threw
  := by
  have hgrant : ∀ sid ∈ ids, ∃ g : Grant, g.sid = sid ∧ ∃ ti, Outstanding m.engine T g ti := by
    intro sid hsid
    obtain ⟨isRule, label, id, h⟩ := hrequested sid hsid
    exact ⟨_, rfl, h.outstanding hfresh hrun hapart⟩
  obtain ⟨gs, rfl, hgs⟩ := exists_grants hgrant
  obtain ⟨ti, h⟩ := waiting ((Inv.of_fresh hfresh).run w hrun) hids hgs hothers hwait
  exact ⟨ti, h.info, h.nextState, h.threw⟩

/-- The compiler requests the rule of the generator, whose task is in flight.  The wait for
the id that is returned ends the compiler with an error. -/
theorem requested_rule_in_flight :
  ∃ m m' description, run wire {} started = some m
    ∧ Requests wire 1 m true generator.name [] 0 0
    ∧ m.engine.taskRequestRule wire 1 generator.name = (.ok 0, m.engine)
    ∧ m.step wire (.next 1 (.wait [0] .notSet)) = some m'
    ∧ (m'.engine.taskInfos.lookup 1).map TaskInfo.nextState
      = some (.error ⟨.engine, some (rawCode .unrequestedInput), description⟩)
  := ⟨_, _, _, rfl, .ruleInFlight _ _ (by decide), rfl, rfl, rfl⟩

/-- The compiler waits for the id it was granted for an artifact. -/
theorem requested_wait_accepted_header :
  ∃ m m' ti, run wire {} (started ++ [.register 1 false header 0]) = some m
    ∧ m.run wire (.next 1 (.wait [wire.stableHashTaskRequest false header] .notSet) :: generated)
      = some m'
    ∧ m'.engine.taskInfos.lookup 1 = some ti
    ∧ ti.nextState = .wait [wire.stableHashTaskRequest false header] .notSet
    ∧ 1 ∉ m'.engine.threw
  := by
  obtain ⟨ti, hti⟩ :=
    @requested_wait_accepted wire 1 {} _ _ (started ++ [.register 1 false header 0]) .notSet
      [wire.stableHashTaskRequest false header] generated fresh_empty rfl (by decide)
      (by decide) (forall_mem_singleton.mpr ⟨_, _, _, requested_header⟩) (by decide) rfl
  exact ⟨_, _, ti, rfl, rfl, hti⟩

/-- The request of an artifact, answered by its producer. -/
def artifactGrant (w : Wire) (producer : Label → ℕ) (label : Label) : Grant where
  sid := w.stableHashTaskRequest false label
  id := producer label
  req := ⟨false, label, w.stableHashTaskRequest false label⟩

/-- The input for the request of an artifact that is listed in the result of its producer. -/
theorem artifactGrant_input
    {e : EngineImpl} {producer : Label → ℕ} {label : Label} {info : TaskInfo} {res : TaskResult}
    (hinfo : e.taskInfos.lookup (producer label) = some info)
    (hres : info.nextState = .result res) (hlabel : label ∈ res.artifacts.map Artifact.label) :
  ((artifactGrant w producer label).input e.taskInfos).id = w.stableHashTaskRequest false label
    ∧ ∃ art : Artifact, art.label = label
      ∧ ((artifactGrant w producer label).input e.taskInfos).object = .artifact art
  := by
  refine ⟨rfl, ?_⟩
  obtain ⟨art, hart, hlabel⟩ := mem_map.mp hlabel
  have hfind : (res.artifacts.find? (·.label = label)).isSome := by
    rw [find?_isSome]
    exact ⟨art, hart, by simpa using hlabel⟩
  obtain ⟨art', hart'⟩ := Option.isSome_iff_exists.mp hfind
  refine ⟨art', by simpa using find?_some hart', ?_⟩
  have hinput : (artifactGrant w producer label).input e.taskInfos
      = prepareInput (((e.taskInfos.lookup (producer label)).map TaskInfo.nextState).getD .notSet)
        ⟨false, label, w.stableHashTaskRequest false label⟩ := rfl
  rw [hinput, hinfo, Option.map_some, hres, Option.getD_some, prepareInput]
  simp [hart']

/-- A task that waits has one step scheduled, if those it waits for are done and it was told so, and
the step gets the inputs that answer the requests. -/
theorem Waiting.answered {e : EngineImpl} {gs : List Grant} {ti : TaskInfo}
    (h : Waiting e T gs ctx (fun _ => False) ti) :
  (∀ call, job T call ∈ e.readyJobs →
      call.ctx = ctx ∧ call.sres = [] ∧ call.inputs = gs.map (Grant.input e.taskInfos))
    ∧ ((∀ g ∈ gs, e.Final g.id ∧ .finished g.id ∉ e.readyJobs) →
      ∃ call, e.readyJobs.filter (isStepOf T) = [job T call])
  := by
  have hsteps : ∀ call, job T call ∈ e.readyJobs →
      job T call ∈ e.readyJobs.filter (isStepOf T) :=
    fun call hcall => mem_filter.mpr ⟨hcall, by simp [job, isStepOf]⟩
  rcases h.phase with ⟨hne, hjobs, -, -, hwaits⟩ | ⟨-, -, cached, hjobs⟩
  · constructor
    · intro call hcall
      have hmem := hsteps call hcall
      rw [hjobs] at hmem
      cases hmem
    · intro htold
      obtain ⟨id, hid⟩ := exists_mem_of_ne_nil _ hne
      obtain ⟨⟨g, hg, rfl⟩, info, hinfo, -, hdone⟩ := hwaits id hid
      obtain ⟨⟨info', hinfo', hfinal⟩, hfinished⟩ := htold g hg
      obtain rfl := Option.some.inj (hinfo.symm.trans hinfo')
      exact absurd ((hdone hfinal).resolve_right not_false) hfinished
  · constructor
    · intro call hcall
      have hmem := hsteps call hcall
      rw [hjobs, mem_singleton] at hmem
      obtain ⟨-, -, hctx, hinputs, hsres⟩ := Job.transition.inj hmem
      exact ⟨hctx, hsres, hinputs⟩
    · exact fun _ => ⟨⟨cached, ctx, _, []⟩, hjobs⟩

/-- In a run in which the requests of a task are kept apart, the task waits for artifacts
it was granted without an error or an exception.  When their producers are done, with
results that list the artifacts, and have told the tasks waiting on them, one step of the
task is scheduled, and it gets one input for each artifact. -/
theorem requested_artifacts_answered
    {labels : List Label} {producer : Label → ℕ} {others : List Event} (hfresh : m₀.Fresh)
    (hrun : m₀.run w events = some m) (hapart : m₀.Meets w (Event.Apart w T) events)
    (hids : (labels.map (w.stableHashTaskRequest false)).Nodup)
    (hrequested : ∀ label ∈ labels, Requested w T false label m₀ events
      (w.stableHashTaskRequest false label) (producer label))
    (hothers : ∀ ev ∈ others, ev.actor ≠ some T)
    (hwait : m.run w (.next T (.wait (labels.map (w.stableHashTaskRequest false)) ctx) :: others)
      = some m') :
  (∃ ti, m'.engine.taskInfos.lookup T = some ti
    ∧ ti.nextState = .wait (labels.map (w.stableHashTaskRequest false)) ctx
    ∧ T ∉ m'.engine.threw)
  ∧ ((∀ label ∈ labels, ∃ info res, m'.engine.taskInfos.lookup (producer label) = some info
      ∧ info.nextState = .result res ∧ label ∈ res.artifacts.map Artifact.label) →
    (∀ call, job T call ∈ m'.engine.readyJobs → call.ctx = ctx ∧ call.sres = []
      ∧ List.Forall₂ (fun label input => input.id = w.stableHashTaskRequest false label
        ∧ ∃ art : Artifact, art.label = label ∧ input.object = .artifact art) labels call.inputs)
    ∧ ((∀ label ∈ labels, .finished (producer label) ∉ m'.engine.readyJobs) →
      ∃ call, m'.engine.readyJobs.filter (isStepOf T) = [job T call]))
  := by
  have hgs : ∀ g ∈ labels.map (artifactGrant w producer),
      ∃ ti, Outstanding m.engine T g ti := by
    intro g hg
    obtain ⟨label, hlabel, rfl⟩ := mem_map.mp hg
    exact (hrequested label hlabel).outstanding hfresh hrun hapart
  have hsids : (labels.map (artifactGrant w producer)).map Grant.sid
      = labels.map (w.stableHashTaskRequest false) := by
    rw [map_map]
    rfl
  rw [← hsids] at hids hwait ⊢
  obtain ⟨ti, h⟩ := waiting ((Inv.of_fresh hfresh).run w hrun) hids hgs hothers hwait
  refine ⟨⟨ti, h.info, h.nextState, h.threw⟩, ?_⟩
  intro hproducers
  obtain ⟨hcalls, hscheduled⟩ := h.answered
  constructor
  · intro call hcall
    obtain ⟨hctx, hsres, hinputs⟩ := hcalls call hcall
    refine ⟨hctx, hsres, ?_⟩
    rw [hinputs, map_map, forall₂_map_right_iff, forall₂_same]
    intro label hlabel
    obtain ⟨info, res, hinfo, hres, hlisted⟩ := hproducers label hlabel
    exact artifactGrant_input hinfo hres hlisted
  · intro htold
    apply hscheduled
    intro g hg
    obtain ⟨label, hlabel, rfl⟩ := mem_map.mp hg
    obtain ⟨info, res, hinfo, hres, -⟩ := hproducers label hlabel
    exact ⟨⟨info, hinfo, by rw [hres]; rfl⟩, htold label hlabel⟩

/-- The compiler requests both artifacts of the generator and waits for them.  When the
generator is done, the wait ends with an exception. -/
theorem requested_artifacts_throw :
  let ids := [header, source].map (wire.stableHashTaskRequest false)
  let requests := started ++ [.register 1 false header 0, .register 1 false source 0]
  ∃ m m', run wire {} requests = some m
    ∧ (∀ label ∈ [header, source],
      Requested wire 1 false label {} requests (wire.stableHashTaskRequest false label) 0)
    ∧ m.run wire (.next 1 (.wait ids .notSet) :: generated) = some m'
    ∧ 1 ∈ m'.engine.threw ∧ m'.engine.readyJobs.filter (isStepOf 1) = []
  := by
  refine ⟨_, _, rfl, ?_, rfl, by decide, by decide⟩
  intro label hlabel
  have hcases : label = header ∨ label = source := by simpa using hlabel
  rcases hcases with rfl | rfl
  · exact ⟨started, [.register 1 false header 0], [.register 1 false source 0], _, rfl, rfl,
      .artifactInFlight _ _ (by decide), by simp, by simp⟩
  · exact ⟨started ++ [.register 1 false header 0], [.register 1 false source 0], [], _, rfl, rfl,
      .artifactInFlight _ _ (by decide), by simp, by simp⟩

/-- The compiler waits for one artifact of the generator, and gets it. -/
theorem requested_artifacts_answered_header :
  ∃ m m', run wire {} (started ++ [.register 1 false header 0]) = some m
    ∧ m.run wire (.next 1 (.wait [wire.stableHashTaskRequest false header] .notSet) :: generated)
      = some m'
    ∧ 1 ∉ m'.engine.threw ∧ ∃ call, m'.engine.readyJobs.filter (isStepOf 1) = [job 1 call]
  := by
  refine ⟨_, _, rfl, rfl, ?_⟩
  obtain ⟨⟨ti, -, -, hthrew⟩, hanswered⟩ :=
    @requested_artifacts_answered wire 1 {} _ _ (started ++ [.register 1 false header 0]) .notSet
      [header] (fun _ => 0) generated fresh_empty rfl (by decide) (by decide)
      (forall_mem_singleton.mpr requested_header) (by decide) rfl
  refine ⟨hthrew, (hanswered ?_).2 (by decide)⟩
  exact forall_mem_singleton.mpr ⟨_, _, rfl, rfl, by decide⟩

end Runs

/-! ### Rules -/

/-- A task that is inserted has a new id and a new record. -/
theorem insertTask_taskInfos {e e' : EngineImpl} {buildID id : ℕ} {task : Task}
    (h : e.insertTask buildID task = (.ok id, e')) :
  id = e.nextTaskID ∧ e'.taskInfos = e.taskInfos.insert id { task := task, minBuild := buildID }
  := by
  rw [insertTask] at h
  split_ifs at h
  · cases h
  · split at h
    · cases h
    · cases h
      exact ⟨rfl, rfl⟩

section Rules

variable {w : Wire} {T : ℕ} {m₀ m m' : Machine} {events : List Event} {ctx : TaskContext}

/-- The task that a label is given is the one the rule configures exactly if the task in flight
that produces an artifact with the label, if there is one, is. -/
theorem constructTask_task_iff {e e' : EngineImpl} {buildID id : ℕ} {rule : Rule} {label : Label}
    (h : e.constructTask buildID rule label = (.ok id, e')) :
  (e'.taskInfos.lookup id).map TaskInfo.task = rule.configureTask
    ↔ ∀ X, e.taskArtifactMap.find label = some X →
      (e.taskInfos.lookup X).map TaskInfo.task = rule.configureTask
  := by
  rw [constructTask] at h
  cases hartifact : e.taskArtifactMap.find label with
  | some X =>
    rw [hartifact] at h
    cases h
    simp
  | none =>
    rw [hartifact] at h
    dsimp only at h
    cases htask : rule.configureTask with
    | none =>
      rw [htask] at h
      cases h
    | some task =>
      rw [htask] at h
      dsimp only at h
      split_ifs at h
      · cases h
      · obtain ⟨-, hinfos⟩ := insertTask_taskInfos h
        refine iff_of_true ?_ (by simp)
        rw [hinfos, lookup_insert, if_pos rfl]
        rfl

/-- A request for a rule that no task in flight has as its name looks for the rule, and then makes
or finds the task. -/
theorem Requested.exists_constructTask {label : Label} {sid : UInt64} {id : ℕ}
    (h : Requested w T true label m₀ events sid id) :
  ∃ (past others : List Event) (m₁ m₂ : Machine) (rule : Rule) (e : EngineImpl),
    past ++ .resolveRule T true label :: others <+: events ∧ m₀.run w past = some m₁
      ∧ (m₁.engine.resolveRule true label).1 = .ok rule
      ∧ m₁.run w (.resolveRule T true label :: others) = some m₂
      ∧ m₂.engine.constructTask (m₂.engine.minBuild T) rule label = (.ok id, e)
  := by
  obtain ⟨before, call, after, m₁, rfl, hm₁, hrequests, hrule, -⟩ := h
  have hfind := hrule rfl
  cases hrequests with
  | ruleInFlight _ _ hfind' =>
    rw [hfind] at hfind'
    cases hfind'
  | new _ _ rule _ m₂ m₃ others₁ others₂ others₃ _ _ hrun₁ hresolve _ hrun₂ hconstruct _ =>
    refine ⟨before ++ others₁, others₂, m₂, m₃, rule, _, ?_, ?_, hresolve, hrun₂,
      Prod.ext hconstruct rfl⟩
    · simp [List.append_assoc]
    · rw [run_append, hm₁]
      exact hrun₁

/-- **Requests for rules are answered.**  In a run in which the requests of a task are kept apart,
the task requests a rule, which no task in flight has as its name, and waits for the id it was
granted.  It is answered with the result of the task that was made or found for the label, and this
is the task that the rule configures exactly if the task in flight that produced an artifact with
the label, if there was one, is. -/
theorem requested_rule_answered_iff
    {label : Label} {sid : UInt64} {id : ℕ} {others : List Event} (hfresh : m₀.Fresh)
    (hrun : m₀.run w events = some m) (hapart : m₀.Meets w (Event.Apart w T) events)
    (hrequested : Requested w T true label m₀ events sid id)
    (hothers : ∀ ev ∈ others, ev.actor ≠ some T)
    (hwait : m.run w (.next T (.wait [sid] ctx) :: others) = some m') :
  (∃ (past between : List Event) (m₁ m₂ : Machine) (rule : Rule) (e : EngineImpl),
    past ++ .resolveRule T true label :: between <+: events ∧ m₀.run w past = some m₁
      ∧ (m₁.engine.resolveRule true label).1 = .ok rule
      ∧ m₁.run w (.resolveRule T true label :: between) = some m₂
      ∧ m₂.engine.constructTask (m₂.engine.minBuild T) rule label = (.ok id, e)
      ∧ ((e.taskInfos.lookup id).map TaskInfo.task = rule.configureTask
        ↔ ∀ X, m₂.engine.taskArtifactMap.find label = some X →
          (m₂.engine.taskInfos.lookup X).map TaskInfo.task = rule.configureTask))
    ∧ ∀ info res, m'.engine.taskInfos.lookup id = some info → info.nextState = .result res →
      (∀ call, job T call ∈ m'.engine.readyJobs →
        call.ctx = ctx ∧ call.inputs = [⟨sid, .result res⟩])
      ∧ (.finished id ∉ m'.engine.readyJobs →
        ∃ call, m'.engine.readyJobs.filter (isStepOf T) = [job T call])
  := by
  constructor
  · obtain ⟨past, between, m₁, m₂, rule, e, hpast, hm₁, hresolve, hm₂, hconstruct⟩ :=
      hrequested.exists_constructTask
    exact ⟨past, between, m₁, m₂, rule, e, hpast, hm₁, hresolve, hm₂, hconstruct,
      constructTask_task_iff hconstruct⟩
  · intro info res hinfo hres
    have hout := hrequested.outstanding hfresh hrun hapart
    obtain ⟨ti, h⟩ : ∃ ti, Waiting m'.engine T [⟨sid, id, ⟨true, label, sid⟩⟩] ctx
        (fun _ => False) ti :=
      Outstanding.waiting ((Inv.of_fresh hfresh).run w hrun) (nodup_singleton _)
        (forall_mem_singleton.mpr hout) hothers hwait
    obtain ⟨hcalls, hscheduled⟩ := h.answered
    constructor
    · intro call hcall
      obtain ⟨hctx, -, hinputs⟩ := hcalls call hcall
      refine ⟨hctx, ?_⟩
      rw [hinputs, map_singleton, Grant.input, hinfo, Option.map_some, hres]
      rfl
    · intro htold
      apply hscheduled
      exact forall_mem_singleton.mpr ⟨⟨info, hinfo, by rw [hres]; rfl⟩, htold⟩

end Rules

/-- A rule that has the label of an artifact of the generator as its name. -/
def headerRule : Rule where
  name := header
  produces := []
  configureTask := some { name := source, produces := [] }

/-- An engine with the rule. -/
def ruled : Machine where
  engine := (insertRule {} headerRule).2

/-- The compiler requests the rule, and no task that produces the artifact is in flight. -/
def requestsRule : List Event :=
  [.build 0 compiler, .take 0 ⟨false, .notSet, [], []⟩, .resolveRule 0 true header,
    .constructTask 0 headerRule header, .register 0 true header 1]

/-- The task of the rule computes its result, and the compiler is told. -/
def ruleBuilt : List Event :=
  [.take 1 ⟨false, .notSet, [], []⟩, .next 1 (.result ⟨[]⟩), .finished 1]

theorem requested_rule_answered_header :
  ∃ m m', run wire ruled requestsRule = some m
    ∧ m.run wire (.next 0 (.wait [wire.stableHashTaskRequest true header] .notSet) :: ruleBuilt)
      = some m'
    ∧ ∃ call, m'.engine.readyJobs.filter (isStepOf 0) = [job 0 call]
  := by
  have hrequested : Requested wire 0 true header ruled requestsRule
      (wire.stableHashTaskRequest true header) 1 :=
    ⟨requestsRule.take 2, requestsRule.drop 2, [], _, rfl, rfl,
      .new true header headerRule 1 _ _ [] [] [] (by decide) (by simp) rfl rfl (by simp) rfl
        (by rfl) (by simp), by decide, by simp⟩
  have hrun : run wire ruled requestsRule = some _ := rfl
  have hothers : ∀ ev ∈ ruleBuilt, ev.actor ≠ some 0 := by decide
  refine ⟨_, _, hrun, rfl, ?_⟩
  obtain ⟨-, hanswered⟩ :=
    @requested_rule_answered_iff wire 0 ruled _ _ requestsRule .notSet header _ 1 ruleBuilt
      ⟨rfl, rfl, rfl, rfl, rfl, rfl, rfl, rfl⟩ hrun (by decide) hrequested hothers rfl
  exact (hanswered _ _ rfl rfl).2 (by decide)

/-- A rule is requested while the generator is in flight, which produces an artifact with its
name: the request is answered by the generator. -/
theorem taskRequestRule_artifact :
  ∃ m e sid, run wire ruled [.build 0 generator, .build 0 compiler] = some m
    ∧ m.engine.taskRequestRule wire 1 header = (.ok sid, e)
    ∧ (m.engine.resolveRule true header).1.map Rule.configureTask
      = .ok (some { name := source, produces := [] })
    ∧ (e.taskInfos.lookup 1).map (fun ti => ti.stableIDMap.lookup sid) = some (some 0)
    ∧ (e.taskInfos.lookup 0).map TaskInfo.task = some generator
  := ⟨_, _, _, rfl, rfl, rfl, rfl, rfl⟩

end LLBuild3

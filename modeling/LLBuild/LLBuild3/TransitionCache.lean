import LLBuild.LLBuild3.Invariants
import Mathlib.Data.Set.Function

/-!
# The transition cache

When the code of a task is a function of its arguments, the engine may replay a stored
transition in the place of a step.  A transition is stored under the name and the
signature of the task, the context and the inputs of the step.  The results of subtasks
are an argument of the step too, but no part of the key, so a step that follows
completed subtasks may be replayed for other results (`cachedTransition_ignores_subtasks`).

`CacheInv` says that every transition in the cache is what the code of a task of that
name returns without results of subtasks.  It is kept by every run in which the steps that
are stored have none, through any number of engines on one store and one cache.
-/

namespace LLBuild3

open EngineImpl InMemoryCASDatabase

/-- The code of the tasks, as a function of the name and the signature of the task and the
arguments of a step. -/
abbrev Compute : Type :=
  Label → Signature → TaskContext → List TaskInput → SubtaskResults → TaskNextState

namespace Wire

variable (w : Wire)

/-- The object a key of a transition is stored as. -/
def keyObject (key : TaskTransitionKey) : CASObject :=
  { data := w.transitionKey key }

/-- The object a transition is stored as. -/
def valueObject (value : TaskTransitionValue) : CASObject :=
  { data := w.transitionValue value }

/-- The serialisation tells the keys apart and can be undone for the transitions, and the
objects they are stored as are identified without a collision. -/
structure Faithful (keys : Set TaskTransitionKey) (values : Set TaskTransitionValue) : Prop where
  keyObject_inj : Set.InjOn w.keyObject keys
  parse : ∀ value ∈ values, w.parseTransitionValue (w.transitionValue value) = some value
  identify_inj : Set.InjOn (identify w.blake3) (w.keyObject '' keys ∪ w.valueObject '' values)

end Wire

/-! ### The sections that store transitions -/

/-- The engines have the same store and the same cache. -/
def SameCache (e e' : EngineImpl) : Prop :=
  e'.casDB = e.casDB ∧ e'.actionCache = e.actionCache

namespace SameCache

variable {e e' e'' : EngineImpl}

theorem refl (e : EngineImpl) :
  SameCache e e
  := ⟨rfl, rfl⟩

theorem trans (h : SameCache e e') (h' : SameCache e' e'') :
  SameCache e e''
  := ⟨h'.1.trans h.1, h'.2.trans h.2⟩

section

variable (e : EngineImpl)

theorem of_insertTask (buildID : ℕ) (task : Task) :
  SameCache e (e.insertTask buildID task).2
  := by
  rw [insertTask]
  split_ifs
  · exact refl e
  · split <;> exact ⟨rfl, rfl⟩

theorem of_resolveRule (isRule : Bool) (label : Label) :
  SameCache e (e.resolveRule isRule label).2
  := by
  obtain ⟨rules, ruleMap, artifactMap, h⟩ := resolveRule_eq e isRule label
  rw [h]
  exact ⟨rfl, rfl⟩

theorem of_constructTask (buildID : ℕ) (rule : Rule) (label : Label) :
  SameCache e (e.constructTask buildID rule label).2
  := by
  rw [constructTask]
  split
  · exact refl e
  · split
    · exact refl e
    · split_ifs
      · exact refl e
      · exact of_insertTask e buildID _

theorem of_unblockTask (T : ℕ) :
  SameCache e (e.unblockTask T)
  := by
  rw [unblockTask]
  split
  · exact refl e
  · split
    · split
      · rw [checkTaskCacheForReadyTask]
        split_ifs <;> exact ⟨rfl, rfl⟩
      · exact ⟨rfl, rfl⟩
      · exact ⟨rfl, rfl⟩
    · exact ⟨rfl, rfl⟩

theorem of_unblockOn (id T : ℕ) :
  SameCache e (e.unblockOn id T)
  := by
  rw [unblockOn]
  split
  · exact ⟨rfl, rfl⟩
  · dsimp only
    split_ifs
    · exact of_unblockTask _ T
    · exact ⟨rfl, rfl⟩

theorem of_notifyFinished (X : ℕ) :
  SameCache e (e.notifyFinished X)
  := by
  rw [notifyFinished]
  split
  · exact refl e
  · next ti hti =>
      clear hti
      induction ti.requestedBy generalizing e with
      | nil => exact refl e
      | cons R waiters ih => exact (of_unblockOn e X R).trans (ih _)

theorem of_notifyActionComplete (workID : ℕ) (result : Outcome ActionResult) :
  SameCache e (e.notifyActionComplete workID result)
  := by
  rw [notifyActionComplete]
  split
  · exact refl e
  · split
    · exact ⟨rfl, rfl⟩
    · exact of_unblockOn _ workID _

theorem of_notifySubtaskComplete (workID : ℕ) (result : SubtaskResult) :
  SameCache e (e.notifySubtaskComplete workID result)
  := by
  rw [notifySubtaskComplete]
  split
  · exact refl e
  · split
    · exact ⟨rfl, rfl⟩
    · exact of_unblockOn _ workID _

theorem of_processTaskNextState (T : ℕ) (next : TaskNextState) :
  SameCache e (e.processTaskNextState T next)
  := by
  rw [processTaskNextState]
  split
  · exact refl e
  · next ti _ =>
      split
      · next ids ctx =>
          have hwait : SameCache e (waitFor T ti e [] ids).1 := by
            have hrest := (addsWaiters_waitFor T ti e [] ids).rest
            rw [hrest]
            exact ⟨rfl, rfl⟩
          split
          · next e₁ heq => rw [heq] at hwait; exact hwait
          · next e₁ sid heq => rw [heq] at hwait; exact hwait
          · next e₁ heq =>
              rw [heq] at hwait
              exact hwait.trans (of_unblockTask _ T)
          · next e₁ unresolved _ heq => rw [heq] at hwait; exact hwait
      · exact ⟨rfl, rfl⟩
      · exact ⟨rfl, rfl⟩
      · exact ⟨rfl, rfl⟩

end

/-- Transitions are stored by no other section. -/
theorem step
    {w : Wire} {m m' : Machine} {ev : Event} (hev : ∀ T next, ev ≠ .store T next)
    (hstep : m.step w ev = some m') :
  SameCache m.engine m'.engine
  := by
  cases ev with
  | build buildID task =>
    cases hstep
    exact of_insertTask _ _ _
  | take T call =>
    obtain ⟨-, ⟨⟩⟩ := Option.ite_none_right_eq_some.mp hstep
    exact ⟨rfl, rfl⟩
  | resolveRule T isRule label =>
    obtain rfl := Machine.eq_of_guard hstep
    exact of_resolveRule _ _ _
  | constructTask T rule label =>
    obtain rfl := Machine.eq_of_guard hstep
    exact of_constructTask _ _ _ _
  | register T isRule label id | beginAction T | recordAction T workID action
  | dropAction T workID | beginSubtask T | recordSubtask T workID | dropSubtask T workID =>
    obtain rfl := Machine.eq_of_guard hstep
    exact ⟨rfl, rfl⟩
  | miss T =>
    rw [Machine.step] at hstep
    split at hstep
    · obtain ⟨-, heq⟩ := Option.ite_none_right_eq_some.mp hstep
      cases heq
      exact ⟨rfl, rfl⟩
    · cases hstep
  | store T next => exact absurd rfl (hev T next)
  | next T next =>
    obtain ⟨-, ⟨⟩⟩ := Option.ite_none_right_eq_some.mp hstep
    exact of_processTaskNextState _ T next
  | finished X =>
    obtain rfl := Machine.eq_of_guard hstep
    exact of_notifyFinished
      { m.engine with readyJobs := m.engine.readyJobs.erase (.finished X) } X
  | actionComplete workID result =>
    cases hstep
    exact of_notifyActionComplete _ _ _
  | subtaskComplete workID result =>
    cases hstep
    exact of_notifySubtaskComplete _ _ _

end SameCache

/-! ### What the cache has -/

section Cache

variable {w : Wire} {compute : Compute} {keys : Set TaskTransitionKey}
  {values : Set TaskTransitionValue}

/-- An entry of the cache: the id of the key and the id of the transition, which is stored
and what the code returns without results of subtasks. -/
structure CacheEntry (w : Wire) (compute : Compute) (keys : Set TaskTransitionKey)
    (values : Set TaskTransitionValue) (casDB : InMemoryCASDatabase) (name : Label)
    (keyID valueID : CASID) (key : TaskTransitionKey) (value : TaskTransitionValue) : Prop where
  key_mem : key ∈ keys
  value_mem : value ∈ values
  keyID_eq : keyID = identify w.blake3 (w.keyObject key)
  valueID_eq : valueID = identify w.blake3 (w.valueObject value)
  stored : casDB.get valueID = w.valueObject value
  state : value.state = compute name key.signature key.ctx key.inputs []

/-- Every transition in the cache is what the code of the task returns without results of
subtasks. -/
def CacheInv (w : Wire) (compute : Compute) (keys : Set TaskTransitionKey)
    (values : Set TaskTransitionValue) (casDB : InMemoryCASDatabase) (cache : Option KeyMap) :
    Prop :=
  ∀ map ∈ cache, ∀ name keyID valueID, (map ⟨name, .task, keyID⟩).data = some valueID →
    ∃ key value, CacheEntry w compute keys values casDB name keyID valueID key value

theorem get_put (blake3 : BinaryCoding.Bytes → BinaryCoding.Bytes) (casDB : InMemoryCASDatabase)
    (o : CASObject) (id : CASID) :
  (casDB.put blake3 o).2.get id = if id = identify blake3 o then o else casDB.get id
  := by
  rw [InMemoryCASDatabase.get, InMemoryCASDatabase.put, Table.lookup_insert]
  split_ifs with h h' h'
  · rfl
  · exact absurd (congrArg CASID.mk h) h'
  · exact absurd (congrArg CASID.bytes h') h
  · rfl

variable {casDB : InMemoryCASDatabase} {cache : Option KeyMap}

/-- Another object is put, which does not collide with a transition. -/
theorem CacheInv.put
    (h : CacheInv w compute keys values casDB cache) {o : CASObject}
    (ho : ∀ value ∈ values, identify w.blake3 o = identify w.blake3 (w.valueObject value) →
      o = w.valueObject value) :
  CacheInv w compute keys values (casDB.put w.blake3 o).2 cache
  := by
  intro map hmap name keyID valueID hdata
  obtain ⟨key, value, hentry⟩ := h map hmap name keyID valueID hdata
  refine ⟨key, value, { hentry with stored := ?_ }⟩
  rw [get_put]
  split_ifs with heq
  · exact ho value hentry.value_mem (heq.symm.trans hentry.valueID_eq)
  · exact hentry.stored

theorem CacheInv.action
    {map : KeyMap} (h : CacheInv w compute keys values casDB (some map)) {key : CacheKey}
    (hkey : key.type = .action) (value : CacheValue) :
  CacheInv w compute keys values casDB (some (map.call (.update key value)))
  := by
  rintro _ ⟨⟩ name keyID valueID hdata
  apply h map rfl name keyID valueID
  rwa [KeyMap.call, Function.update_of_ne] at hdata
  rintro rfl
  cases hkey

variable {inputs : List TaskInput}

/-- A transition is stored that the code returned without results of subtasks. -/
theorem CacheInv.updateTaskCache
    {e : EngineImpl} (hw : w.Faithful keys values)
    (h : CacheInv w compute keys values e.casDB e.actionCache) {ti : TaskInfo} {ctx : TaskContext}
    {next : TaskNextState}
    (hstored : ti.task.cacheable = true →
      next = compute ti.task.name ti.task.signature ctx inputs []
      ∧ ⟨ctx, ti.task.signature, inputs⟩ ∈ keys ∧ ⟨next, outstandingRequests ti⟩ ∈ values) :
  CacheInv w compute keys values (e.updateTaskCache w ti ctx inputs next).casDB
    (e.updateTaskCache w ti ctx inputs next).actionCache
  := by
  rw [EngineImpl.updateTaskCache]
  split
  · exact h
  · next map hmap =>
      split_ifs with hcacheable
      · exact h
      · exact h
      · obtain ⟨hnext, hkey, hvalue⟩ := hstored (by simpa using hcacheable)
        rw [hmap] at h
        have hno : ∀ o ∈ w.keyObject '' keys ∪ w.valueObject '' values, ∀ value ∈ values,
            identify w.blake3 o = identify w.blake3 (w.valueObject value) →
            o = w.valueObject value := by
          intro o ho value hvalue heq
          exact hw.identify_inj ho (.inr ⟨value, hvalue, rfl⟩) heq
        have hput := (h.put (hno _ (.inl ⟨_, hkey, rfl⟩))).put (hno _ (.inr ⟨_, hvalue, rfl⟩))
        rintro _ ⟨⟩ name keyID valueID hdata
        by_cases hentry : (⟨name, .task, keyID⟩ : CacheKey) = transitionKey w ti.task ctx inputs
        · rw [KeyMap.call, hentry, Function.update_self] at hdata
          obtain ⟨rfl, -, rfl⟩ := CacheKey.mk.inj hentry
          cases hdata
          refine ⟨_, _, hkey, hvalue, rfl, rfl, ?_, hnext⟩
          exact (get_put _ _ _ _).trans (if_pos rfl)
        · rw [KeyMap.call, Function.update_of_ne hentry] at hdata
          exact hput map rfl name keyID valueID hdata

/-- The transition that is found for a key is what the code of the task returns without
results of subtasks. -/
theorem CacheInv.cachedTransition
    {e : EngineImpl} (hw : w.Faithful keys values)
    (h : CacheInv w compute keys values e.casDB e.actionCache) {task : Task} {ctx : TaskContext}
    {value : TaskTransitionValue} (hkey : ⟨ctx, task.signature, inputs⟩ ∈ keys)
    (hvalue : e.cachedTransition w task ctx inputs = some value) :
  value.state = compute task.name task.signature ctx inputs []
  := by
  rw [EngineImpl.cachedTransition] at hvalue
  split at hvalue
  · cases hvalue
  · next map hmap =>
      split at hvalue
      · cases hvalue
      · next valueID hdata =>
          obtain ⟨key, value', hentry⟩ := h map hmap _ _ valueID hdata
          have hobject : w.keyObject ⟨ctx, task.signature, inputs⟩ = w.keyObject key :=
            hw.identify_inj (.inl ⟨_, hkey, rfl⟩) (.inl ⟨_, hentry.key_mem, rfl⟩)
              hentry.keyID_eq
          obtain rfl := hw.keyObject_inj hkey hentry.key_mem hobject
          rw [hentry.stored, Wire.valueObject, hw.parse value' hentry.value_mem] at hvalue
          cases hvalue
          exact hentry.state

/-! ### Runs of engines on one cache -/

/-- If the section stores a step of a cacheable task, then what the code returned for the
step is stored, and the step had no results of subtasks. -/
def Event.Stores (compute : Compute) (keys : Set TaskTransitionKey)
    (values : Set TaskTransitionValue) (m : Machine) : Event → Prop
  | .store T state => ∀ call ∈ m.running.lookup T, ∀ ti ∈ m.engine.taskInfos.lookup T,
      ti.task.cacheable = true →
        state = compute ti.task.name ti.task.signature call.ctx call.inputs call.sres
        ∧ call.sres = [] ∧ ⟨call.ctx, ti.task.signature, call.inputs⟩ ∈ keys
        ∧ ⟨state, outstandingRequests ti⟩ ∈ values
  | _ => True

theorem CacheInv.step
    {m m' : Machine} {ev : Event} (hw : w.Faithful keys values)
    (h : CacheInv w compute keys values m.engine.casDB m.engine.actionCache)
    (hstores : ev.Stores compute keys values m) (hstep : m.step w ev = some m') :
  CacheInv w compute keys values m'.engine.casDB m'.engine.actionCache
  := by
  by_cases hev : ∃ T next, ev = .store T next
  · obtain ⟨T, next, rfl⟩ := hev
    rw [Machine.step] at hstep
    split at hstep
    · next call ti hcall hti =>
        split_ifs at hstep
        cases hstep
        apply h.updateTaskCache hw
        intro hcacheable
        obtain ⟨hnext, hsres, hkey, hvalue⟩ := hstores call hcall ti hti hcacheable
        exact ⟨hsres ▸ hnext, hkey, hvalue⟩
    · cases hstep
  · obtain ⟨hcasDB, hcache⟩ := SameCache.step (fun T next heq => hev ⟨T, next, heq⟩) hstep
    rwa [hcasDB, hcache]

theorem CacheInv.run
    {m m' : Machine} {events : List Event} (hw : w.Faithful keys values)
    (h : CacheInv w compute keys values m.engine.casDB m.engine.actionCache)
    (hstores : m.Meets w (Event.Stores compute keys values) events)
    (hrun : m.run w events = some m') :
  CacheInv w compute keys values m'.engine.casDB m'.engine.actionCache
  := hstores.induction (P := fun m => CacheInv w compute keys values m.engine.casDB
    m.engine.actionCache) (fun _ _ _ _ h hC hstep => h.step hw hC hstep) h hrun

/-- The stores and caches that come about, from an empty cache, by runs of engines, and by
others who put objects that do not collide with transitions and record results of
actions. -/
inductive Served (w : Wire) (compute : Compute) (keys : Set TaskTransitionKey)
    (values : Set TaskTransitionValue) : InMemoryCASDatabase → Option KeyMap → Prop where
  | empty (casDB : InMemoryCASDatabase) : Served w compute keys values casDB (some fun _ => {})
  | run (m m' : Machine) (events : List Event)
      (h : Served w compute keys values m.engine.casDB m.engine.actionCache) (hfresh : m.Fresh)
      (hstores : m.Meets w (Event.Stores compute keys values) events)
      (hrun : m.run w events = some m') :
      Served w compute keys values m'.engine.casDB m'.engine.actionCache
  | put (casDB : InMemoryCASDatabase) (cache : Option KeyMap)
      (h : Served w compute keys values casDB cache) (o : CASObject)
      (ho : ∀ value ∈ values, identify w.blake3 o = identify w.blake3 (w.valueObject value) →
        o = w.valueObject value) :
      Served w compute keys values (casDB.put w.blake3 o).2 cache
  | action (casDB : InMemoryCASDatabase) (map : KeyMap)
      (h : Served w compute keys values casDB (some map)) (key : CacheKey)
      (hkey : key.type = .action) (value : CacheValue) :
      Served w compute keys values casDB (some (map.call (.update key value)))

theorem Served.cacheInv
    (hw : w.Faithful keys values) (h : Served w compute keys values casDB cache) :
  CacheInv w compute keys values casDB cache
  := by
  induction h with
  | empty casDB =>
    rintro _ ⟨⟩ name keyID valueID hdata
    cases hdata
  | run m m' events h hfresh hstores hrun ih => exact ih.run hw hstores hrun
  | put casDB cache h o ho ih => exact ih.put ho
  | action casDB map h key hkey value ih => exact ih.action hkey value

/-- **Transparency.**  In every run on a cache that was filled with steps without results
of subtasks, a transition that is found for a step without results of subtasks has the
next state that the code returns for the arguments of the step. -/
theorem cachedTransition_eq_compute
    {m m' : Machine} {events : List Event} {task : Task} {call : Call}
    {value : TaskTransitionValue} (hw : w.Faithful keys values)
    (hserved : Served w compute keys values m.engine.casDB m.engine.actionCache)
    (hstores : m.Meets w (Event.Stores compute keys values) events)
    (hrun : m.run w events = some m')
    (hkey : ⟨call.ctx, task.signature, call.inputs⟩ ∈ keys) (hsres : call.sres = [])
    (hvalue : m'.engine.cachedTransition w task call.ctx call.inputs = some value) :
  value.state = compute task.name task.signature call.ctx call.inputs call.sres
  := by
  have hinv := (hserved.cacheInv hw).run hw hstores hrun
  rw [hsres]
  exact hinv.cachedTransition hw hkey hvalue

end Cache

/-! ### Results of subtasks -/

namespace CacheSamples

variable (bytes : BinaryCoding.Bytes)

/-- What the sample tasks produce. -/
def output : TaskNextState :=
  .result ⟨[⟨{ components := ["out"] }, .blob, .blob bytes⟩]⟩

/-- Transitions are stored as the bytes of the output. -/
def wire : Wire where
  blake3 bytes := bytes
  label _ := []
  action _ := []
  transitionKey _ := []
  transitionValue value := match value.state with
    | .result ⟨[⟨_, _, .blob bytes⟩]⟩ => bytes
    | _ => []
  parseTransitionValue bytes := some ⟨output bytes, []⟩

def spawner : Task := { name := { components := ["spawner"] }, produces := [] }

def leaf : Task := { name := { components := ["leaf"] }, produces := [] }

/-- The spawner waits for a subtask and returns what came of it. -/
def compute : Compute := fun name _ _ _ sres =>
  match sres with
  | (_, .value bytes) :: _ => output bytes
  | _ =>
      if name = spawner.name then .wait [wire.stableHashSubtaskRequest 1] .notSet else output [7]

/-- The second step of the spawner. -/
def second (cached : Bool) (bytes : BinaryCoding.Bytes) : Call :=
  ⟨cached, .notSet, [], [(wire.stableHashSubtaskRequest 1, .value bytes)]⟩

/-- The spawner runs until its second step is looked up in the cache. -/
def spawned : List Event :=
  [.build 0 spawner, .take 0 ⟨false, .notSet, [], []⟩, .beginSubtask 0, .recordSubtask 0 1,
    .store 0 (compute spawner.name {} .notSet [] []),
    .next 0 (compute spawner.name {} .notSet [] []),
    .subtaskComplete 1 (.value bytes), .take 0 (second true bytes)]

/-- The second step is computed and stored. -/
def computed : List Event :=
  let state := compute spawner.name {} .notSet [] (second false bytes).sres
  [.miss 0, .take 0 (second false bytes), .store 0 state, .next 0 state]

/-- An engine on a store and a cache. -/
def onCache (casDB : InMemoryCASDatabase) (cache : Option KeyMap) : Machine where
  engine := { casDB := casDB, actionCache := cache }

/-- One key and one transition are told apart. -/
theorem wire_faithful :
  wire.Faithful {⟨.notSet, {}, []⟩} {⟨output bytes, []⟩}
  where
  keyObject_inj := Set.injOn_singleton _ _
  parse := by
    rintro _ rfl
    rfl
  identify_inj := by
    have hrefs : ∀ o ∈ wire.keyObject '' {⟨.notSet, {}, []⟩}
        ∪ wire.valueObject '' {⟨output bytes, []⟩}, o.shape = [] := by
      rintro o (⟨key, -, rfl⟩ | ⟨value, -, rfl⟩) <;> rfl
    intro o ho o' ho' heq
    exact CASObject.eq_of_hashed ((hrefs o ho).trans (hrefs o' ho').symm)
      (calcIDForObject_eq_iff.mp heq)

end CacheSamples

open CacheSamples

/-- The spawner is run on one cache with two results of its subtask.  The transition that
was stored for the first result is found for the second one. -/
theorem cachedTransition_ignores_subtasks :
  wire.Faithful {⟨.notSet, {}, []⟩} {⟨output [1], []⟩}
    ∧ ∃ m m' ti value, (onCache {} (some fun _ => {})).run wire (spawned [1] ++ computed [1]) = some m
      ∧ (onCache m.engine.casDB m.engine.actionCache).run wire (spawned [2]) = some m'
      ∧ m'.running.lookup 0 = some (second true [2]) ∧ m'.engine.taskInfos.lookup 0 = some ti
      ∧ m'.engine.cachedTransition wire ti.task .notSet [] = some value
      ∧ value.state ≠ compute ti.task.name ti.task.signature .notSet [] (second true [2]).sres
  := by
  refine ⟨wire_faithful [1], _, _, _, _, rfl, rfl, rfl, rfl, rfl, ?_⟩
  decide

/-- The leaf has no subtasks: its step is stored, and what is found is what was computed. -/
theorem cachedTransition_eq_compute_leaf :
  ∃ m value, (onCache {} (some fun _ => {})).run wire [.build 0 leaf,
      .take 0 ⟨false, .notSet, [], []⟩, .store 0 (output [7])] = some m
    ∧ m.engine.cachedTransition wire leaf .notSet [] = some value
    ∧ value.state = compute leaf.name leaf.signature .notSet [] []
  := by
  refine ⟨_, _, rfl, rfl, ?_⟩
  refine @cachedTransition_eq_compute wire compute {⟨.notSet, {}, []⟩} {⟨output [7], []⟩}
    (onCache {} (some fun _ => {})) _ [.build 0 leaf, .take 0 ⟨false, .notSet, [], []⟩,
      .store 0 (output [7])] leaf ⟨true, .notSet, [], []⟩ _ (wire_faithful [7])
    (.empty _) ?_ rfl rfl rfl rfl
  refine ⟨trivial, fun m₁ h₁ => ⟨trivial, fun m₂ h₂ => ⟨?_, fun _ _ => trivial⟩⟩⟩
  cases h₁
  cases h₂
  intro call hcall ti hti _
  cases hcall
  cases hti
  exact ⟨rfl, rfl, rfl, rfl⟩

end LLBuild3

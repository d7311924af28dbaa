import Mathlib.Data.Finset.Max
import Mathlib.Data.Prod.Lex

/-!
# The queues of the action executor

The lanes of the action executor take their items from a `std::priority_queue`, which hands out
an item that the comparator puts before no other.  The comparator puts an item before those of
lower priority and of larger ids, so it is the item to be run last that comes out first.
The preparation of an action for remote execution writes its local state.
-/

namespace LLBuild3.ActionExecutor

inductive ActionPriority
  | low
  | default
  | high
  deriving DecidableEq

def ActionPriority.value : ActionPriority → ℤ
  | low => -1
  | default => 0
  | high => 1

structure SchedulerItem where
  actionID : ℕ
  buildID : ℕ
  workID : ℕ
  priority : ActionPriority
  deriving DecidableEq

/-- `SchedulerComparator`. -/
def comparator (lhs rhs : SchedulerItem) : Bool :=
  if lhs.priority.value > rhs.priority.value then true
  else if lhs.priority.value < rhs.priority.value then false
  else lhs.buildID < rhs.buildID && lhs.workID < rhs.workID

variable (queue : List SchedulerItem)

/-- What a comparator has to be like among the items of a queue. -/
def StrictWeak : Prop :=
  ∀ a ∈ queue, ∀ b ∈ queue, comparator a b → ¬ comparator b a
    ∧ ∀ c ∈ queue, comparator a c ∨ comparator c b

variable (item : SchedulerItem)

/-- The items a `std::priority_queue` may hand out: those that are before no other, and any if
the comparator is not one for it. -/
def Pops : Prop :=
  item ∈ queue ∧ (StrictWeak queue → ∀ other ∈ queue, ¬ comparator item other)

/-- The intended order: by falling priority, then by the build id, then by the work id. -/
def SchedulerItem.rank : ℤ ×ₗ ℕ ×ₗ ℕ :=
  toLex (-item.priority.value, toLex (item.buildID, item.workID))

/-- The item is one to be run first. -/
def Intended : Prop :=
  ∀ other ∈ queue, item.rank ≤ other.rank

/-- The items agree in priority, build id and work id. -/
def Uniform : Prop :=
  ∀ a ∈ queue, ∀ b ∈ queue, a.rank = b.rank

inductive QueueEvent
  | push (item : SchedulerItem)
  | pop (item : SchedulerItem)

/-- The pops of a sequence of pushes and pops are such as `P` says. -/
def Along (P : List SchedulerItem → SchedulerItem → Prop) :
    List SchedulerItem → List QueueEvent → Prop
  | _, [] => True
  | queue, .push item :: events => Along P (item :: queue) events
  | queue, .pop item :: events => P queue item ∧ Along P (queue.erase item) events

variable {P Q R : List SchedulerItem → SchedulerItem → Prop}

theorem Along.imp (himp : ∀ queue item, P queue item → Q queue item → R queue item)
    {queue : List SchedulerItem} {events : List QueueEvent}
    (hP : Along P queue events) (hQ : Along Q queue events) :
  Along R queue events
  := by
  fun_induction Along P queue events with
  | case1 => trivial
  | case2 queue item events ih => exact ih hP hQ
  | case3 queue item events ih => exact ⟨himp queue item hP.1 hQ.1, ih hP.2 hQ.2⟩

theorem rank_lt_of_comparator {a b : SchedulerItem} (h : comparator a b) :
  a.rank < b.rank
  := by
  rw [SchedulerItem.rank, SchedulerItem.rank, Prod.Lex.toLex_lt_toLex, Prod.Lex.toLex_lt_toLex]
  simp only [comparator] at h
  split_ifs at h with hgt hlt
  · omega
  · simp only [Bool.and_eq_true, decide_eq_true_eq] at h
    right
    constructor
    · omega
    · exact Or.inl h.1

/-- The item to be run last may be handed out. -/
theorem exists_pops_last {queue : List SchedulerItem} (hqueue : queue ≠ []) :
  ∃ item, Pops queue item ∧ ∀ other ∈ queue, other.rank ≤ item.rank
  := by
  obtain ⟨item, hmem, hlast⟩ := queue.toFinset.exists_max_image SchedulerItem.rank
    (List.toFinset_nonempty_iff queue |>.mpr hqueue)
  simp only [List.mem_toFinset] at hmem hlast
  refine ⟨item, ⟨hmem, ?_⟩, hlast⟩
  intro _ other hother hcomp
  exact (rank_lt_of_comparator hcomp).not_ge (hlast other hother)

/-- In every sequence of pushes and pops the pops from queues of items that agree in priority
and ids are as intended; from any other queue an item may be handed out that is not. -/
theorem pops_intended_of_uniform (events : List QueueEvent) :
  (Along Pops queue events → Along (fun queue _ => Uniform queue) queue events
      → Along Intended queue events)
    ∧ (queue ≠ [] → ((∀ item, Pops queue item → Intended queue item) ↔ Uniform queue))
  := by
  have hpop (queue : List SchedulerItem) (item : SchedulerItem)
      (hpops : Pops queue item) (h : Uniform queue) : Intended queue item :=
    fun other hother => (h item hpops.1 other hother).le
  refine ⟨Along.imp hpop, fun hqueue => ⟨fun h => ?_, fun h item hpops => ?_⟩⟩
  · obtain ⟨item, hitem, hlast⟩ := exists_pops_last hqueue
    have heq (a) (ha : a ∈ queue) : a.rank = item.rank :=
      le_antisymm (hlast a ha) (h item hitem a ha)
    intro a ha b hb
    rw [heq a ha, heq b hb]
  · exact hpop queue item hpops h

/-- Two items of one priority. -/
theorem pops_intended_of_uniform_two :
  Along Intended [] [.push ⟨0, 0, 0, .low⟩, .push ⟨1, 0, 0, .low⟩, .pop ⟨0, 0, 0, .low⟩]
  := by
  apply (pops_intended_of_uniform [] _).1
  · simp [Along, Pops, comparator, ActionPriority.value]
  · simp [Along, Uniform, SchedulerItem.rank]

/-- An item of low priority is handed out while there is one of high priority. -/
theorem low_priority_pops_first :
  Along Pops [] [.push ⟨0, 0, 0, .low⟩, .push ⟨1, 0, 0, .high⟩, .pop ⟨0, 0, 0, .low⟩]
    ∧ ¬ Along Intended [] [.push ⟨0, 0, 0, .low⟩, .push ⟨1, 0, 0, .high⟩, .pop ⟨0, 0, 0, .low⟩]
  := by
  constructor
  · simp [Along, Pops, comparator, ActionPriority.value]
  · intro h
    have hrank := h.1 ⟨1, 0, 0, .high⟩ (by simp)
    revert hrank
    decide

/-! ### The comparators as orders -/

/-- `JobComparator` of the engine, on a build id and a work id. -/
def jobComparator (lhs rhs : ℕ × ℕ) : Bool := lhs.1 < rhs.1 && lhs.2 < rhs.2

/-- Neither comes before the other. -/
def Incomparable {α : Type} (r : α → α → Bool) (a b : α) : Prop := ¬ r a b ∧ ¬ r b a

/-- A strict order that is a strict weak order on the values with `P`. -/
structure IsStrictWeakOn {α : Type} (r : α → α → Bool) (P : α → Prop) : Prop where
  irrefl : ∀ a, ¬ r a a
  trans : ∀ a b c, r a b → r b c → r a c
  incomparable : ∀ a b c, P a → P b → P c → Incomparable r a b → Incomparable r b c →
    Incomparable r a c

/-- A strict order is a weak one if whatever is between two values in the order is comparable to
one of them. -/
theorem isStrictWeakOn_iff {α : Type} {r : α → α → Bool} {P : α → Prop} (hirrefl : ∀ a, ¬ r a a)
    (htrans : ∀ a b c, r a b → r b c → r a c) :
  IsStrictWeakOn r P ↔ ∀ a b c, P a → P b → P c → r a c → r a b ∨ r b c
  := by
  constructor
  · intro h a b c ha hb hc hac
    by_contra! hnot
    -- Neither `b` and `a` nor `c` and `b` are in the order, since `a` and `c` are.
    have hba : ¬ r b a := fun hba => hnot.2 (htrans b a c hba hac)
    have hcb : ¬ r c b := fun hcb => hnot.1 (htrans a c b hac hcb)
    exact (h.incomparable a b c ha hb hc ⟨hnot.1, hba⟩ ⟨hnot.2, hcb⟩).1 hac
  · intro h
    refine ⟨hirrefl, htrans, fun a b c ha hb hc hab hbc => ⟨fun hac => ?_, fun hca => ?_⟩⟩
    · obtain hr | hr := h a b c ha hb hc hac
      · exact hab.1 hr
      · exact hbc.1 hr
    · obtain hr | hr := h c b a hc hb ha hca
      · exact hbc.2 hr
      · exact hab.2 hr

/-- Where the lane is: before its check, waiting for `asyncActionsCondition`, waiting with a
notification pending, or with an item it took. -/
inductive Phase
  | awake
  | waiting
  | notified
  | holding
  deriving DecidableEq

structure AsyncLane where
  asyncActions : ℕ := 0
  inflightAsyncActions : ℕ := 0
  phase : Phase := .awake

inductive LaneEvent
  | submit
  | wake
  | check
  | start
  | reject
  | complete

/-- What happens to the lane under `asyncActionsMutex`. -/
def AsyncLane.step (maxAsyncConcurrency : ℕ) (s : AsyncLane) : LaneEvent → Option AsyncLane
  | .submit => some { s with
      asyncActions := s.asyncActions + 1
      phase := if s.phase = .waiting then .notified else s.phase }
  | .wake =>
    if s.phase = .waiting ∨ s.phase = .notified then some { s with phase := .awake } else none
  | .check =>
    if s.phase ≠ .awake then none
    else if s.asyncActions = 0
        ∨ maxAsyncConcurrency > 0 ∧ s.inflightAsyncActions ≥ maxAsyncConcurrency then
      some { s with phase := .waiting }
    else some { s with asyncActions := s.asyncActions - 1, phase := .holding }
  | .start =>
    if s.phase ≠ .holding then none
    else some { s with inflightAsyncActions := s.inflightAsyncActions + 1, phase := .awake }
  | .reject => if s.phase ≠ .holding then none else some { s with phase := .awake }
  -- The condition that is notified is the one of the local lanes.
  | .complete =>
    if s.inflightAsyncActions = 0 then none
    else some { s with inflightAsyncActions := s.inflightAsyncActions - 1 }

/-- The subtasks submitted and not finished. -/
def AsyncLane.unfinished (s : AsyncLane) : ℕ :=
  s.asyncActions + s.inflightAsyncActions + if s.phase = .holding then 1 else 0

/-- The states reached by submissions in states `P`. -/
inductive Reached (max : ℕ) (P : AsyncLane → Prop) : AsyncLane → Prop
  | init : Reached max P {}
  | step {s s' : AsyncLane} (event : LaneEvent) (h : Reached max P s)
      (hsubmit : event = .submit → P s) (hstep : s.step max event = some s') : Reached max P s'

/-- The lane does not sleep while it could take an item. -/
def AsyncLane.NotLost (max : ℕ) (s : AsyncLane) : Prop :=
  0 < s.asyncActions → max = 0 ∨ s.inflightAsyncActions < max → s.phase ≠ .waiting

theorem Reached.inflight_le {max : ℕ} {P : AsyncLane → Prop} {s : AsyncLane}
    (h : Reached max P s) (hmax : 0 < max) :
  s.inflightAsyncActions + (if s.phase = .holding then 1 else 0) ≤ max
  := by
  induction h with
  | init => exact hmax.le
  | step event h hsubmit hstep ih =>
    cases event <;> simp only [AsyncLane.step] at hstep <;> grind

/-- With no more unfinished subtasks than may be in flight, the lane waits for the queue only. -/
theorem Reached.waiting {max : ℕ} {s : AsyncLane}
    (h : Reached max (fun s => max = 0 ∨ s.unfinished < max) s) :
  (max = 0 ∨ s.unfinished ≤ max) ∧ (s.phase = .waiting → s.asyncActions = 0)
  := by
  induction h with
  | init => exact ⟨.inr (Nat.zero_le _), nofun⟩
  | step event h hsubmit hstep ih =>
    cases event <;> simp only [AsyncLane.step] at hstep <;> grind [AsyncLane.unfinished]

/-- There are never more subtasks in flight than allowed.  No wakeup is lost if there is no
maximum, or if at each submission fewer than the maximum are unfinished. -/
theorem async_lane_not_lost (max : ℕ) :
  (∀ s, Reached max (fun _ => True) s → 0 < max → s.inflightAsyncActions ≤ max)
    ∧ ∀ s, Reached max (fun s => max = 0 ∨ s.unfinished < max) s → s.NotLost max
  := by
  constructor
  · intro s h hmax
    exact Nat.le_of_add_right_le (h.inflight_le hmax)
  · intro s h hqueued _ hphase
    have hempty := h.waiting.2 hphase
    omega

/-- A subtask is submitted while the lane waits. -/
theorem async_lane_not_lost_one :
  ∃ s : AsyncLane, 0 < s.asyncActions ∧ s.inflightAsyncActions ≤ 1 ∧ s.NotLost 1
  := by
  have h : Reached 1 (fun s => 1 = 0 ∨ s.unfinished < 1) {} := .init
  have h := h.step .check nofun rfl
  have h := h.step .submit (fun _ => by decide) rfl
  exact ⟨_, by decide, by decide, (async_lane_not_lost 1).2 _ h⟩

/-- Two subtasks are submitted where one may be in flight, and the first completes while the
lane waits: the second stays in the queue. -/
theorem completion_does_not_wake_lane :
  ∃ s, Reached 1 (fun _ => True) s ∧ ¬ s.NotLost 1
  := by
  refine ⟨⟨1, 0, .waiting⟩, ?_, by simp [AsyncLane.NotLost]⟩
  have h : Reached 1 (fun _ => True) {} := .init
  have h := h.step .submit (fun _ => trivial) rfl
  have h := h.step .submit (fun _ => trivial) rfl
  have h := h.step .check (fun _ => trivial) rfl
  have h := h.step .start (fun _ => trivial) rfl
  have h := h.step .check (fun _ => trivial) rfl
  exact h.step .complete (fun _ => trivial) rfl

/-! ### The states of a pending action -/

inductive IState
  | idle
  | preparing
  | queued
  | running
  | incompatible

structure PendingItem where
  localState : IState := .idle
  remoteState : IState := .idle

/-- The check of the platform properties in `internalSubmit`. -/
def localCompatible (defaultArchitectures : List String) (defaultPlatform : String)
    (properties : List (String × String)) : Bool :=
  properties.length ≤ 2 && properties.all fun prop =>
    if prop.1 = "__arch__" then defaultArchitectures.contains prop.2
    else prop.1 = "__platform__" && prop.2 = defaultPlatform

def internalSubmit (compatible : Bool) : PendingItem :=
  { localState := if compatible then .idle else .incompatible }

/-- `exec` is `none` where there is no executable to run remotely, and else says if it is cached. -/
inductive PendingEvent
  | prepareForExecution (exec : Option Bool)
  | prepared (ok : Bool)
  | remoteActionDispatched (ok : Bool)
  | completeAction

/-- What happens to the item; `none` when it is removed. -/
def PendingItem.step (compatible : Bool) (item : PendingItem) : PendingEvent → Option PendingItem
  | .prepareForExecution exec =>
    if compatible then some { item with localState := .queued }
    -- Remote preparation writes the local state.
    else exec.map fun cached =>
      { item with localState := if cached then .queued else .preparing }
  | .prepared ok => if ok then some { item with localState := .queued } else none
  | .remoteActionDispatched ok => if ok then some { item with remoteState := .running } else none
  | .completeAction => none

/-- An executable to run remotely is found. -/
def PendingEvent.found : PendingEvent → Bool
  | .prepareForExecution exec => exec.isSome
  | .prepared ok => ok
  | _ => false

section Events

variable {compatible : Bool} {item next : PendingItem}

theorem PendingItem.step_eq {event : PendingEvent} (h : item.step compatible event = some next) :
  (next.remoteState = item.remoteState ∨ next.remoteState = .running)
    ∧ (¬ compatible → ¬ event.found → next.localState = item.localState)
  := by
  rcases event with (_ | cached) | ok | ok | _ <;>
    grind [PendingItem.step, PendingEvent.found]

theorem PendingItem.step_of_found (hc : ¬ compatible) {event : PendingEvent} (h : event.found) :
  ∃ t, item.step compatible event = some t ∧ t.localState ≠ .incompatible
  := by
  cases event with
  | prepareForExecution exec =>
    obtain ⟨cached, rfl⟩ := Option.isSome_iff_exists.mp h
    refine ⟨{ item with localState := if cached then .queued else .preparing }, ?_, ?_⟩
    · simp [step, hc]
    · cases cached <;> simp
  | prepared ok =>
    refine ⟨{ item with localState := .queued }, ?_, by simp⟩
    exact if_pos h
  | _ => cases h

theorem PendingItem.run_eq {events : List PendingEvent}
    (h : events.foldlM (PendingItem.step compatible) item = some next) :
  next.remoteState = item.remoteState ∨ next.remoteState = .running
  := by
  induction events generalizing item with
  | nil => grind
  | cons event events ih =>
    obtain ⟨mid, hstep, hrun⟩ := Option.bind_eq_some_iff.mp h
    grind [step_eq hstep, ih hrun]

end Events

/-- The remote state moves only forward.  The local state of an incompatible action stays so in
all states of the action exactly if no executable to run it remotely is found while it is
pending. -/
theorem incompatible_iff_not_found (architectures : List String) (platform : String)
    (properties : List (String × String)) (events : List PendingEvent) :
  let compatible := localCompatible architectures platform properties
  let run (events : List PendingEvent) :=
    events.foldlM (PendingItem.step compatible) (internalSubmit compatible)
  (∀ s ∈ run events, ∀ event, ∀ t ∈ s.step compatible event,
      s.remoteState.ctorIdx ≤ t.remoteState.ctorIdx)
    ∧ (¬ compatible → ((∀ past, past <+: events → ∀ s ∈ run past, s.localState = .incompatible)
      ↔ ∀ past event, past ++ [event] <+: events → (run past).isSome → ¬ event.found))
  := by
  intro compatible run
  constructor
  · intro s hs event t ht
    have hidle : s.remoteState = .idle ∨ s.remoteState = .running :=
      PendingItem.run_eq hs
    grind [(PendingItem.step_eq ht).1, IState.ctorIdx]
  · intro hc
    have hrun (past : List PendingEvent) (event : PendingEvent) :
        run (past ++ [event]) = (run past).bind (PendingItem.step compatible · event) := by
      simp [run, List.foldlM_append]
    constructor
    · intro h past event hpast hsome hfound
      obtain ⟨s, hs⟩ := Option.isSome_iff_exists.mp hsome
      obtain ⟨t, ht, hlocal⟩ := s.step_of_found hc hfound
      apply hlocal
      apply h (past ++ [event]) hpast
      rw [hrun, hs]
      exact ht
    · intro h past hpast s hs
      induction past using List.reverseRecOn generalizing s with
      | nil =>
        cases hs
        simp [internalSubmit, hc]
      | append_singleton past event ih =>
        rw [hrun] at hs
        obtain ⟨t, ht, hstep⟩ := Option.bind_eq_some_iff.mp hs
        have hnot := h past event hpast (by simp [ht])
        rw [(PendingItem.step_eq hstep).2 hc hnot]
        apply ih (List.prefix_append past [event] |>.trans hpast) t ht

/-- The executable is cached: the action is queued, as if for local execution. -/
theorem incompatible_becomes_queued :
  localCompatible ["x86_64"] "linux" [("__arch__", "arm64")] = false
    ∧ ([.prepareForExecution (some true)].foldlM (PendingItem.step false)
        (internalSubmit false)).map PendingItem.localState = some .queued
  := by
  constructor
  · decide
  · rfl

end LLBuild3.ActionExecutor

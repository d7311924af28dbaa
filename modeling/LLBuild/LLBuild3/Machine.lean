import LLBuild.LLBuild3.Engine

/-!
# Runs of the llbuild3 engine

The state of a machine is that of the engine and, for each task whose step is being
computed or looked up, the arguments of the step.  An event is one section of the engine's
code that is executed under its locks; the sections of different tasks interleave freely.
What the code of a task requests and how its step ends is up to the events.

`Meets` says that the sections of a run meet a condition, each in the state it is executed
in.
-/

namespace LLBuild3

open Option

/-- A step of a task: its arguments, and whether it is looked up in the cache. -/
structure Call where
  cached : Bool
  ctx : TaskContext
  inputs : List TaskInput
  sres : SubtaskResults
deriving DecidableEq

structure Machine where
  engine : EngineImpl := {}
  /-- The steps in progress. -/
  running : Table ℕ Call := ∅

/-- A section of the engine's code. -/
inductive Event where
  /-- A build is requested, with a root task. -/
  | build (buildID : ℕ) (task : Task)
  /-- A lane takes up a step of a task. -/
  | take (T : ℕ) (call : Call)
  | resolveRule (T : ℕ) (isRule : Bool) (label : Label)
  | constructTask (T : ℕ) (rule : Rule) (label : Label)
  | register (T : ℕ) (isRule : Bool) (label : Label) (id : ℕ)
  | beginAction (T : ℕ)
  | recordAction (T workID : ℕ) (action : Action)
  | dropAction (T workID : ℕ)
  | beginSubtask (T : ℕ)
  | recordSubtask (T workID : ℕ)
  | dropSubtask (T workID : ℕ)
  /-- The step was not found in the cache, or could not be replayed. -/
  | miss (T : ℕ)
  /-- The transition that was computed is stored. -/
  | store (T : ℕ) (next : TaskNextState)
  /-- The step ends. -/
  | next (T : ℕ) (next : TaskNextState)
  /-- The tasks waiting on a task are told that it is done. -/
  | finished (X : ℕ)
  | actionComplete (workID : ℕ) (result : Outcome ActionResult)
  | subtaskComplete (workID : ℕ) (result : SubtaskResult)

namespace Event

/-- The task in whose step the section is executed. -/
def actor : Event → Option ℕ
  | take T _ | resolveRule T _ _ | constructTask T _ _ | register T _ _ _
  | beginAction T | recordAction T _ _ | dropAction T _
  | beginSubtask T | recordSubtask T _ | dropSubtask T _
  | miss T | store T _ | next T _ => some T
  | build _ _ | finished _ | actionComplete _ _ | subtaskComplete _ _ => none

end Event

namespace Machine

open EngineImpl

variable (w : Wire)

/-- The job for a step of a task. -/
def job (T : ℕ) (call : Call) : Job :=
  .transition call.cached T call.ctx call.inputs call.sres

/-- Execute a section, if it is the turn of one. -/
def step (m : Machine) : Event → Option Machine
  | .build buildID task => some { m with engine := (m.engine.insertTask buildID task).2 }
  | .take T call =>
      if job T call ∈ m.engine.readyJobs then
        some { engine := { m.engine with readyJobs := m.engine.readyJobs.erase (job T call) }
               running := m.running.insert T call }
      else none
  | .resolveRule T isRule label =>
      if T ∈ m.running then some { m with engine := (m.engine.resolveRule isRule label).2 }
      else none
  | .constructTask T rule label =>
      if T ∈ m.running then
        some { m with engine := (m.engine.constructTask (m.engine.minBuild T) rule label).2 }
      else none
  | .register T isRule label id =>
      if T ∈ m.running ∧ id ∈ m.engine.taskInfos then
        some { m with engine := (m.engine.register w T isRule label id).2 }
      else none
  | .beginAction T =>
      if T ∈ m.running then some { m with engine := (m.engine.beginAction T).2 } else none
  | .recordAction T workID action =>
      if T ∈ m.running ∧ m.engine.actionTaskMap.lookup workID = some T then
        some { m with engine := (m.engine.recordAction w T workID action).2 }
      else none
  | .dropAction T workID =>
      if T ∈ m.running ∧ m.engine.actionTaskMap.lookup workID = some T then
        some { m with engine := m.engine.dropAction workID }
      else none
  | .beginSubtask T =>
      if T ∈ m.running then some { m with engine := (m.engine.beginSubtask T).2 } else none
  | .recordSubtask T workID =>
      if T ∈ m.running ∧ m.engine.subtaskTaskMap.lookup workID = some T then
        some { m with engine := (m.engine.recordSubtask w T workID).2 }
      else none
  | .dropSubtask T workID =>
      if T ∈ m.running ∧ m.engine.subtaskTaskMap.lookup workID = some T then
        some { m with engine := m.engine.dropSubtask workID }
      else none
  | .miss T =>
      match m.running.lookup T with
      | some call =>
          if call.cached then
            some { engine := m.engine.enqueueReadyTask T call.ctx call.inputs call.sres
                   running := m.running.erase T }
          else none
      | none => none
  | .store T next =>
      match m.running.lookup T, m.engine.taskInfos.lookup T with
      | some call, some ti =>
          if call.cached then none
          else some { m with engine := m.engine.updateTaskCache w ti call.ctx call.inputs next }
      | _, _ => none
  | .next T next =>
      if T ∈ m.running then
        some { engine := m.engine.processTaskNextState T next, running := m.running.erase T }
      else none
  | .finished X =>
      if .finished X ∈ m.engine.readyJobs then
        some { m with engine :=
          notifyFinished { m.engine with readyJobs := m.engine.readyJobs.erase (.finished X) } X }
      else none
  | .actionComplete workID result =>
      some { m with engine := m.engine.notifyActionComplete workID result }
  | .subtaskComplete workID result =>
      some { m with engine := m.engine.notifySubtaskComplete workID result }

/-- Execute sections one after the other. -/
def run (m : Machine) : List Event → Option Machine
  | [] => some m
  | ev :: events => (m.step w ev).bind (fun m => m.run events)

theorem run_append (m : Machine) (events events' : List Event) :
  m.run w (events ++ events') = (m.run w events).bind (·.run w events')
  := by
  induction events generalizing m with
  | nil => rfl
  | cons ev events ih =>
    rw [List.cons_append, run, run]
    cases m.step w ev with
    | none => rfl
    | some m => exact ih m

variable {m m' : Machine}

/-- A guarded section that is carried out has changed the engine and nothing else. -/
theorem eq_of_guard {c : Prop} [Decidable c] {e : EngineImpl}
    (h : (if c then some ({ m with engine := e } : Machine) else none) = some m') :
  m' = { m with engine := e }
  := by
  obtain ⟨-, heq⟩ := ite_none_right_eq_some.mp h
  exact (some.inj heq).symm

/-- A property kept by every section holds after a run. -/
theorem run_induction
    {P : Machine → Prop} {events : List Event}
    (hstep : ∀ m m' ev, ev ∈ events → P m → m.step w ev = some m' → P m')
    (hm : P m) (hrun : m.run w events = some m') :
  P m'
  := by
  induction events generalizing m with
  | nil =>
    cases hrun
    exact hm
  | cons ev events ih =>
    obtain ⟨m₁, hm₁, hrun⟩ := bind_eq_some_iff.mp hrun
    exact ih (fun m m' ev' hev' => hstep m m' ev' (.tail _ hev'))
      (hstep m m₁ ev List.mem_cons_self hm hm₁) hrun

/-! ### Conditions on a run -/

/-- The machine of an engine that was just made, with any rules, rule providers, database
and cache. -/
structure Fresh (m : Machine) : Prop where
  running : m.running = ∅
  taskInfos : m.engine.taskInfos = ∅
  actionTaskMap : m.engine.actionTaskMap = ∅
  subtaskTaskMap : m.engine.subtaskTaskMap = ∅
  taskNameMap : m.engine.taskNameMap = {}
  taskArtifactMap : m.engine.taskArtifactMap = {}
  readyJobs : m.engine.readyJobs = []
  threw : m.engine.threw = []

/-- The sections meet a condition, each in the state it is executed in. -/
def Meets (w : Wire) (C : Machine → Event → Prop) : Machine → List Event → Prop
  | _, [] => True
  | m, ev :: events => C m ev ∧ ∀ m' ∈ m.step w ev, Meets w C m' events

instance decidableMeets
    (w : Wire) (C : Machine → Event → Prop) [∀ m ev, Decidable (C m ev)] :
    ∀ m events, Decidable (Meets w C m events)
  | _, [] => inferInstanceAs (Decidable True)
  | m, ev :: events =>
      have : DecidablePred (Meets w C · events) :=
        fun m' => decidableMeets w C m' events
      inferInstanceAs (Decidable (C m ev ∧ ∀ m' ∈ m.step w ev, Meets w C m' events))

theorem Meets.append
    {w : Wire} {C : Machine → Event → Prop} {events events' : List Event}
    (h : m.Meets w C (events ++ events')) (hrun : m.run w events = some m') :
  m.Meets w C events ∧ m'.Meets w C events'
  := by
  induction events generalizing m with
  | nil =>
    cases hrun
    exact ⟨trivial, h⟩
  | cons ev events ih =>
    obtain ⟨hC, hrest⟩ := h
    obtain ⟨m₁, hm₁, hrun⟩ := bind_eq_some_iff.mp hrun
    have h' := ih (hrest m₁ hm₁) hrun
    refine ⟨⟨hC, ?_⟩, h'.2⟩
    intro m₂ hm₂
    obtain rfl := some.inj (hm₁.symm.trans hm₂)
    exact h'.1

/-- A property kept by every section that meets the condition holds after a run. -/
theorem Meets.induction
    {w : Wire} {C : Machine → Event → Prop} {P : Machine → Prop}
    {events : List Event} (h : m.Meets w C events)
    (hstep : ∀ m m' ev, ev ∈ events → P m → C m ev → m.step w ev = some m' → P m')
    (hm : P m) (hrun : m.run w events = some m') :
  P m'
  := by
  induction events generalizing m with
  | nil =>
    cases hrun
    exact hm
  | cons ev events ih =>
    obtain ⟨m₁, hm₁, hrun⟩ := bind_eq_some_iff.mp hrun
    exact ih (h.2 m₁ hm₁) (fun m m' ev' hev' => hstep m m' ev' (.tail _ hev'))
      (hstep m m₁ ev List.mem_cons_self hm h.1 hm₁) hrun

end Machine

end LLBuild3

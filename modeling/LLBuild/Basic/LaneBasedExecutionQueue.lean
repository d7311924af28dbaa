import Mathlib.Data.Nat.Bitwise

/-!
# The lanes of an execution queue

`LaneBasedExecutionQueue` computes from the limit of open files how many lanes it has and how
many processes that were released from their lanes may run in the background.  A lane that
wants to release a process adds one to a counter first and looks at the previous value; where
it is too large it takes the one back and waits for the process itself.

The numbers fit the limit, and never do more processes run in the background than there may
(`LaneBasedExecutionQueue.background_le`).
-/

namespace LLBuild.LaneBasedExecutionQueue

/-- The difference of two numbers of 32 bits. -/
def sub (a b : ℕ) : ℕ := (a + 2 ^ 32 - b) % 2 ^ 32

/-- Input and output, the database, logging, spawning, and some more. -/
def reservedFileCount : ℕ := 3 + 2 + 1 + 2 + 2

/-- The numbers of lanes and of background tasks; `setting` is the number in
`LLBUILD_BACKGROUND_TASK_MAX`, if there is one. -/
def estimateTaskLimits (curOpenFileLimit numLanes : ℕ) (setting : Option ℕ) : ℕ × ℕ :=
  if curOpenFileLimit < reservedFileCount then (1, 0)
  else
    let allowedFilesForTasks := sub (min curOpenFileLimit (2 ^ 31 - 1)) reservedFileCount
    let maxConcurrentTasks := allowedFilesForTasks / 2
    if numLanes > maxConcurrentTasks then (max 1 maxConcurrentTasks, 0)
    else
      let extraTasksMax := sub maxConcurrentTasks numLanes
      let backgroundTaskMax := setting.getD (min 1024 (numLanes * 64 % 2 ^ 32))
      (numLanes, min backgroundTaskMax extraTasksMax)

variable {numLanes lanes background : ℕ}

theorem estimateTaskLimits_spec {curOpenFileLimit : ℕ} {setting : Option ℕ} (hlanes : 1 ≤ numLanes)
    (hlimits : estimateTaskLimits curOpenFileLimit numLanes setting = (lanes, background)) :
  1 ≤ lanes ∧ lanes + background < 2 ^ 31 ∧ (2 + reservedFileCount ≤ curOpenFileLimit →
    2 * (lanes + background) + reservedFileCount ≤ curOpenFileLimit)
  := by
  have hreserved : reservedFileCount = 10 := rfl
  simp only [estimateTaskLimits] at hlimits
  split_ifs at hlimits
  all_goals obtain ⟨rfl, rfl⟩ := Prod.mk.inj hlimits
  · omega
  all_goals
    simp only [sub] at *
    omega

/-- Where the lanes and the processes released from them are.  A lane is `granted` or `refused`
by the value it got from the counter until it acts on that; a process released has `finished`
until its thread has counted it off. -/
structure State where
  free : ℕ
  granted : ℕ := 0
  refused : ℕ := 0
  waiting : ℕ := 0
  background : ℕ := 0
  finished : ℕ := 0
  backgroundTaskCount : ℕ := 0
deriving DecidableEq

inductive Event where
  | fetchAdd
  | launch
  | countOff
  | waited
  | exit
  | countDown

variable (backgroundTaskMax : ℕ)

/-- One step of a lane or of a background thread. -/
def step (s : State) : Event → Option State
  | .fetchAdd =>
      if s.free = 0 then none
      else
        let counted := { s with
          free := s.free - 1, backgroundTaskCount := (s.backgroundTaskCount + 1) % 2 ^ 32 }
        some (if s.backgroundTaskCount < backgroundTaskMax
          then { counted with granted := s.granted + 1 }
          else { counted with refused := s.refused + 1 })
  | .launch =>
      if s.granted = 0 then none
      else some { s with
        granted := s.granted - 1, background := s.background + 1, free := s.free + 1 }
  | .countOff =>
      if s.refused = 0 then none
      else some { s with
        refused := s.refused - 1, waiting := s.waiting + 1
        backgroundTaskCount := sub s.backgroundTaskCount 1 }
  | .waited =>
      if s.waiting = 0 then none
      else some { s with waiting := s.waiting - 1, free := s.free + 1 }
  | .exit =>
      if s.background = 0 then none
      else some { s with background := s.background - 1, finished := s.finished + 1 }
  | .countDown =>
      if s.finished = 0 then none
      else some { s with
        finished := s.finished - 1, backgroundTaskCount := sub s.backgroundTaskCount 1 }

def run (s : State) (events : List Event) : Option State :=
  events.foldlM (step backgroundTaskMax) s

/-- The counter has all that were let in and those that were refused, and it let in no more
than there may be. -/
structure Inv (lanes background : ℕ) (s : State) : Prop where
  lanes_eq : s.free + s.granted + s.refused + s.waiting = lanes
  count_eq : s.backgroundTaskCount = s.granted + s.refused + s.background + s.finished
  le : s.granted + s.background + s.finished ≤ background

theorem Inv.step {s s' : State} {event : Event} (h : Inv lanes background s)
    (hfits : lanes + background < 2 ^ 31)
    (hstep : LaneBasedExecutionQueue.step background s event = some s') :
  Inv lanes background s'
  := by
  obtain ⟨hlanes, hcount, hle⟩ := h
  cases event with
  | fetchAdd =>
    obtain ⟨hfree, ⟨⟩⟩ := Option.ite_none_left_eq_some.mp hstep
    split_ifs <;> constructor <;> dsimp only <;> omega
  | launch | countOff | waited | exit | countDown =>
    obtain ⟨hne, ⟨⟩⟩ := Option.ite_none_left_eq_some.mp hstep
    constructor <;> simp only [sub] <;> omega

theorem Inv.run {s s' : State} {events : List Event} (h : Inv lanes background s)
    (hfits : lanes + background < 2 ^ 31)
    (hrun : LaneBasedExecutionQueue.run background s events = some s') :
  Inv lanes background s'
  := by
  induction events generalizing s with
  | nil =>
    obtain rfl := Option.some.inj hrun
    exact h
  | cons event events ih =>
    obtain ⟨s₁, hstep, hrun⟩ := Option.bind_eq_some_iff.mp hrun
    exact ih (h.step hfits hstep) hrun

/-- Whatever the limit and the setting, the numbers of lanes and background tasks fit the
limit, and in no interleaving do more processes than that run in the background. -/
theorem background_le (curOpenFileLimit : ℕ) (setting : Option ℕ) (hlanes : 1 ≤ numLanes)
    (hlimits : estimateTaskLimits curOpenFileLimit numLanes setting = (lanes, background)) :
  1 ≤ lanes
    ∧ (2 + reservedFileCount ≤ curOpenFileLimit →
      2 * (lanes + background) + reservedFileCount ≤ curOpenFileLimit)
    ∧ ∀ events s, run background { free := lanes } events = some s → s.background ≤ background
  := by
  obtain ⟨hone, hsum, hfits⟩ := estimateTaskLimits_spec hlanes hlimits
  refine ⟨hone, hfits, fun events s hrun => ?_⟩
  have hinv : Inv lanes background { free := lanes } := by constructor <;> simp
  have hle := (hinv.run hsum hrun).le
  omega

/-- One lane and room for one background task: the second process is refused while the first
one runs. -/
theorem background_le_one :
  estimateTaskLimits 14 1 none = (1, 1)
    ∧ (run 1 { free := 1 } [.fetchAdd, .launch, .fetchAdd]).map State.refused = some 1
    ∧ ∀ events s, run 1 { free := 1 } events = some s → s.background ≤ 1
  := by
  have hlimits : estimateTaskLimits 14 1 none = (1, 1) := by decide
  exact ⟨hlimits, by decide, (background_le 14 none (Nat.le_refl 1) hlimits).2.2⟩

end LLBuild.LaneBasedExecutionQueue

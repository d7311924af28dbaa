import Mathlib.Data.List.Count
import Mathlib.Logic.Function.Basic

/-!
# The ledger of a build

The ledger keeps for every rule the stage it is in, how many of the requests of its task
are unanswered and how often its task was created and was told that its inputs are
available, next to the queues of the tasks that are ready and of the tasks that have
reported.  In a balanced ledger a task waits for as many inputs as it has unanswered
requests, it is in the queue of the ready tasks once, and only if it waits for nothing, and
in the queue of the finished tasks once, and only if it has reported.
-/

namespace LLBuild

open Function

/-- The stage of a rule in a build: its task is not created yet, or it is waiting for a
number of inputs, or computing, or the rule is complete. -/
inductive Stage where
  | idle
  | waiting (waitCount : ℕ) (reported : Bool)
  | computing (reported : Bool)
  | complete
  deriving DecidableEq

namespace Stage

/-- The number of inputs that are waited for. -/
@[grind]
def waitCount : Stage → ℕ
  | waiting n _ => n
  | _ => 0

/-- The task is waiting for inputs. -/
@[grind]
def isWaiting : Stage → Bool
  | waiting _ _ => true
  | _ => false

/-- The task is computing. -/
def isComputing : Stage → Bool
  | computing _ => true
  | _ => false

/-- The task was created. -/
@[grind]
def isInProgress : Stage → Bool
  | waiting _ _ => true
  | computing _ => true
  | _ => false

theorem isWaiting_of_waitCount {s : Stage} (h : s.waitCount ≠ 0) :
  s.isWaiting = true
  := by
  cases s with
  | waiting n b => rfl
  | _ => exact absurd rfl h

end Stage

/-! ### The ledger -/

/-- What a build keeps about its tasks. -/
@[ext]
structure Ledger (Key : Type) where
  stage : Key → Stage
  /-- The number of rules whose task is computing. -/
  computing : ℕ
  outstanding : ℕ
  /-- The number of unanswered requests of the task of a rule. -/
  unanswered : Key → ℕ
  ready : List Key
  finished : List Key
  /-- The rule whose task is being started. -/
  starting : Option Key
  /-- The rule whose task is being answered. -/
  answering : Option Key
  /-- The rules whose tasks have made a call that is not carried out yet. -/
  callers : List Key
  /-- How often the task of a rule was created. -/
  created : Key → ℕ
  /-- How often the task of a rule was told that its inputs are available. -/
  available : Key → ℕ

namespace Ledger

variable {Key : Type} [DecidableEq Key]

/-- The moves of the ledger. -/
inductive Move : Ledger Key → Ledger Key → Prop
  | upToDate (l : Ledger Key) (k : Key) (h : l.stage k = .idle) :
      Move l { l with stage := update l.stage k .complete }
  | create (l : Ledger Key) (k : Key) (h : l.stage k = .idle) (hs : l.starting = none)
      (ha : l.answering = none) (hc : l.callers = []) :
      Move l { l with
        stage := update l.stage k (.waiting 0 false)
        starting := some k
        created := update l.created k (l.created k + 1) }
  | start (l : Ledger Key) (k : Key) (callers : List Key) (hs : l.starting = some k)
      (hc : l.callers = []) (hk : ∀ c ∈ callers, c = k) :
      Move l { l with callers := callers }
  | request (l : Ledger Key) (k : Key) (rest : List Key) (n : ℕ) (b : Bool)
      (hc : l.callers = k :: rest) (h : l.stage k = .waiting n b) :
      Move l { l with
        stage := update l.stage k (.waiting (n + 1) b)
        unanswered := update l.unanswered k (l.unanswered k + 1)
        callers := rest }
  | reject (l : Ledger Key) (k : Key) (rest : List Key) (hc : l.callers = k :: rest) :
      Move l { l with callers := rest }
  | started (l : Ledger Key) (k : Key) (n : ℕ) (b : Bool) (h : l.stage k = .waiting n b)
      (hs : l.starting = some k) (hc : l.callers = []) :
      Move l { l with
        ready := l.ready ++ (if n = 0 then [k] else [])
        starting := none }
  | answer (l : Ledger Key) (k : Key) (callers : List Key) (n : ℕ) (hs : l.starting = none)
      (ha : l.answering = none) (hc : l.callers = []) (h : l.unanswered k = n + 1)
      (hk : ∀ c ∈ callers, c = k) :
      Move l { l with
        unanswered := update l.unanswered k n
        answering := some k
        callers := callers }
  | decrement (l : Ledger Key) (k : Key) (n : ℕ) (b : Bool) (ha : l.answering = some k)
      (hc : l.callers = []) (h : l.stage k = .waiting n b) :
      Move l { l with
        stage := update l.stage k (.waiting (n - 1) b)
        ready := l.ready ++ (if n - 1 = 0 then [k] else [])
        answering := none }
  | compute (l : Ledger Key) (k : Key) (rest callers : List Key) (n : ℕ) (b : Bool)
      (hr : l.ready = k :: rest) (hc : l.callers = []) (h : l.stage k = .waiting n b)
      (hk : ∀ c ∈ callers, c = k) :
      Move l { l with
        stage := update l.stage k (.computing b)
        computing := l.computing + 1
        outstanding := l.outstanding + 1
        ready := rest
        callers := callers
        available := update l.available k (l.available k + 1) }
  | report (l : Ledger Key) (k : Key) (h : l.stage k = .computing false) :
      Move l { l with
        stage := update l.stage k (.computing true)
        finished := k :: l.finished }
  | complete (l : Ledger Key) (k : Key) (rest : List Key) (b : Bool)
      (hk : l.finished = k :: rest) (h : l.stage k = .computing b) :
      Move l { l with
        stage := update l.stage k .complete
        computing := l.computing - 1
        outstanding := l.outstanding - 1
        finished := rest }

variable {l l' : Ledger Key}

theorem Move.congr {l'' : Ledger Key} (h : Move l l') (heq : l'' = l') :
  Move l l''
  := heq ▸ h

/-- The ledger is balanced. -/
structure Balanced (l : Ledger Key) : Prop where
  waitCount : ∀ k, (l.stage k).waitCount
    = l.unanswered k + if l.answering = some k then 1 else 0
  reported : ∀ k n b, l.stage k = .waiting n b → b = false
  outstanding : l.outstanding = l.computing
  ready : ∀ k, l.ready.count k
    = if (l.stage k).isWaiting ∧ (l.stage k).waitCount = 0 ∧ l.starting ≠ some k then 1 else 0
  finished : ∀ k, l.finished.count k = if l.stage k = .computing true then 1 else 0
  starting : ∀ k, l.starting = some k → (l.stage k).isWaiting
  exclusive : l.starting = none ∨ l.answering = none
  callers : ∀ k ∈ l.callers,
    l.starting = some k ∨ l.answering = some k ∨ (l.stage k).isWaiting = false
  available : ∀ k, l.available k + (if (l.stage k).isWaiting then 1 else 0) = l.created k
  created : ∀ k, l.created k ≤ 1
  idle : ∀ k, l.stage k = .idle → l.created k = 0
  inProgress : ∀ k, (l.stage k).isInProgress → l.created k = 1

theorem Balanced.isWaiting_of_answering (hb : l.Balanced) (k : Key) (h : l.answering = some k) :
  (l.stage k).isWaiting = true
  := by
  have hw := hb.waitCount k
  rw [if_pos h] at hw
  exact Stage.isWaiting_of_waitCount (by omega)

theorem Balanced.isWaiting_of_ready (hb : l.Balanced) (k : Key) (h : k ∈ l.ready) :
  (l.stage k).isWaiting = true
  := by
  have hr := hb.ready k
  have hpos := List.count_pos_iff.mpr h
  by_contra hn
  rw [if_neg (hn ·.1)] at hr
  omega

theorem Balanced.isComputing_of_finished (hb : l.Balanced) (k : Key) (h : k ∈ l.finished) :
  (l.stage k).isComputing = true
  := by
  have hf := hb.finished k
  have hpos := List.count_pos_iff.mpr h
  by_cases hs : l.stage k = .computing true
  · rw [hs]
    rfl
  · rw [if_neg hs] at hf
    omega

/-! ### The account of a rule -/

/-- What the ledger says about one rule. -/
structure Account where
  stage : Stage
  unanswered : ℕ
  ready : ℕ
  finished : ℕ
  starting : Bool
  answering : Bool
  calling : Bool
  created : ℕ
  available : ℕ

/-- The account of a rule. -/
def account (l : Ledger Key) (k : Key) : Account where
  stage := l.stage k
  unanswered := l.unanswered k
  ready := l.ready.count k
  finished := l.finished.count k
  starting := l.starting = some k
  answering := l.answering = some k
  calling := k ∈ l.callers
  created := l.created k
  available := l.available k

/-- The account of a rule is balanced. -/
structure Account.Balanced (a : Account) : Prop where
  waitCount : a.stage.waitCount = a.unanswered + if a.answering then 1 else 0
  reported : ∀ n b, a.stage = .waiting n b → b = false
  ready : a.ready
    = if a.stage.isWaiting ∧ a.stage.waitCount = 0 ∧ a.starting = false then 1 else 0
  finished : a.finished = if a.stage = .computing true then 1 else 0
  starting : a.starting = true → a.stage.isWaiting
  calling : a.calling = true →
    a.starting = true ∨ a.answering = true ∨ a.stage.isWaiting = false
  available : a.available + (if a.stage.isWaiting then 1 else 0) = a.created
  created : a.created ≤ 1
  idle : a.stage = .idle → a.created = 0
  inProgress : a.stage.isInProgress → a.created = 1

/-- In a balanced ledger the account of every rule is balanced. -/
theorem Balanced.account (hb : l.Balanced) (k : Key) :
  (l.account k).Balanced
  where
  waitCount := by simpa [Ledger.account] using hb.waitCount k
  reported := hb.reported k
  ready := by simpa [Ledger.account] using hb.ready k
  finished := hb.finished k
  starting := by simpa [Ledger.account] using hb.starting k
  calling := by simpa [Ledger.account] using hb.callers k
  available := hb.available k
  created := hb.created k
  idle := hb.idle k
  inProgress := hb.inProgress k

/-- A ledger is balanced if the account of every rule is. -/
theorem Balanced.of_account (houtstanding : l.outstanding = l.computing)
    (hexclusive : l.starting = none ∨ l.answering = none) (h : ∀ k, (l.account k).Balanced) :
  l.Balanced
  where
  waitCount k := by simpa [Ledger.account] using (h k).waitCount
  reported k := (h k).reported
  outstanding := houtstanding
  ready k := by simpa [Ledger.account] using (h k).ready
  finished k := (h k).finished
  starting k := by simpa [Ledger.account] using (h k).starting
  exclusive := hexclusive
  callers k := by simpa [Ledger.account] using (h k).calling
  available k := (h k).available
  created k := (h k).created
  idle k := (h k).idle
  inProgress k := (h k).inProgress

/-- A ledger that differs from a balanced one in the account of one rule is balanced if that
account is. -/
theorem Balanced.of_eq_off (hb : l.Balanced) (k : Key)
    (houtstanding : l'.outstanding = l'.computing)
    (hexclusive : l'.starting = none ∨ l'.answering = none)
    (hrest : ∀ k', k' ≠ k → l'.account k' = l.account k') (hk : (l'.account k).Balanced) :
  l'.Balanced
  := by
  apply Balanced.of_account houtstanding hexclusive
  intro k'
  by_cases h : k' = k
  · rw [h]
    apply hk
  · rw [hrest k' h]
    apply hb.account

/-- A move is about one rule: the accounts of the others stay as they are, and its own stays
balanced. -/
theorem Move.exists_account (h : Move l l') :
  ∃ k, (∀ k', k' ≠ k → l'.account k' = l.account k')
    ∧ (l.Balanced → (l'.account k).Balanced)
  := by
  have hcallers {k k' : Key} {callers : List Key} (hk' : k' ≠ k) (h : ∀ c ∈ callers, c = k) :
      k' ∉ callers := fun hmem => hk' (h k' hmem)
  have hready {k k' : Key} (hk' : k' ≠ k) (n : ℕ) : (if n = 0 then [k] else []).count k' = 0 := by
    split_ifs <;> simp [Ne.symm hk']
  cases h with
  | upToDate k h | report k h =>
    refine ⟨k, fun k' hk' => by simp [account, hk', Ne.symm hk'], fun hb => ?_⟩
    cases hb.account k
    simp only [account] at *
    constructor <;> grind -ring -linarith
  | create k h hs ha hc =>
    refine ⟨k, fun k' hk' => by simp [account, hk', Ne.symm hk', hs], fun hb => ?_⟩
    cases hb.account k
    simp only [account, ha] at *
    constructor <;> grind -ring -linarith
  | start k callers hs hc hc' =>
    refine ⟨k, fun k' hk' => by simp [account, hc, hcallers hk' hc'], fun hb => ?_⟩
    cases hb.account k
    simp only [account, hc] at *
    constructor <;> grind -ring -linarith
  | request k rest n b hc h | reject k rest hc =>
    refine ⟨k, fun k' hk' => by simp [account, hk', hc], fun hb => ?_⟩
    cases hb.account k
    simp only [account] at *
    constructor <;> grind -ring -linarith
  | started k n b h hs hc =>
    refine ⟨k, fun k' hk' => by simp [account, Ne.symm hk', hs, hready hk'], fun hb => ?_⟩
    cases hb.account k
    simp only [account, h, hs, hc] at *
    constructor <;> grind -ring -linarith
  | answer k callers n hs ha hc h hc' =>
    refine ⟨k, fun k' hk' => ?_, fun hb => ?_⟩
    · simp [account, hk', Ne.symm hk', ha, hc, hcallers hk' hc']
    · cases hb.account k
      simp only [account, ha, hc, h, update_self] at *
      constructor <;> grind -ring -linarith
  | decrement k n b ha hc h =>
    refine ⟨k, fun k' hk' => by simp [account, hk', Ne.symm hk', ha, hready hk'], fun hb => ?_⟩
    have hs : l.starting = none := by
      simpa [ha] using hb.exclusive
    cases hb.account k
    simp only [account, hs, ha, hc, h, update_self] at *
    constructor <;> grind -ring -linarith
  | compute k rest callers n b hr hc h hc' =>
    refine ⟨k, fun k' hk' => ?_, fun hb => ?_⟩
    · simp [account, hk', Ne.symm hk', hr, hc, hcallers hk' hc']
    · cases hb.account k
      simp only [account, hr, hc, h, update_self] at *
      constructor <;> grind -ring -linarith
  | complete k rest b hf h =>
    refine ⟨k, fun k' hk' => by simp [account, hk', Ne.symm hk', hf], fun hb => ?_⟩
    cases hb.account k
    simp only [account, hf, h, update_self] at *
    constructor <;> grind -ring -linarith

theorem Balanced.move (hb : l.Balanced) (h : Move l l') :
  l'.Balanced
  := by
  have houtstanding := hb.outstanding
  have hexclusive := hb.exclusive
  obtain ⟨k, hrest, hk⟩ := h.exists_account
  apply hb.of_eq_off k
  · cases h <;> simp only [houtstanding]
  · cases h <;> grind -ring -linarith
  · apply hrest
  · apply hk hb

theorem Move.stage_complete (h : Move l l') {k : Key} (hk : l.stage k = .complete) :
  l'.stage k = .complete
  := by
  cases h <;> grind

/-- A rule whose task is waiting goes on waiting until its task is taken from the queue of
the ready tasks. -/
theorem Move.isWaiting (h : Move l l') {k : Key}
    (hk : (l.stage k).isWaiting = true) (hready : l.ready.length ≤ l'.ready.length) :
  (l'.stage k).isWaiting = true
  := by
  cases h <;> grind [Stage.isWaiting]

/-- A rule whose task has not reported, and that is not complete, was neither before. -/
theorem Move.stage_before (h : Move l l') {k : Key}
    (hc : l'.stage k ≠ .complete) (hr : l'.stage k ≠ .computing true) :
  l.stage k ≠ .complete ∧ l.stage k ≠ .computing true
  := by
  cases h <;> grind

end Ledger

end LLBuild

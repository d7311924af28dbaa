import LLBuild.Core.Rule
import Mathlib.Algebra.Group.Nat.Defs
import Mathlib.Data.List.Perm.Basic

/-!
# The progress in the status line

The thread of the engine counts the commands that are scanned, up to date, updated without being
run, and completed.  A status line for a command reads the four counters one after the other on
another thread, and divides by the number of commands that may be run.

Each update of the counters that the engine makes for a command is a sequence of atomic steps.
Once these are done the counters say how many commands there are in each state
(`Invariant.settled`).  A reader that comes in between, or that reads some counters before an
update and some after it, may find that no command is to be run at all.
-/

namespace LLBuild.Ninja

open Option

open UInt32

open List

/-! ### The counters -/

structure Counters where
  numCommandsScanning : UInt32 := 0
  numCommandsUpToDate : UInt32 := 0
  numCommandsCompleted : UInt32 := 0
  numCommandsUpdated : UInt32 := 0
  deriving DecidableEq

/-- An atomic update of a counter. -/
inductive CounterUpdate
  | incScanning
  | decScanning
  | incUpToDate
  | incCompleted
  | incUpdated
  deriving DecidableEq

namespace Counters

def update (counters : Counters) : CounterUpdate → Counters
  | .incScanning => { counters with numCommandsScanning := counters.numCommandsScanning + 1 }
  | .decScanning => { counters with numCommandsScanning := counters.numCommandsScanning - 1 }
  | .incUpToDate => { counters with numCommandsUpToDate := counters.numCommandsUpToDate + 1 }
  | .incCompleted => { counters with numCommandsCompleted := counters.numCommandsCompleted + 1 }
  | .incUpdated => { counters with numCommandsUpdated := counters.numCommandsUpdated + 1 }

/-- The updates for a report of the engine about a command that is not a phony one. -/
def updateCommandStatus : StatusKind → List CounterUpdate
  | .isScanning => [.incScanning]
  | .isUpToDate => [.decScanning, .incUpToDate, .incCompleted]
  | .isComplete => [.decScanning, .incCompleted]

/-- The number of commands that may be run, from the counters as they were read. -/
def getNumPossibleMaxCommands (numCommandsCompleted numCommandsScanning numCommandsUpToDate
    numCommandsUpdated : UInt32) : UInt32 :=
  let totalPossibleMaxCommands := numCommandsCompleted + numCommandsScanning
  totalPossibleMaxCommands - (numCommandsUpToDate + numCommandsUpdated)

end Counters

/-! ### The engine -/

/-- What has become of a command since it began to be scanned. -/
inductive CommandProgress
  /-- It is not known yet whether the command is up to date. -/
  | scanning
  /-- The command is run, or skipped. -/
  | running
  /-- The command is updated without being run. -/
  | updating
  | upToDate
  | ran
  | updated
  deriving DecidableEq

namespace CommandProgress

/-! The counters a command is counted in. -/

def isScanning : CommandProgress → Bool
  | scanning | running | updating => true
  | _ => false

def isUpToDate : CommandProgress → Bool
  | upToDate => true
  | _ => false

def isCompleted : CommandProgress → Bool
  | upToDate | ran | updated => true
  | _ => false

def isUpdated : CommandProgress → Bool
  | updating | updated => true
  | _ => false

/-- The command may be run, or was. -/
def mayRun : CommandProgress → Bool
  | scanning | running | ran => true
  | _ => false

/-- A description of the command may be written: the command is run, and may be complete when the
description is written at last. -/
def isDescribed : CommandProgress → Bool
  | running | ran => true
  | _ => false

end CommandProgress

/-- The thread of the engine: the commands that it has reported, the counters, and what is left
of the update that it is making. -/
structure EngineThread where
  commands : List CommandProgress := []
  counters : Counters := {}
  pending : List CounterUpdate := []

/-- A step of the thread of the engine.  All but the last one begin an update. -/
inductive EngineAction
  /-- A command begins to be scanned. -/
  | scan
  /-- A command is found to be up to date. -/
  | upToDate (index : ℕ)
  /-- The task of a command has the command run, or skips it. -/
  | run (index : ℕ)
  /-- The task of a command updates it without running it. -/
  | update (index : ℕ)
  /-- The task of a command is complete. -/
  | complete (index : ℕ)
  /-- The next counter is updated. -/
  | count
  deriving DecidableEq

namespace EngineThread

variable (s : EngineThread)

/-- A command comes from one state to another one, and the counters are to be updated. -/
def move (index : ℕ) (before after : CommandProgress)
    (updates : List CounterUpdate) : Option EngineThread :=
  if s.pending = [] ∧ s.commands[index]? = some before then
    some { s with commands := s.commands.set index after, pending := updates }
  else none

def act : EngineAction → Option EngineThread
  | .scan =>
      if s.pending = [] then
        some { s with
          commands := s.commands ++ [.scanning]
          pending := Counters.updateCommandStatus .isScanning }
      else none
  | .upToDate index =>
      s.move index .scanning .upToDate (Counters.updateCommandStatus .isUpToDate)
  | .run index => s.move index .scanning .running []
  | .update index => s.move index .scanning .updating [.incUpdated]
  | .complete index =>
      (s.move index .running .ran (Counters.updateCommandStatus .isComplete)).or
        (s.move index .updating .updated (Counters.updateCommandStatus .isComplete))
  | .count =>
      match s.pending with
      | [] => none
      | update :: pending =>
          some { s with counters := s.counters.update update, pending := pending }

/-- Some steps, one after the other. -/
def acts (actions : List EngineAction) : Option EngineThread :=
  actions.foldlM act s

end EngineThread

/-! ### What the counters say -/

namespace Counters

instance : Add Counters where
  add c d := {
    numCommandsScanning := c.numCommandsScanning + d.numCommandsScanning
    numCommandsUpToDate := c.numCommandsUpToDate + d.numCommandsUpToDate
    numCommandsCompleted := c.numCommandsCompleted + d.numCommandsCompleted
    numCommandsUpdated := c.numCommandsUpdated + d.numCommandsUpdated }

theorem add_def (c d : Counters) :
  c + d = ⟨c.numCommandsScanning + d.numCommandsScanning,
    c.numCommandsUpToDate + d.numCommandsUpToDate,
    c.numCommandsCompleted + d.numCommandsCompleted,
    c.numCommandsUpdated + d.numCommandsUpdated⟩
  := rfl

theorem update_add (c d : Counters) (u : CounterUpdate) :
  (c + d).update u = c.update u + d
  := by
  cases u <;> simp only [add_def, update, mk.injEq] <;> grind

open CommandProgress

theorem foldl_update_add (c d : Counters) (updates : List CounterUpdate) :
  updates.foldl update (c + d) = updates.foldl update c + d
  := by
  induction updates generalizing c with
  | nil => rfl
  | cons u updates ih => rw [foldl_cons, foldl_cons, update_add, ih]

/-- The counters for some commands. -/
def ofCommands (commands : List CommandProgress) : Counters where
  numCommandsScanning := .ofNat (commands.countP isScanning)
  numCommandsUpToDate := .ofNat (commands.countP isUpToDate)
  numCommandsCompleted := .ofNat (commands.countP isCompleted)
  numCommandsUpdated := .ofNat (commands.countP isUpdated)

theorem ofCommands_append (commands others : List CommandProgress) :
  ofCommands (commands ++ others) = ofCommands commands + ofCommands others
  := by
  simp only [ofCommands, add_def, countP_append, ofNat_add]

theorem ofCommands_perm {commands others : List CommandProgress} (h : commands.Perm others) :
  ofCommands commands = ofCommands others
  := by
  simp only [ofCommands, h.countP_eq]

/-- Updates that are right for one command are right for it among others. -/
theorem foldl_update_ofCommands
    {before after : List CommandProgress} {updates : List CounterUpdate}
    (h : updates.foldl update (ofCommands before) = ofCommands after)
    {commands changed others : List CommandProgress} (hbefore : commands.Perm (before ++ others))
    (hafter : changed.Perm (after ++ others)) :
  updates.foldl update (ofCommands commands) = ofCommands changed
  := by
  rw [ofCommands_perm hbefore, ofCommands_perm hafter, ofCommands_append, ofCommands_append,
    foldl_update_add, h]

end Counters

open Counters

namespace EngineThread

/-- The counters are right when the update that the thread is making is done, and a command that
begins to be scanned is there before it is counted. -/
structure Invariant (s : EngineThread) : Prop where
  settled : s.pending.foldl update s.counters = ofCommands s.commands
  scanning : .incScanning ∈ s.pending → .scanning ∈ s.commands

theorem invariant_initial : Invariant {} where
  settled := rfl
  scanning h := by cases h

variable {s t : EngineThread}

theorem Invariant.counters_eq (h : s.Invariant) (hpending : s.pending = []) :
  s.counters = ofCommands s.commands
  := by
  have hsettled := h.settled
  rwa [hpending] at hsettled

theorem move_eq_some
    {index : ℕ} {before after : CommandProgress} {updates : List CounterUpdate}
    (h : s.move index before after updates = some t) :
  s.pending = [] ∧ s.commands[index]? = some before
    ∧ t = { s with commands := s.commands.set index after, pending := updates }
  := by
  rw [move] at h
  split_ifs at h with hmove
  exact ⟨hmove.1, hmove.2, (some.inj h).symm⟩

/-- A command may change if the updates are right for it. -/
theorem Invariant.move
    (h : s.Invariant) {index : ℕ} {before after : CommandProgress} {updates : List CounterUpdate}
    (hupdates : updates.foldl update (.ofCommands [before]) = .ofCommands [after])
    (hscanning : .incScanning ∉ updates) (hmove : s.move index before after updates = some t) :
  t.Invariant
  := by
  obtain ⟨hpending, hbefore, rfl⟩ := move_eq_some hmove
  obtain ⟨hindex, hget⟩ := List.getElem?_eq_some_iff.mp hbefore
  refine ⟨?_, fun hmem => absurd hmem hscanning⟩
  rw [h.counters_eq hpending]
  apply foldl_update_ofCommands hupdates
  · rw [← hget]
    exact (List.getElem_cons_eraseIdx_perm hindex).symm
  · exact List.set_perm_cons_eraseIdx hindex after

theorem Invariant.act (h : s.Invariant) {action : EngineAction} (hact : s.act action = some t) :
  t.Invariant
  := by
  cases action with
  | scan =>
    rw [EngineThread.act] at hact
    split_ifs at hact with hpending
    cases hact
    refine ⟨?_, fun _ => mem_append_right _ mem_cons_self⟩
    have hscan : (updateCommandStatus .isScanning).foldl update
        (.ofCommands []) = .ofCommands [.scanning] := rfl
    rw [h.counters_eq hpending]
    exact foldl_update_ofCommands hscan (.refl _) perm_append_comm
  | upToDate index | run index | update index => exact h.move rfl (by decide) hact
  | complete index =>
    rw [EngineThread.act, or_eq_some_iff] at hact
    obtain hact | ⟨-, hact⟩ := hact
    · exact h.move rfl (by decide) hact
    · exact h.move rfl (by decide) hact
  | count =>
    rw [EngineThread.act] at hact
    cases hpending : s.pending with
    | nil =>
      rw [hpending] at hact
      cases hact
    | cons update pending =>
      rw [hpending] at hact
      cases hact
      have hsettled := h.settled
      rw [hpending] at hsettled
      refine ⟨hsettled, fun hmem => h.scanning ?_⟩
      rw [hpending]
      exact .tail _ hmem

theorem Invariant.acts
    (h : s.Invariant) {actions : List EngineAction} (hacts : s.acts actions = some t) :
  t.Invariant
  := by
  induction actions generalizing s with
  | nil =>
    obtain rfl : s = t := some.inj hacts
    exact h
  | cons action actions ih =>
    obtain ⟨next, hact, hacts⟩ := bind_eq_some_iff.mp hacts
    exact ih (h.act hact) hacts

/-! ### The status line -/

/-- Some command is described. -/
def Describes (s : EngineThread) : Prop := ∃ p ∈ s.commands, p.isDescribed = true

/-- No update is under way but that for a command that begins to be scanned. -/
def IsQuiet (s : EngineThread) : Prop := s.pending = [] ∨ s.pending = [.incScanning]

end EngineThread

/-- The step neither finishes a command nor finds it to be up to date. -/
def EngineAction.isQuiet : EngineAction → Bool
  | .scan | .run _ | .count => true
  | _ => false

namespace EngineThread

variable {s t : EngineThread}

/-- What stays the same while the thread is quiet: three of the counters, and that a command is
described. -/
structure KeepsQuiet (s t : EngineThread) : Prop where
  isQuiet : t.IsQuiet
  describes : s.Describes → t.Describes
  upToDate : t.counters.numCommandsUpToDate = s.counters.numCommandsUpToDate
  completed : t.counters.numCommandsCompleted = s.counters.numCommandsCompleted
  updated : t.counters.numCommandsUpdated = s.counters.numCommandsUpdated

theorem KeepsQuiet.act
    (hquiet : s.IsQuiet) {action : EngineAction} (haction : action.isQuiet = true)
    (hact : s.act action = some t) :
  KeepsQuiet s t
  := by
  cases action with
  | scan =>
    rw [EngineThread.act] at hact
    split_ifs at hact
    cases hact
    refine ⟨Or.inr rfl, ?_, rfl, rfl, rfl⟩
    rintro ⟨p, hp, hdescribed⟩
    exact ⟨p, List.mem_append_left _ hp, hdescribed⟩
  | run index =>
    obtain ⟨hpending, hbefore, rfl⟩ := move_eq_some hact
    obtain ⟨hindex, -⟩ := List.getElem?_eq_some_iff.mp hbefore
    refine ⟨Or.inl rfl, fun _ => ⟨.running, ?_, rfl⟩, rfl, rfl, rfl⟩
    exact List.mem_set hindex _
  | count =>
    rw [EngineThread.act] at hact
    obtain hpending | hpending := hquiet
    · rw [hpending] at hact
      cases hact
    · rw [hpending] at hact
      cases hact
      exact ⟨Or.inl rfl, id, rfl, rfl, rfl⟩
  | _ => cases haction

theorem KeepsQuiet.acts
    (hquiet : s.IsQuiet) {actions : List EngineAction}
    (hactions : ∀ action ∈ actions, action.isQuiet = true) (hacts : s.acts actions = some t) :
  KeepsQuiet s t
  := by
  induction actions generalizing s with
  | nil =>
    obtain rfl : s = t := some.inj hacts
    exact ⟨hquiet, id, rfl, rfl, rfl⟩
  | cons action actions ih =>
    obtain ⟨haction, hactions⟩ := forall_mem_cons.mp hactions
    obtain ⟨next, hact, hacts⟩ := bind_eq_some_iff.mp hacts
    have hfirst := KeepsQuiet.act hquiet haction hact
    have hrest := ih hfirst.isQuiet hactions hacts
    refine ⟨hrest.isQuiet, hrest.describes ∘ hfirst.describes, ?_, ?_, ?_⟩
    · exact hrest.upToDate.trans hfirst.upToDate
    · exact hrest.completed.trans hfirst.completed
    · exact hrest.updated.trans hfirst.updated

variable (commands : List CommandProgress)

/-- The commands that are counted are those that may be run, and those that are counted as up to
date or updated. -/
theorem countP_mayRun :
  commands.countP CommandProgress.isCompleted + commands.countP CommandProgress.isScanning
    = commands.countP CommandProgress.isUpToDate + commands.countP CommandProgress.isUpdated
      + commands.countP CommandProgress.mayRun
  := by
  induction commands with
  | nil => rfl
  | cons p commands ih =>
    simp only [countP_cons]
    cases p <;> simp [CommandProgress.isCompleted, CommandProgress.isScanning,
      CommandProgress.isUpToDate, CommandProgress.isUpdated, CommandProgress.mayRun] <;> omega

theorem countP_isDescribed :
  commands.countP CommandProgress.mayRun
    = commands.countP CommandProgress.isDescribed + commands.countP (· = .scanning)
  := by
  induction commands with
  | nil => rfl
  | cons p commands ih =>
    simp only [countP_cons]
    cases p <;> simp [CommandProgress.isDescribed, CommandProgress.mayRun] <;> omega

/-- The number of commands that may be run, from counters that are right. -/
theorem getNumPossibleMaxCommands_ofCommands :
  getNumPossibleMaxCommands (.ofNat (commands.countP CommandProgress.isCompleted))
      (.ofNat (commands.countP CommandProgress.isScanning))
      (.ofNat (commands.countP CommandProgress.isUpToDate))
      (.ofNat (commands.countP CommandProgress.isUpdated))
    = .ofNat (commands.countP CommandProgress.mayRun)
  := by
  have hcount := congrArg ofNat (countP_mayRun commands)
  simp only [ofNat_add] at hcount
  rw [getNumPossibleMaxCommands]
  grind

theorem ofNat_pos {n : ℕ} (hpos : 0 < n) (hsize : n < 2 ^ 32) :
  0 < ofNat n
  := by
  rw [lt_iff_toNat_lt, toNat_ofNat_of_lt' hsize]
  exact hpos

/-- A thread that is quiet says that a command may be run, if one is described. -/
theorem Invariant.getNumPossibleMaxCommands_pos
    (h : s.Invariant) (hquiet : s.IsQuiet) (hdescribes : s.Describes)
    (hsize : s.commands.length < 2 ^ 32) :
  0 < Counters.getNumPossibleMaxCommands s.counters.numCommandsCompleted
    s.counters.numCommandsScanning s.counters.numCommandsUpToDate s.counters.numCommandsUpdated
  := by
  have hvalue := getNumPossibleMaxCommands_ofCommands s.commands
  have hdescribed : 0 < s.commands.countP CommandProgress.isDescribed :=
    countP_pos_iff.mpr hdescribes
  have hcount := countP_isDescribed s.commands
  have hle : s.commands.countP CommandProgress.mayRun ≤ s.commands.length :=
    countP_le_length
  obtain hpending | hpending := hquiet
  · rw [h.counters_eq hpending]
    apply hvalue.symm ▸ ofNat_pos (by omega) (by omega)
  · -- The command that begins to be scanned is not counted yet, and is not the described one.
    have hscanning : 0 < s.commands.countP (· = .scanning) := by
      apply countP_pos_iff.mpr
      refine ⟨.scanning, h.scanning ?_, decide_eq_true rfl⟩
      rw [hpending]
      exact .head _
    obtain ⟨n, hn⟩ : ∃ n, s.commands.countP CommandProgress.mayRun = n + 1 :=
      Nat.exists_eq_add_one.mpr (by omega)
    have hsettled := h.settled
    rw [hpending] at hsettled
    obtain ⟨hscan, hupToDate, hcompleted, hupdated⟩ := Counters.mk.inj hsettled
    rw [hn, ofNat_add, Counters.getNumPossibleMaxCommands] at hvalue
    rw [Counters.getNumPossibleMaxCommands]
    have heq : s.counters.numCommandsCompleted + s.counters.numCommandsScanning
        - (s.counters.numCommandsUpToDate + s.counters.numCommandsUpdated) = ofNat n := by
      grind
    rw [heq]
    apply ofNat_pos (by omega) (by omega)

/-- The state is reached while the thread is quiet. -/
def QuietlyReaches (s t : EngineThread) : Prop :=
  ∃ actions : List EngineAction, (∀ action ∈ actions, action.isQuiet = true)
    ∧ s.acts actions = some t

theorem QuietlyReaches.keepsQuiet (hquiet : s.IsQuiet) (h : s.QuietlyReaches t) :
  KeepsQuiet s t
  := by
  obtain ⟨actions, hactions, hacts⟩ := h
  exact .acts hquiet hactions hacts

/-- A status line that is written while the thread is quiet, from the first read of a counter to
the last, and in whatever order the counters are read, finds that a command may be run. -/
theorem getNumPossibleMaxCommands_of_quietlyReaches
    {actions : List EngineAction} {s : EngineThread} (hacts : acts {} actions = some s)
    (hquiet : s.IsQuiet) (hdescribes : s.Describes)
    {completed scanning upToDate updated : EngineThread} (hcompleted : s.QuietlyReaches completed)
    (hscanning : s.QuietlyReaches scanning) (hupToDate : s.QuietlyReaches upToDate)
    (hupdated : s.QuietlyReaches updated) (hsize : scanning.commands.length < 2 ^ 32) :
  0 < getNumPossibleMaxCommands completed.counters.numCommandsCompleted
    scanning.counters.numCommandsScanning upToDate.counters.numCommandsUpToDate
    updated.counters.numCommandsUpdated
  := by
  have hkeeps := hscanning.keepsQuiet hquiet
  have hinvariant : scanning.Invariant := by
    obtain ⟨quiet, -, hscan⟩ := hscanning
    exact (invariant_initial.acts hacts).acts hscan
  rw [(hcompleted.keepsQuiet hquiet).completed, (hupToDate.keepsQuiet hquiet).upToDate,
    (hupdated.keepsQuiet hquiet).updated, ← hkeeps.completed, ← hkeeps.upToDate,
    ← hkeeps.updated]
  exact hinvariant.getNumPossibleMaxCommands_pos hkeeps.isQuiet (hkeeps.describes hdescribes) hsize

/-- A command that is run. -/
def oneRunning : EngineThread where
  commands := [.running]
  counters := { numCommandsScanning := 1 }

/-- Another command has begun to be scanned. -/
def oneScanning : EngineThread where
  commands := [.running, .scanning]
  counters := { numCommandsScanning := 2 }

/-- A command begins to be scanned between the reads of the first two counters. -/
theorem getNumPossibleMaxCommands_of_quietlyReaches_scan :
  acts {} [.scan, .count, .run 0] = some oneRunning
    ∧ acts oneRunning [.scan, .count] = some oneScanning
    ∧ 0 < getNumPossibleMaxCommands oneRunning.counters.numCommandsCompleted
      oneScanning.counters.numCommandsScanning oneScanning.counters.numCommandsUpToDate
      oneScanning.counters.numCommandsUpdated
  := by
  have hrunning : acts {} [.scan, .count, .run 0] = some oneRunning := rfl
  have hscanning : oneRunning.QuietlyReaches oneScanning := ⟨[.scan, .count], by decide, rfl⟩
  refine ⟨hrunning, rfl, ?_⟩
  apply getNumPossibleMaxCommands_of_quietlyReaches hrunning (Or.inl rfl)
    ⟨_, mem_cons_self, rfl⟩ ⟨[], forall_mem_nil _, rfl⟩ hscanning hscanning hscanning
  decide

/-- The counters are read when the only command has just been taken from those that are scanned
and is still to be counted as completed. -/
theorem getNumPossibleMaxCommands_torn :
  (acts {} [.scan, .count, .run 0, .complete 0, .count]).map (fun s =>
      (s.commands, getNumPossibleMaxCommands s.counters.numCommandsCompleted
        s.counters.numCommandsScanning s.counters.numCommandsUpToDate
        s.counters.numCommandsUpdated))
    = some ([.ran], 0)
  := by
  decide

end EngineThread

end LLBuild.Ninja

import LLBuild.Basic.BinaryCoding
import Mathlib.Data.List.Induction

/-!
# Builders of descriptions

A builder records at every node the commands that produce it, and every command has a list of
its outputs.  The two are written in different places: the producers before the command has a
look at its outputs, and before it is known whether the command becomes a part of the
description.
-/

namespace LLBuild.BuildSystem

open Function

open BinaryCoding

/-- What a command does with the outputs it is configured with. -/
inductive OutputsPolicy
  /-- An external command. -/
  | all
  /-- A symlink command, which has exactly one output. -/
  | single
  /-- A command without outputs. -/
  | ignore

/-- `configureOutputs`: the outputs a command takes. -/
def OutputsPolicy.configureOutputs : OutputsPolicy → List Bytes → List Bytes
  | all, value => value
  | single, [node] => [node]
  | _, _ => []

/-- A builder of a description.  Commands are known by their addresses. -/
structure DescriptionBuilder where
  producers : Bytes → List ℕ := fun _ => []
  outputs : ℕ → List Bytes := fun _ => []
  commands : Bytes → Option ℕ := fun _ => none

namespace DescriptionBuilder

/-- The calls that concern commands and their outputs. -/
inductive Call
  | configureCommandOutputs (command : ℕ) (outputs : List Bytes)
  | addCommand (name : Bytes) (command : ℕ)

variable (policy : ℕ → OutputsPolicy)

variable (b : DescriptionBuilder)

/-- A call.  A command that is added under a name that is taken replaces the other one, which
is destroyed. -/
def call : Call → DescriptionBuilder
  | .configureCommandOutputs c outputs =>
    { b with
      producers := fun n => b.producers n ++ (outputs.filter (· = n)).map fun _ => c
      outputs := update b.outputs c
        (b.outputs c ++ (policy c).configureOutputs outputs) }
  | .addCommand name c => { b with commands := update b.commands name (some c) }

/-- The builder after some calls. -/
def run (calls : List Call) : DescriptionBuilder :=
  calls.foldl (call policy) {}

/-- `addOutput`, for an output that the ownership analysis finds. -/
def addOutput (found : ℕ × Bytes) : DescriptionBuilder :=
  { b with
    producers := update b.producers found.2 (b.producers found.2 ++ [found.1])
    outputs := update b.outputs found.1 (b.outputs found.1 ++ [found.2]) }

/-- An ownership analysis: it finds a conflict, or further outputs of some of the commands. -/
structure OwnershipAnalysis where
  find : DescriptionBuilder → Option (List (ℕ × Bytes))
  isOwner : ∀ b pairs, find b = some pairs → ∀ found ∈ pairs, ∃ name, b.commands name = some found.1

/-- The description, if the ownership analysis finds no conflict.  Without an analysis nothing
is found. -/
def finalize (analysis : OwnershipAnalysis) (b : DescriptionBuilder) : Option DescriptionBuilder :=
  (analysis.find b).map (·.foldl addOutput b)

/-- A command is a producer of its outputs, and only of them. -/
def IsInverse : Prop := ∀ c n, c ∈ b.producers n ↔ n ∈ b.outputs c

/-- Every command is added, no two under one name, and takes all of its outputs. -/
structure Call.AreRegular (policy : ℕ → OutputsPolicy) (calls : List Call) : Prop where
  added : ∀ c outputs, configureCommandOutputs c outputs ∈ calls →
    ∃ name, addCommand name c ∈ calls
  named : ∀ name c c', addCommand name c ∈ calls → addCommand name c' ∈ calls → c = c'
  taken : ∀ c outputs, configureCommandOutputs c outputs ∈ calls →
    (policy c).configureOutputs outputs = outputs

variable {policy : ℕ → OutputsPolicy}

theorem run_concat (calls : List Call) (last : Call) :
  run policy (calls ++ [last]) = call policy (run policy calls) last
  := by
  rw [run, List.foldl_append]
  rfl

variable {calls : List Call}

/-- The commands of the builder are the ones that were added. -/
theorem commands_run
    (h : ∀ name c c', .addCommand name c ∈ calls → .addCommand name c' ∈ calls → c = c')
    (name : Bytes) (c : ℕ) :
  (run policy calls).commands name = some c ↔ .addCommand name c ∈ calls
  := by
  induction calls using List.reverseRecOn with
  | nil => simp [run]
  | append_singleton calls last ih =>
    have ih := ih fun name c c' hc hc' => h name c c' (by simp [hc]) (by simp [hc'])
    rw [run_concat]
    cases last with
    | configureCommandOutputs _ _ => simpa [call] using ih
    | addCommand name' c' =>
      by_cases hname : name = name'
      · simp only [call]
        grind
      · simpa [call, hname] using ih

/-- If the commands take all of their outputs, they are producers of their outputs, with which
they were configured. -/
theorem isInverse_run
    (h : ∀ c outputs, .configureCommandOutputs c outputs ∈ calls →
      (policy c).configureOutputs outputs = outputs) :
  (run policy calls).IsInverse ∧ ∀ c n, n ∈ (run policy calls).outputs c →
    ∃ outputs, .configureCommandOutputs c outputs ∈ calls
  := by
  induction calls using List.reverseRecOn with
  | nil => simp [run, IsInverse]
  | append_singleton calls last ih =>
    obtain ⟨ih, ih'⟩ := ih fun c outputs hc => h c outputs (by simp [hc])
    rw [run_concat]
    cases last with
    | configureCommandOutputs c outputs =>
      have htaken := h c outputs (by simp)
      constructor
      · intro c' n
        have hc' := ih c' n
        by_cases hc : c' = c
        · subst hc
          simp [call, htaken, hc']
        · simp only [call]
          grind
      · intro c' n
        simp only [call]
        grind
    | addCommand name c => exact ⟨ih, fun c' n hn => by simpa using ih' c' n hn⟩

/-- What the ownership analysis finds is recorded on both sides. -/
theorem isInverse_foldl_addOutput (pairs : List (ℕ × Bytes)) {b : DescriptionBuilder}
    (h : b.IsInverse) :
  (pairs.foldl addOutput b).IsInverse ∧ (pairs.foldl addOutput b).commands = b.commands
    ∧ ∀ c n, n ∈ (pairs.foldl addOutput b).outputs c → n ∈ b.outputs c ∨ (c, n) ∈ pairs
  := by
  induction pairs generalizing b with
  | nil => exact ⟨h, rfl, fun c n hn => Or.inl hn⟩
  | cons found pairs ih =>
    have hfound : (b.addOutput found).IsInverse := by
      intro c n
      have hc := h c n
      simp only [addOutput]
      grind
    obtain ⟨hinverse, hcommands, houtputs⟩ := ih hfound
    refine ⟨hinverse, hcommands, fun c n hn => ?_⟩
    have hn := houtputs c n hn
    simp only [addOutput, update_apply] at hn
    grind

/-- In the description a command is a producer of a node exactly when it is a command of the
description and the node is an output of it. -/
theorem mem_producers_finalize_iff (h : Call.AreRegular policy calls)
    (analysis : OwnershipAnalysis) {d : DescriptionBuilder}
    (hd : (run policy calls).finalize analysis = some d) (c : ℕ) (n : Bytes) :
  c ∈ d.producers n ↔ (∃ name, d.commands name = some c) ∧ n ∈ d.outputs c
  := by
  obtain ⟨pairs, hpairs, rfl⟩ := Option.map_eq_some_iff.mp hd
  obtain ⟨hinverse, hconfigured⟩ := isInverse_run h.taken
  obtain ⟨hinverse, hcommands, houtputs⟩ := isInverse_foldl_addOutput pairs hinverse
  rw [hinverse, hcommands, iff_and_self]
  intro hn
  rcases houtputs c n hn with hn | hn
  · obtain ⟨outputs, hcall⟩ := hconfigured c n hn
    obtain ⟨name, hname⟩ := h.added c outputs hcall
    exact ⟨name, (commands_run h.named name c).mpr hname⟩
  · exact analysis.isOwner _ _ hpairs _ hn

/-- No ownership analysis. -/
def noAnalysis : OwnershipAnalysis := ⟨fun _ => some [], by simp⟩

theorem mem_producers_finalize_link :
  1 ∈ (run (fun _ => .single) [.configureCommandOutputs 1 [[110]], .addCommand [99] 1]).producers
    [110]
  := by
  have hregular : Call.AreRegular (fun _ => .single)
      [.configureCommandOutputs 1 [[110]], .addCommand [99] 1] := by
    constructor <;> simp +contextual [OutputsPolicy.configureOutputs]
  apply (mem_producers_finalize_iff hregular noAnalysis rfl 1 [110]).mpr
  exact ⟨⟨[99], rfl⟩, by decide⟩

/-- A command that another one of its name replaces stays a producer, and so does a symlink
command that refuses two outputs. -/
theorem mem_producers_of_irregular :
  (1 ∈ (run (fun _ => .all) [.configureCommandOutputs 1 [[110]], .addCommand [99] 1,
      .addCommand [99] 2]).producers [110]
    ∧ ¬ ∃ name, (run (fun _ => .all) [.configureCommandOutputs 1 [[110]], .addCommand [99] 1,
      .addCommand [99] 2]).commands name = some 1)
  ∧ 1 ∈ (run (fun _ => .single) [.configureCommandOutputs 1 [[110], [111]],
      .addCommand [99] 1]).producers [110]
    ∧ [110] ∉ (run (fun _ => .single) [.configureCommandOutputs 1 [[110], [111]],
      .addCommand [99] 1]).outputs 1
  := by
  refine ⟨⟨by decide, ?_⟩, by decide, by decide⟩
  rintro ⟨name, h⟩
  simp only [run, call, List.foldl] at h
  grind

end DescriptionBuilder

end LLBuild.BuildSystem

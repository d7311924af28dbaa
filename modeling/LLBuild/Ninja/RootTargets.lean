import LLBuild.Core.Rule
import LLBuild.Ninja.RuleKeys
import Mathlib.Data.Fintype.Fin

/-!
# The targets of a build

A build without named targets builds the default targets of the manifest, or else its root
targets: the outputs that are not an input of any command.  The task of a command requests the
inputs of the command, and so the build reaches the commands that have these as outputs.

In a graph of commands without cycles every command is below a root target, if it has one itself
or another command requests an output of it (`reaches_targetsToBuild_iff`).  A phony command may
list an output of its own as an input, and is not a cycle by that: its task leaves the input out.
But the outputs of such a command are inputs, so it needs another output, or another command that
has an output of it as an input.
-/

namespace LLBuild

open List

/-- The key of a request. -/
def TaskCall.key {Key : Type} : TaskCall Key → Key
  | request key _ => key
  | requestSingleUse key _ => key
  | mustFollow key => key

namespace Ninja.Manifest

open BinaryCoding

/-! ### Targets -/

/-- The nodes that are an input of a command. -/
def inputNodes (manifest : Manifest) : List Node :=
  manifest.commands.flatMap (fun command => command.inputs.map NodeInCommand.node)

/-- The paths of the outputs that are not an input. -/
def rootTargets (manifest : Manifest) : List Bytes :=
  manifest.commands.flatMap (fun command =>
    (command.outputs.filter (fun output => output ∉ manifest.inputNodes)).map Node.canonicalPath)

/-- The paths of the nodes to build, from the arguments of the build command.  The program ends
if an argument is not a node. -/
def targetsToBuild (normalizePath : Bytes → Option Bytes) (args : List Bytes)
    (manifest : Manifest) : Option (List Bytes) := do
  let named ← args.mapM (fun arg =>
    (manifest.findNode normalizePath arg).map Node.canonicalPath)
  return if !named.isEmpty then named
    else if !manifest.defaultTargets.isEmpty then
      manifest.defaultTargets.map Node.canonicalPath
    else manifest.rootTargets

/-! ### Requests -/

namespace Command

/-- The rule of the command is the phony rule. -/
def isPhony (command : Command) : Bool :=
  command.rule.name = ascii "phony" && command.rule.parameters.entries.isEmpty

def isImmediatelyCyclicInput (command : Command) (node : Node) : Bool :=
  command.outputs.any (fun output => node = output)

/-- The input is left out: the command is a phony one that has it as an output. -/
def skips (strict : Bool) (command : Command) (input : NodeInCommand) : Bool :=
  !strict && command.isPhony && command.isImmediatelyCyclicInput input.node

/-- The requests of the task of a command when it starts: the explicit and implicit inputs, by
their positions, and the order-only inputs. -/
def start (strict : Bool) (command : Command) : List (TaskCall Bytes) :=
  let numInputs := command.numExplicitInputs + command.numImplicitInputs
  (((command.inputs.take numInputs).zipIdx.filter (fun input => !command.skips strict input.1)).map
      (fun input => .request input.1.node.canonicalPath (UInt64.ofNat input.2)))
    ++ ((command.inputs.drop numInputs).filter (fun input => !command.skips strict input)).map
      (fun input => .mustFollow input.node.canonicalPath)

/-- The inputs that are not left out are requested. -/
theorem mem_start {strict : Bool} {command : Command} {path : Bytes} :
  path ∈ (command.start strict).map TaskCall.key
    ↔ ∃ input ∈ command.inputs, command.skips strict input = false
      ∧ input.node.canonicalPath = path
  := by
  obtain ⟨n, hn⟩ : ∃ n, n = command.numExplicitInputs + command.numImplicitInputs := ⟨_, rfl⟩
  have hinputs (input : NodeInCommand) :
      input ∈ command.inputs ↔ input ∈ command.inputs.take n ∨ input ∈ command.inputs.drop n := by
    rw [← mem_append, take_append_drop]
  rw [start, map_append, map_map, map_map, mem_append, ← hn]
  constructor
  · rintro (h | h)
    · obtain ⟨⟨input, i⟩, hmem, rfl⟩ := mem_map.mp h
      obtain ⟨hmem, hskips⟩ := mem_filter.mp hmem
      rw [Bool.not_eq_true'] at hskips
      exact ⟨input, (hinputs input).mpr (.inl (mem_of_getElem? (mem_zipIdx_iff_getElem?.mp hmem))),
        hskips, rfl⟩
    · obtain ⟨input, hmem, rfl⟩ := mem_map.mp h
      obtain ⟨hmem, hskips⟩ := mem_filter.mp hmem
      rw [Bool.not_eq_true'] at hskips
      exact ⟨input, (hinputs input).mpr (.inr hmem), hskips, rfl⟩
  · rintro ⟨input, hinput, hskips, rfl⟩
    have hnot : (!command.skips strict input) = true := by rw [hskips]; rfl
    obtain hinput | hinput := (hinputs input).mp hinput
    · left
      obtain ⟨i, hi⟩ := getElem?_of_mem hinput
      exact mem_map.mpr ⟨(input, i),
        mem_filter.mpr ⟨mem_zipIdx_iff_getElem?.mpr hi, hnot⟩, rfl⟩
    · right
      exact mem_map.mpr ⟨input, mem_filter.mpr ⟨hinput, hnot⟩, rfl⟩

end Command

/-! ### The graph of the commands -/

variable (manifest : Manifest)

/-- A command by its position. -/
def commandAt (i : Fin manifest.commands.length) : Command := manifest.commands.get i

/-- A command has an output of another command as an input, or one of its own and is not a phony
command. -/
def Uses (i j : Fin manifest.commands.length) : Prop :=
  (∃ input ∈ (manifest.commandAt i).inputs, input.node ∈ (manifest.commandAt j).outputs)
    ∧ ¬ (i = j ∧ (manifest.commandAt i).isPhony = true)

instance (i j : Fin manifest.commands.length) : Decidable (manifest.Uses i j) :=
  inferInstanceAs (Decidable (_ ∧ _))

/-- There is no cycle, except for phony commands with an output of their own as an input. -/
def IsAcyclic : Prop := ∀ i, ¬ Relation.TransGen manifest.Uses i i

/-- The command is reached from the targets by the requests of the tasks. -/
inductive Reaches (strict : Bool) (targets : List Bytes) : Fin manifest.commands.length → Prop
  | target {i : Fin manifest.commands.length} {path : Bytes} (htarget : path ∈ targets)
      (hpath : path ∈ (manifest.commandAt i).paths) : Reaches strict targets i
  | request {i j : Fin manifest.commands.length} {path : Bytes} (hi : Reaches strict targets i)
      (hrequest : path ∈ ((manifest.commandAt i).start strict).map TaskCall.key)
      (hpath : path ∈ (manifest.commandAt j).paths) : Reaches strict targets j

variable {manifest}

theorem mem_rootTargets {path : Bytes} :
  path ∈ manifest.rootTargets
    ↔ ∃ i, ∃ node ∈ (manifest.commandAt i).outputs, node ∉ manifest.inputNodes
      ∧ node.canonicalPath = path
  := by
  rw [rootTargets, mem_flatMap]
  constructor
  · rintro ⟨command, hcommand, hpath⟩
    obtain ⟨i, rfl⟩ := get_of_mem hcommand
    obtain ⟨node, hnode, rfl⟩ := mem_map.mp hpath
    obtain ⟨houtput, hinput⟩ := mem_filter.mp hnode
    exact ⟨i, node, houtput, of_decide_eq_true hinput, rfl⟩
  · rintro ⟨i, node, houtput, hinput, rfl⟩
    refine ⟨_, get_mem manifest.commands i, ?_⟩
    apply mem_map_of_mem
    exact mem_filter.mpr ⟨houtput, decide_eq_true hinput⟩

variable (manifest) in
/-- The nodes of the commands are told by their paths. -/
def IsInterned : Prop :=
  ∀ i j, ∀ node ∈ (manifest.commandAt i).outputs ++ (manifest.commandAt i).inputs.map (·.node),
    ∀ output ∈ (manifest.commandAt j).outputs, node.canonicalPath = output.canonicalPath →
    node = output

variable (manifest) in
/-- The command has an output that is not an input of any command, or another command requests an
output of it. -/
def IsWanted (strict : Bool) (i : Fin manifest.commands.length) : Prop :=
  (∃ node ∈ (manifest.commandAt i).outputs, node ∉ manifest.inputNodes)
    ∨ ∃ j ≠ i, ∃ input ∈ (manifest.commandAt j).inputs,
      (manifest.commandAt j).skips strict input = false
        ∧ input.node ∈ (manifest.commandAt i).outputs

/-- A command is reached only if it is wanted itself. -/
theorem Reaches.isWanted (hnodes : manifest.IsInterned)
    {strict : Bool} {i : Fin manifest.commands.length}
    (h : manifest.Reaches strict manifest.rootTargets i) :
  manifest.IsWanted strict i
  := by
  induction h with
  | @target i path htarget hpath =>
    obtain ⟨k, node, houtput, hinput, rfl⟩ := mem_rootTargets.mp htarget
    obtain ⟨node', houtput', heq⟩ := mem_map.mp hpath
    obtain rfl := hnodes k i node (mem_append_left _ houtput) node' houtput' heq.symm
    exact .inl ⟨node, houtput', hinput⟩
  | @request i j path hi hrequest hpath ih =>
    obtain ⟨input, hinput, hskips, rfl⟩ := Command.mem_start.mp hrequest
    obtain ⟨node, houtput, heq⟩ := mem_map.mp hpath
    have hnode := hnodes i j input.node (mem_append_right _ (mem_map_of_mem hinput)) node houtput
      heq.symm
    by_cases hij : i = j
    · exact hij ▸ ih
    · exact .inr ⟨i, hij, input, hinput, hskips, hnode ▸ houtput⟩

/-- **The root targets reach every command**, in a manifest without cycles in which every command
is wanted. -/
theorem reaches_rootTargets (hacyclic : manifest.IsAcyclic) {strict : Bool}
    (hwanted : ∀ i, manifest.IsWanted strict i) (i : Fin manifest.commands.length) :
  manifest.Reaches strict manifest.rootTargets i
  := by
  have hirrefl : Std.Irrefl (Relation.TransGen manifest.Uses) := ⟨hacyclic⟩
  have hwf : WellFounded (Relation.TransGen manifest.Uses) :=
    Finite.wellFounded_of_trans_of_irrefl _
  -- The commands that use a command come before it.
  induction i using hwf.induction with
  | h i ih =>
    obtain ⟨node, houtput, hinput⟩ | ⟨j, hne, input, hinput, hskips, houtput⟩ := hwanted i
    · apply Reaches.target (mem_rootTargets.mpr ⟨i, node, houtput, hinput, rfl⟩)
      exact mem_map_of_mem houtput
    · have huses : manifest.Uses j i := ⟨⟨input, hinput, houtput⟩, fun h => hne h.1⟩
      apply Reaches.request (ih j (.single huses))
        (Command.mem_start.mpr ⟨input, hinput, hskips, rfl⟩)
      exact mem_map_of_mem houtput

/-- The targets of a build without arguments, of a manifest without default targets and without
cycles, reach every command exactly if every command has an output that is not an input, or an
output that another command requests. -/
theorem reaches_targetsToBuild_iff
    (normalizePath : Bytes → Option Bytes) (hdefault : manifest.defaultTargets = [])
    (hacyclic : manifest.IsAcyclic) (hnodes : manifest.IsInterned) (strict : Bool) :
  (∃ targets, manifest.targetsToBuild normalizePath [] = some targets
      ∧ ∀ i, manifest.Reaches strict targets i)
    ↔ ∀ i, manifest.IsWanted strict i
  := by
  have htargets : manifest.targetsToBuild normalizePath [] = some manifest.rootTargets := by
    rw [targetsToBuild, hdefault]
    rfl
  rw [htargets]
  constructor
  · rintro ⟨targets, ⟨⟩, hreaches⟩ i
    exact (hreaches i).isWanted hnodes
  · intro hwanted
    exact ⟨_, rfl, reaches_rootTargets hacyclic hwanted⟩

/-- A manifest in which commands use only later commands has no cycles. -/
theorem isAcyclic_of_lt (h : ∀ i j, manifest.Uses i j → i < j) :
  manifest.IsAcyclic
  := by
  have hlt {i j : Fin manifest.commands.length} (hij : Relation.TransGen manifest.Uses i j) :
      i < j := by
    induction hij with
    | single huses => exact h _ _ huses
    | tail _ huses ih => exact ih.trans (h _ _ huses)
  intro i hi
  exact lt_irrefl i (hlt hi)

theorem not_reaches_nil (strict : Bool) (i : Fin manifest.commands.length) :
  ¬ manifest.Reaches strict [] i
  := by
  intro h
  induction h with
  | target htarget _ => cases htarget
  | request _ _ _ ih => exact ih

open NodeSamples in
/-- A phony command that is an input of another command, with its output among its inputs. -/
theorem reaches_targetsToBuild_phony :
  ∃ l ∈ loadText (ascii "build all: phony a\nbuild a: phony a b\nbuild b: phony\n"),
    ∃ targets, l.manifest.targetsToBuild (Path.normalForm (ascii "/w")) [] = some targets
      ∧ ∀ i, l.manifest.Reaches false targets i
  := by
  obtain ⟨l, hload, hdefault, hlt, hnodes, hwanted⟩ :
      ∃ l ∈ loadText (ascii "build all: phony a\nbuild a: phony a b\nbuild b: phony\n"),
        l.manifest.defaultTargets = []
        ∧ (∀ i j, l.manifest.Uses i j → i < j)
        ∧ (∀ i j, ∀ node ∈ (l.manifest.commandAt i).outputs
            ++ (l.manifest.commandAt i).inputs.map (·.node),
          ∀ output ∈ (l.manifest.commandAt j).outputs,
            node.canonicalPath = output.canonicalPath → node = output)
        ∧ ∀ i, (∃ node ∈ (l.manifest.commandAt i).outputs, node ∉ l.manifest.inputNodes)
          ∨ ∃ j ≠ i, ∃ input ∈ (l.manifest.commandAt j).inputs,
            (l.manifest.commandAt j).skips false input = false
              ∧ input.node ∈ (l.manifest.commandAt i).outputs := by decide +kernel
  exact ⟨l, hload,
    (reaches_targetsToBuild_iff _ hdefault (isAcyclic_of_lt hlt) hnodes false).mpr hwanted⟩

open NodeSamples in
/-- No target is selected for a phony command with its output as its input. -/
theorem not_reaches_phony :
  ∃ l ∈ loadText (ascii "build a: phony a\n"), l.errors.length = 0
    ∧ l.manifest.defaultTargets = [] ∧ l.manifest.IsAcyclic ∧ l.manifest.commands.length = 1
    ∧ l.manifest.targetsToBuild (Path.normalForm (ascii "/w")) [] = some []
    ∧ ∀ strict i, ¬ l.manifest.Reaches strict [] i
  := by
  obtain ⟨l, hload, herrors, hdefault, hlt, hlength, htargets⟩ :
      ∃ l ∈ loadText (ascii "build a: phony a\n"), l.errors.length = 0
        ∧ l.manifest.defaultTargets = [] ∧ (∀ i j, l.manifest.Uses i j → i < j)
        ∧ l.manifest.commands.length = 1
        ∧ l.manifest.targetsToBuild (Path.normalForm (ascii "/w")) [] = some [] := by
    decide +kernel
  exact ⟨l, hload, herrors, hdefault, isAcyclic_of_lt hlt, hlength, htargets, not_reaches_nil⟩

end Ninja.Manifest

end LLBuild

import LLBuild.Basic.Separator
import LLBuild.Ninja.Outputs

/-!
# The keys of the rules of commands

The engine is given the rules of all commands before a build.  A command with one output has
one rule, the key of which is the path of the output.  A command with several outputs has a
composite rule, the key of which joins the paths of the outputs, and a rule for each output that
selects its part of the composite result.

The keys are distinct if no path contains what is between the paths of a composite key, from
the separator to the first byte of the next path.
-/

namespace LLBuild.Ninja.Manifest

open Separator

open Manifest.Command

open List

open BinaryCoding Ninja.Path

/-! ### Registration -/

/-- A rule that the engine is given for a command. -/
inductive CommandRule
  | buildCommand (key : Bytes) (command : Command)
  | compositeResult (key : Bytes) (command : Command) (index : ℕ) (compositeRuleName : Bytes)

def CommandRule.key : CommandRule → Bytes
  | buildCommand key _ => key
  | compositeResult key _ _ _ => key

/-- The signature of the composite rule of some outputs. -/
def compositeRuleName (outputs : List Node) : Bytes :=
  outputs.foldl (fun name output =>
    (if name ≠ [] then name ++ ascii "&&" else name) ++ output.canonicalPath) []

/-- The rules of a command: one for its output, or a composite rule for all of its outputs and a
rule for each of them. -/
def Command.rules (command : Command) : List CommandRule :=
  match command.outputs with
  | [output] => [.buildCommand output.canonicalPath command]
  | outputs =>
      .buildCommand (compositeRuleName outputs) command ::
        outputs.mapIdx fun index output =>
          .compositeResult output.canonicalPath command index (compositeRuleName outputs)

/-- The rules of the engine. -/
structure RuleInfos where
  ruleInfos : Table Bytes CommandRule := ∅
  errors : List Bytes := []
  buildCancelled : Bool := false

namespace RuleInfos

/-- Add a rule; a second rule with the same key is an error. -/
def addRule (engine : RuleInfos) (rule : CommandRule) : RuleInfos :=
  match engine.ruleInfos.lookup rule.key with
  | some found =>
      { engine with
        errors := engine.errors
          ++ [ascii "attempt to register duplicate rule \"" ++ found.key ++ ascii "\"\n"]
        buildCancelled := true }
  | none => { engine with ruleInfos := engine.ruleInfos.insert rule.key rule }

/-- Add the rules of the commands of a manifest. -/
def addRules (commands : List Command) : RuleInfos :=
  (commands.flatMap rules).foldl addRule {}

/-- Rules with distinct keys are added without an error, and are found. -/
theorem foldl_addRule (engine : RuleInfos) {rules : List CommandRule}
    (hnodup : (rules.map CommandRule.key).Nodup)
    (hnew : ∀ rule ∈ rules, engine.ruleInfos.lookup rule.key = none) :
  (rules.foldl addRule engine).errors = engine.errors
    ∧ (rules.foldl addRule engine).buildCancelled = engine.buildCancelled
    ∧ (∀ rule ∈ rules, (rules.foldl addRule engine).ruleInfos.lookup rule.key = some rule)
    ∧ ∀ key, key ∉ rules.map CommandRule.key →
      (rules.foldl addRule engine).ruleInfos.lookup key = engine.ruleInfos.lookup key
  := by
  induction rules generalizing engine with
  | nil => exact ⟨rfl, rfl, nofun, fun _ _ => rfl⟩
  | cons rule rules ih =>
    obtain ⟨hfirst, hrest⟩ := forall_mem_cons.mp hnew
    obtain ⟨hrule, hnodup⟩ := nodup_cons.mp hnodup
    have hadd : engine.addRule rule
        = { engine with ruleInfos := engine.ruleInfos.insert rule.key rule } := by
      rw [addRule, hfirst]
    have hnew' : ∀ rule' ∈ rules, (engine.addRule rule).ruleInfos.lookup rule'.key = none := by
      intro rule' hrule'
      have hne : rule'.key ≠ rule.key := by
        intro heq
        exact hrule (heq ▸ mem_map_of_mem hrule')
      rw [hadd, Table.lookup_insert, if_neg hne]
      exact hrest rule' hrule'
    obtain ⟨herrors, hcancelled, hfound, hother⟩ := ih (engine.addRule rule) hnodup hnew'
    rw [hadd] at herrors hcancelled hfound hother
    rw [foldl_cons, hadd]
    refine ⟨herrors, hcancelled, forall_mem_cons.mpr ⟨?_, hfound⟩, ?_⟩
    · rw [hother _ hrule, Table.lookup_insert, if_pos rfl]
    · intro key hkey
      obtain ⟨hne, hkey⟩ := not_or.mp (mt mem_cons.mpr hkey)
      rw [hother key hkey, Table.lookup_insert, if_neg hne]

end RuleInfos

/-! ### Distinct keys -/

/-- What is between the paths in a composite key, up to the first byte of the next path. -/
def mark : Bytes := ascii "&&/"

/-- A path that starts with a separator, and has no mark in it. -/
structure IsPlain (path : Bytes) : Prop where
  head : path.head? = some slash
  mark : ¬ mark <:+: path

/-- The paths of the outputs of a command. -/
def Command.paths (command : Command) : List Bytes := command.outputs.map Node.canonicalPath

namespace IsPlain

variable {path : Bytes}

theorem eq_cons (h : IsPlain path) :
  path = slash :: path.tail
  := by
  obtain ⟨rest, rfl⟩ := head?_eq_some_iff.mp h.head
  rfl

theorem not_mark_tail (h : IsPlain path) :
  ¬ Manifest.mark <:+: path.tail
  := fun hmark => h.mark (hmark.trans (tail_suffix path).isInfix)

end IsPlain

theorem foldl_compositeRuleName {name : Bytes} (hname : name ≠ []) (outputs : List Node) :
  outputs.foldl (fun name output =>
      (if name ≠ [] then name ++ ascii "&&" else name) ++ output.canonicalPath) name
    = name ++ outputs.flatMap fun output => ascii "&&" ++ output.canonicalPath
  := by
  induction outputs generalizing name with
  | nil => exact (append_nil name).symm
  | cons output outputs ih =>
    rw [foldl_cons, if_pos hname, ih (by simp [hname]), flatMap_cons,
      append_assoc, append_assoc, append_assoc]

variable {outputs : List Node} {output output' : Node}

/-- A composite key joins what is behind the first bytes of the paths. -/
theorem compositeRuleName_eq (hplain : ∀ node ∈ output :: outputs, IsPlain node.canonicalPath) :
  compositeRuleName (output :: outputs)
    = slash :: join mark output.canonicalPath.tail
      (outputs.map fun node => node.canonicalPath.tail)
  := by
  obtain ⟨houtput, houtputs⟩ := forall_mem_cons.mp hplain
  have hrest : (outputs.flatMap fun node => ascii "&&" ++ node.canonicalPath)
      = (outputs.map fun node => node.canonicalPath.tail).flatMap (mark ++ ·) := by
    rw [flatMap_map]
    refine flatMap_congr fun node hnode => ?_
    conv_lhs => rw [(houtputs node hnode).eq_cons]
    rfl
  have hne : output.canonicalPath ≠ [] := by
    rw [houtput.eq_cons]
    exact cons_ne_nil _ _
  rw [compositeRuleName, foldl_cons, if_neg (not_not.mpr rfl), nil_append,
    foldl_compositeRuleName hne, hrest, join, ← cons_append, ← houtput.eq_cons]

/-- The keys of a command with several outputs. -/
theorem map_key_rules {command : Command} (h : command.outputs = output :: output' :: outputs) :
  command.rules.map CommandRule.key = compositeRuleName command.outputs :: command.paths
  := by
  have hkeys (f : ℕ → Node → CommandRule) (hf : ∀ i node, (f i node).key = node.canonicalPath)
      (nodes : List Node) : (nodes.mapIdx f).map CommandRule.key
        = nodes.map Node.canonicalPath := by
    induction nodes generalizing f with
    | nil => rfl
    | cons node nodes ih =>
      rw [mapIdx_cons, map_cons, map_cons, hf, ih]
      exact fun i node' => hf (i + 1) node'
  rw [rules, paths, h]
  exact congrArg _ (hkeys _ (fun _ _ => rfl) _)

/-- The composite key of several outputs is not a path. -/
theorem mark_isInfix_compositeRuleName
    (hplain : ∀ node ∈ output :: output' :: outputs, IsPlain node.canonicalPath) :
  mark <:+: compositeRuleName (output :: output' :: outputs)
  := by
  rw [compositeRuleName_eq hplain]
  exact (isInfix_join_cons _ _ _).trans (suffix_cons _ _).isInfix

theorem paths_eq_of_compositeRuleName {outputs outputs' : List Node} (hne : outputs ≠ [])
    (hne' : outputs' ≠ []) (hplain : ∀ node ∈ outputs, IsPlain node.canonicalPath)
    (hplain' : ∀ node ∈ outputs', IsPlain node.canonicalPath)
    (heq : compositeRuleName outputs = compositeRuleName outputs') :
  outputs.map Node.canonicalPath = outputs'.map Node.canonicalPath
  := by
  obtain ⟨output, outputs, rfl⟩ := exists_cons_of_ne_nil hne
  obtain ⟨output', outputs', rfl⟩ := exists_cons_of_ne_nil hne'
  rw [compositeRuleName_eq hplain, compositeRuleName_eq hplain'] at heq
  have hunbordered : Separator.IsUnbordered mark := by decide
  have hmarks {nodes : List Node} (h : ∀ node ∈ nodes, IsPlain node.canonicalPath) :
      ∀ x ∈ nodes.map (·.canonicalPath.tail), ¬ mark <:+: x := by
    intro x hx
    obtain ⟨node, hnode, rfl⟩ := mem_map.mp hx
    exact (h node hnode).not_mark_tail
  have htails := join_inj hunbordered (hmarks hplain) (hmarks hplain')
    (cons.inj heq).2
  have hpaths {nodes : List Node} (h : ∀ node ∈ nodes, IsPlain node.canonicalPath) :
      nodes.map Node.canonicalPath
        = (nodes.map fun node => node.canonicalPath.tail).map (slash :: ·) := by
    rw [map_map]
    exact map_congr_left fun node hnode => (h node hnode).eq_cons
  rw [hpaths hplain, hpaths hplain']
  exact congrArg (map (slash :: ·)) htails

/-- The composite key of a command with several outputs is no path of an output, and not the
composite key of another command. -/
structure AreApart (commands : List Command) : Prop where
  paths : ∀ command ∈ commands, 1 < command.outputs.length → ∀ command' ∈ commands,
    compositeRuleName command.outputs ∉ command'.paths
  composites : commands.Pairwise fun command command' => 1 < command.outputs.length →
    1 < command'.outputs.length →
    compositeRuleName command.outputs ≠ compositeRuleName command'.outputs

/-- The keys of a command are the paths of its outputs, and the composite key of several. -/
theorem mem_keys_iff {command : Command} {key : Bytes} (houtputs : command.outputs ≠ []) :
  key ∈ command.rules.map CommandRule.key ↔ key ∈ command.paths
    ∨ (key = compositeRuleName command.outputs ∧ 1 < command.outputs.length)
  := by
  match hcommand : command.outputs, houtputs with
  | [output], _ =>
    rw [rules, hcommand, paths, hcommand]
    simp [CommandRule.key]
  | output :: output' :: outputs, _ =>
    rw [map_key_rules hcommand, hcommand, mem_cons, or_comm]
    simp

/-- The keys of commands whose outputs have distinct paths are distinct exactly if the composite
keys are apart. -/
theorem nodup_keys_iff {commands : List Command}
    (houtputs : ∀ command ∈ commands, command.outputs ≠ [])
    (hnodup : ∀ command ∈ commands, command.paths.Nodup)
    (hdisjoint : commands.Pairwise fun command command' => command.paths.Disjoint command'.paths) :
  ((commands.flatMap rules).map CommandRule.key).Nodup ↔ AreApart commands
  := by
  rw [map_flatMap, nodup_flatMap]
  constructor
  · rintro ⟨heach, hpairwise⟩
    have hcomposite {command : Command} (hcommand : command ∈ commands)
        (hseveral : 1 < command.outputs.length) :
        compositeRuleName command.outputs ∈ command.rules.map CommandRule.key :=
      (mem_keys_iff (houtputs command hcommand)).mpr (.inr ⟨rfl, hseveral⟩)
    constructor
    · intro command hcommand hseveral command' hcommand' hpath
      by_cases heq : command = command'
      · subst heq
        have hkeys := heach command hcommand
        match hseveral' : command.outputs, hseveral with
        | output :: output' :: outputs, _ =>
          rw [map_key_rules hseveral'] at hkeys
          exact (nodup_cons.mp hkeys).1 hpath
      · have hsymm : Std.Symm (Function.onFun List.Disjoint fun command : Command =>
            command.rules.map CommandRule.key) := ⟨fun _ _ hkeys => hkeys.symm⟩
        exact hpairwise.forall hcommand hcommand' heq (hcomposite hcommand hseveral)
          ((mem_keys_iff (houtputs command' hcommand')).mpr (.inl hpath))
    · exact hpairwise.imp_of_mem fun hcommand hcommand' hkeys hseveral hseveral' heq =>
        hkeys (hcomposite hcommand hseveral) (heq ▸ hcomposite hcommand' hseveral')
  · intro hapart
    refine ⟨?_, (hdisjoint.and hapart.composites).imp_of_mem ?_⟩
    · intro command hcommand
      match houtputs' : command.outputs, houtputs command hcommand with
      | [output], _ =>
        rw [rules, houtputs']
        exact nodup_singleton _
      | output :: output' :: outputs, _ =>
        rw [map_key_rules houtputs']
        refine nodup_cons.mpr ⟨?_, hnodup command hcommand⟩
        exact hapart.paths command hcommand (by rw [houtputs']; simp) command hcommand
    · intro command command' hcommand hcommand' hpair key hkey hkey'
      obtain hpath | ⟨rfl, hseveral⟩ := (mem_keys_iff (houtputs command hcommand)).mp hkey
      · obtain hpath' | ⟨rfl, hseveral⟩ := (mem_keys_iff (houtputs command' hcommand')).mp hkey'
        · exact hpair.1 hpath hpath'
        · exact hapart.paths command' hcommand' hseveral command hcommand hpath
      · obtain hpath' | ⟨heq, hseveral'⟩ :=
          (mem_keys_iff (houtputs command' hcommand')).mp hkey'
        · exact hapart.paths command hcommand hseveral command' hcommand' hpath'
        · exact hpair.2 hseveral hseveral' heq

/-- Composite keys are apart if no path has a mark. -/
theorem areApart_of_isPlain {commands : List Command}
    (hplain : ∀ command ∈ commands, ∀ node ∈ command.outputs, IsPlain node.canonicalPath)
    (hdisjoint : commands.Pairwise fun command command' => command.paths.Disjoint command'.paths) :
  AreApart commands
  := by
  constructor
  · intro command hcommand hseveral command' hcommand' hpath
    obtain ⟨node, hnode, heq⟩ := mem_map.mp hpath
    apply (hplain command' hcommand' node hnode).mark
    rw [heq]
    have hnodes := hplain command hcommand
    match houtputs : command.outputs, hseveral with
    | output :: output' :: outputs, _ =>
      rw [houtputs] at hnodes
      exact mark_isInfix_compositeRuleName hnodes
  · refine hdisjoint.imp_of_mem ?_
    intro command command' hcommand hcommand' hpaths hseveral hseveral' heq
    have hne : command.outputs ≠ [] := ne_nil_of_length_pos (by omega)
    have hsame : command.paths = command'.paths :=
      paths_eq_of_compositeRuleName hne (ne_nil_of_length_pos (by omega))
        (hplain command hcommand) (hplain command' hcommand') heq
    obtain ⟨output, outputs, houtputs⟩ := exists_cons_of_ne_nil hne
    have hmem : output.canonicalPath ∈ command.paths := by
      rw [paths, houtputs]
      exact mem_cons_self
    exact hpaths hmem (hsame ▸ hmem)

namespace Loader

open RuleInfos

variable {workingDirectory : Bytes} {texts : Bytes → Option Bytes} {l : Loader}

/-- **The keys of commands are distinct.**  Let each node be an output of at most one of the
commands that were loaded.  Then the rules of the commands have distinct keys, and the engine finds
each of them under its key, exactly if the composite keys are apart.  They are if no output has a
mark in its path. -/
theorem keys_of_run_iff {mainFilename : Bytes} {depth n : ℕ}
    (hrun : (start (.ofTexts workingDirectory texts) mainFilename).run
      (.ofTexts workingDirectory texts) depth n = .ok l)
    (hproducer : l.manifest.commands.Pairwise fun command command' =>
      ∀ node ∈ command.outputs, node ∉ command'.outputs) :
  (((l.manifest.commands.flatMap rules).map CommandRule.key).Nodup
        ∧ (addRules l.manifest.commands).errors = []
        ∧ (addRules l.manifest.commands).buildCancelled = false
        ∧ (∀ rule ∈ l.manifest.commands.flatMap rules,
          (addRules l.manifest.commands).ruleInfos.lookup rule.key = some rule)
      ↔ AreApart l.manifest.commands)
    ∧ ((∀ command ∈ l.manifest.commands, ∀ node ∈ command.outputs,
        ¬ ascii "&&/" <:+: node.canonicalPath) → AreApart l.manifest.commands)
  := by
  have hlisted := (Lists.of_run hrun).commands
  have hdisjoint : l.manifest.commands.Pairwise fun command command' =>
      command.paths.Disjoint command'.paths := by
    refine hproducer.imp_of_mem ?_
    intro command command' hcommand hcommand' hnodes path hpath hpath'
    obtain ⟨node, hnode, rfl⟩ := mem_map.mp hpath
    obtain ⟨node', hnode', heq⟩ := mem_map.mp hpath'
    have hlookup := (hlisted command hcommand).lookup node hnode
    have hlookup' := (hlisted command' hcommand').lookup node' hnode'
    obtain rfl := (node_eq_iff hlookup' hlookup).mpr heq
    exact hnodes node' hnode hnode'
  have hkeys := nodup_keys_iff (fun command hcommand => (hlisted command hcommand).ne_nil)
    (fun command hcommand => (hlisted command hcommand).nodup) hdisjoint
  refine ⟨⟨fun h => hkeys.mp h.1, fun hapart => ?_⟩, fun hmark => ?_⟩
  · have hnodup := hkeys.mpr hapart
    obtain ⟨herrors, hcancelled, hfound, -⟩ := foldl_addRule {} hnodup fun _ _ => rfl
    exact ⟨hnodup, herrors, hcancelled, hfound⟩
  · exact areApart_of_isPlain (fun command hcommand node hnode =>
      ⟨(hlisted command hcommand).head node hnode, hmark command hcommand node hnode⟩) hdisjoint

open NodeSamples in
/-- A command with two outputs and one with a single output. -/
theorem keys_of_run_three :
  ∃ l ∈ loadText (ascii "build a b: phony\nbuild c: phony\n"),
    ((l.manifest.commands.flatMap rules).map CommandRule.key).Nodup
      ∧ (addRules l.manifest.commands).errors = []
      ∧ (addRules l.manifest.commands).buildCancelled = false
      ∧ ∀ rule ∈ l.manifest.commands.flatMap rules,
        (addRules l.manifest.commands).ruleInfos.lookup rule.key = some rule
  := by
  obtain ⟨l, hload, hproducer, hmark⟩ :
      ∃ l ∈ loadText (ascii "build a b: phony\nbuild c: phony\n"),
        (l.manifest.commands.Pairwise fun command command' =>
          ∀ node ∈ command.outputs, node ∉ command'.outputs)
        ∧ ∀ command ∈ l.manifest.commands, ∀ node ∈ command.outputs,
          ¬ ascii "&&/" <:+: node.canonicalPath := by decide +kernel
  refine ⟨l, hload, ?_⟩
  rw [loadText, Option.mem_def] at hload
  have hkeys := keys_of_run_iff (eq_ok_of_toOption hload) hproducer
  exact hkeys.1.mpr (hkeys.2 hmark)

open NodeSamples in
/-- The key of a command with two outputs is the path of the output of another command. -/
theorem keys_collide :
  (loadText (ascii "build /a /b: phony\nbuild /a&&/b: phony\n")).map
      (·.manifest.commands.map paths) = some [[ascii "/a", ascii "/b"], [ascii "/a&&/b"]]
    ∧ (loadText (ascii "build /a /b: phony\nbuild /a&&/b: phony\n")).map
      (fun l => (l.manifest.commands.flatMap rules).map CommandRule.key)
      = some [ascii "/a&&/b", ascii "/a", ascii "/b", ascii "/a&&/b"]
    ∧ (loadText (ascii "build /a /b: phony\nbuild /a&&/b: phony\n")).map
      (fun l => (l.errors.length, (addRules l.manifest.commands).errors))
      = some (0, [ascii "attempt to register duplicate rule \"/a&&/b\"\n"])
  := by decide +kernel

end Loader

end LLBuild.Ninja.Manifest

import LLBuild.BuildSystem.BuildKey
import LLBuild.BuildSystem.Failures
import LLBuild.BuildSystem.NodeConfiguration
import LLBuild.Core.Moves

/-!
# The signatures of nodes

The task of a node requests other keys: the command that produces the node, the signature of the
directory tree the node stands for, the nodes that come before the scan of the directory.  Which
keys it requests follows from the type of the node, its exclusion patterns, its must-scan-after
paths and its producers.

The signature of a node takes in its type, as a truth value, and the names of its producers.  So
it tells the plain nodes from the other ones, and nodes with different producers, and nothing
else.  A change of the description that it tells is noticed by the scan of the node in the next
build, which then creates and starts the task (`Engine.scanRule_signatureChanged`).
-/

namespace LLBuild

open Combiner

open BuildKey

/-! ### The scan of a rule with another signature -/

namespace Engine

variable {Key Value : Type} [DecidableEq Key] [Inhabited Value]

/-- A rule that is not scanned yet and whose result has another signature needs to run, and its
task is started when it is demanded. -/
theorem scanRule_signatureChanged
    {client : Client Key Value} {s : Engine Key Value} {key : Key}
    (hscanned : ¬ (s.ruleInfo client key).IsScanned s.currentEpoch)
    (hscanning : ¬ (s.ruleInfo client key).IsScanning)
    (hchecks : client.checksDependenciesBeforeRunning key = false)
    (hsignature : (s.ruleInfo client key).signature ≠ (s.ruleInfo client key).result.signature) :
  ∃ next, s.scanRule client key = (true, next) ∧ (next.ruleInfo client key).state = .needsToRun
  := by
  have hprepared : (s.ruleInfo client key).prepared.signature
      ≠ (s.ruleInfo client key).prepared.result.signature := hsignature
  rw [scanRule, if_neg hscanned, if_neg hscanning]
  dsimp only
  by_cases hbuilt : (s.ruleInfo client key).prepared.result.builtAt = 0
  · rw [if_pos hbuilt]
    exact ⟨_, rfl, by simp⟩
  · rw [if_neg hbuilt, if_pos hprepared, scheduleChecksBeforeRunning, hchecks]
    exact ⟨_, rfl, by simp⟩

/-- The task of a rule that needs to run is started when the rule is demanded. -/
theorem demandRule_needsToRun
    {client : Client Key Value} {s : Engine Key Value} {key : Key}
    (hstate : (s.ruleInfo client key).state = .needsToRun) :
  s.demandRule client key = (false, s.startTask client key)
  := by
  have hkind : (s.ruleInfo client key).state.kind = .needsToRun := by
    rw [hstate]
    rfl
  rw [demandRule]
  simp [RuleInfo.IsComplete, hkind]

end Engine

namespace BuildSystem

open BinaryCoding

/-! ### Descriptions of nodes -/

/-- The number of a type. -/
def NodeType.toNat : NodeType → ℕ
  | plain => 0
  | directory => 1
  | directoryStructure => 2
  | virtual => 3

/-- A node as a description gives it, with the names of the commands that have it as an output. -/
structure DescribedNode extends ConfiguredNode where
  producers : List Bytes := []
  deriving DecidableEq

/-- The signature of a node.  The type is an integer, and taken in as a truth value. -/
def DescribedNode.getSignature (H : Combiner) (node : DescribedNode) : H.Signature :=
  H.combineAll H.null (.int node.type.toNat :: node.producers.map .string)

/-! ### The tasks of nodes -/

/-- A task that keeps a state: what it becomes and which calls it makes at each callback. -/
structure NodeTask (Value : Type) where
  State : Type
  initial : State
  step : State → LLBuild.Callback Bytes Value → State × List (TaskCall Bytes)

/-- The calls a task makes in response to the last callback. -/
def NodeTask.respond {Value : Type} (task : NodeTask Value)
    (history : List (LLBuild.Callback Bytes Value)) : List (TaskCall Bytes) :=
  (history.foldl (fun next callback => task.step next.1 callback) (task.initial, [])).2

/-- What the tasks of nodes ask of others. -/
structure NodeContext (Value : Type) where
  /-- The choice of the delegate, for a node with some producers. -/
  chooseCommandFromMultipleProducers : Bytes → List Bytes → Option Bytes
  /-- Whether the value of a command makes its output an existing input. -/
  isExistingInput : Bytes → Bytes → Value → Bool

namespace DescribedNode

variable {Value : Type}

/-- The task of a node that requests nothing: a file or a virtual node. -/
def inputNodeTask : NodeTask Value where
  State := Unit
  initial := ()
  step _ _ := ((), [])

/-- How many must-scan-after paths there are, and how many of them have been provided. -/
structure BlockingDeps where
  totalBlockingDeps : ℕ := 0
  finishedBlockingDeps : ℕ := 0

/-- Request a must-scan-after path.  The input with the number 0 is the directory tree. -/
def requestMustScanAfterPath (next : BlockingDeps × List (TaskCall Bytes)) (path : Bytes) :
    BlockingDeps × List (TaskCall Bytes) :=
  let totalBlockingDeps := next.1.totalBlockingDeps + 1
  ({ next.1 with totalBlockingDeps := totalBlockingDeps },
    next.2 ++ [.request (makeNode path) (UInt64.ofNat totalBlockingDeps)])

/-- The task of a directory that no command produces.  The signature of the directory tree is
requested when all must-scan-after paths are there. -/
def directoryInputNodeTask (name : Bytes) (exclusionPatterns : StringList)
    (mustScanAfterPaths : List Bytes) : NodeTask Value where
  State := BlockingDeps
  initial := {}
  step s
    | .start =>
        let (s, calls) := mustScanAfterPaths.foldl requestMustScanAfterPath (s, [])
        (s, calls ++ if s.totalBlockingDeps = 0 then [unblocked] else [])
    | .provideValue inputID _ _ =>
        if inputID = 0 then (s, [])
        else
          let s := { s with finishedBlockingDeps := s.finishedBlockingDeps + 1 }
          (s, if s.finishedBlockingDeps = s.totalBlockingDeps then [unblocked] else [])
    | _ => (s, [])
where
  /-- The request for the signature of the directory tree. -/
  unblocked : TaskCall Bytes :=
    .request (makeDirectoryTreeSignature (directoryPath { name }) exclusionPatterns) 0

/-- The task of a directory structure that no command produces. -/
def directoryStructureInputNodeTask (name : Bytes) (exclusionPatterns : StringList) :
    NodeTask Value where
  State := Unit
  initial := ()
  step _
    | .start => ((), [.request (makeDirectoryTreeStructureSignature
        (directoryPath { name }) exclusionPatterns) 0])
    | _ => ((), [])

variable (context : NodeContext Value)

/-- The command that is to produce a node: its only producer, or the choice of the delegate. -/
def getCommand (name : Bytes) : List Bytes → Option Bytes
  | [producer] => some producer
  | producers => context.chooseCommandFromMultipleProducers name producers

/-- The task of a node that a command produces. -/
def producedNodeTask (name : Bytes) (producers : List Bytes) :
    NodeTask Value where
  State := Option Bytes
  initial := none
  step producingCommand
    | .start =>
        match getCommand context name producers with
        | some command => (some command, [.request (makeCommand command) 0])
        | none => (none, [])
    | _ => (producingCommand, [])

/-- The task of a directory that a command produces.  The signature of the directory tree is
requested when the command has produced the directory; the exclusion patterns are not used. -/
def producedDirectoryNodeTask (name : Bytes)
    (producers : List Bytes) : NodeTask Value where
  State := Option Bytes
  initial := none
  step producingCommand
    | .start =>
        match getCommand context name producers with
        | some command => (some command, [.request (makeCommand command) 0])
        | none => (none, [])
    | .provideValue inputID _ value =>
        match producingCommand with
        | some command => (producingCommand,
            if inputID = 0 ∧ context.isExistingInput command name value then
              [.request (makeDirectoryTreeSignature (directoryPath { name }) {}) 1]
            else [])
        | none => (none, [])
    | _ => (producingCommand, [])

/-- The task the rule of a node creates. -/
def createTask (node : DescribedNode) : NodeTask Value :=
  if node.producers.isEmpty then
    if node.isVirtual then inputNodeTask
    else if node.isDirectory then
      directoryInputNodeTask node.name node.exclusionPatterns node.mustScanAfterPaths
    else if node.type = .directoryStructure then
      directoryStructureInputNodeTask node.name node.exclusionPatterns
    else inputNodeTask
  else if node.isDirectory then producedDirectoryNodeTask context node.name node.producers
  else producedNodeTask context node.name node.producers

/-! ### What the signatures tell -/

variable {old new : DescribedNode}

/-- Nodes with the same signature have the same producers, and both or none of them are plain. -/
theorem producers_eq_of_getSignature_eq
    {H : Combiner} (h : old.getSignature H = new.getSignature H) :
  old.producers = new.producers ∧ (old.type = .plain ↔ new.type = .plain)
  := by
  obtain ⟨htype, hproducers⟩ := List.cons.inj ((combineAll_eq_iff rfl).mp h).2
  constructor
  · exact HashedValue.map_string_injective hproducers
  · have hbool := HashedValue.bool.inj htype
    cases hold : old.type <;> cases hnew : new.type <;> simp [hold, hnew, NodeType.toNat] at hbool ⊢

/-- Nodes with the same producers, both or none of them plain, have the same signature. -/
theorem getSignature_eq_of_producers_eq
    (H : Combiner) (hproducers : old.producers = new.producers)
    (hplain : old.type = .plain ↔ new.type = .plain) :
  old.getSignature H = new.getSignature H
  := by
  have htype : HashedValue.int old.type.toNat = HashedValue.int new.type.toNat := by
    cases hold : old.type <;> cases hnew : new.type <;> simp [hold, hnew] at hplain <;> rfl
  rw [getSignature, getSignature, htype, hproducers]

/-- The keys of the signatures of the directory tree that a node stands for. -/
def treeKey (node : DescribedNode) : Bytes :=
  makeDirectoryTreeSignature (directoryPath { name := node.name }) node.exclusionPatterns

def treeStructureKey (node : DescribedNode) : Bytes :=
  makeDirectoryTreeStructureSignature (directoryPath { name := node.name }) node.exclusionPatterns

/-- What the requests depend on is the same: the type of a node without producers, the key and the
must-scan-after paths of a directory and the key of a directory structure; for a node with
producers, whether it is a directory. -/
def SameRequests (old new : DescribedNode) : Prop :=
  if new.producers = [] then
    old.type = new.type
      ∧ (new.type = .directory →
        old.treeKey = new.treeKey ∧ old.mustScanAfterPaths = new.mustScanAfterPaths)
      ∧ (new.type = .directoryStructure → old.treeStructureKey = new.treeStructureKey)
  else old.isDirectory = new.isDirectory

theorem createTask_of_nil (node : DescribedNode) (h : node.producers = []) :
  node.createTask context = match node.type with
    | .plain | .virtual => inputNodeTask
    | .directory =>
        directoryInputNodeTask node.name node.exclusionPatterns node.mustScanAfterPaths
    | .directoryStructure => directoryStructureInputNodeTask node.name node.exclusionPatterns
  := by
  rw [createTask, h]
  cases htype : node.type <;> simp [BuildNode.isVirtual, BuildNode.isDirectory, htype]

theorem createTask_of_ne_nil (node : DescribedNode) (h : node.producers ≠ []) :
  node.createTask context = if node.isDirectory then
      producedDirectoryNodeTask context node.name node.producers
    else producedNodeTask context node.name node.producers
  := by
  rw [createTask, List.isEmpty_eq_false_iff.mpr h]
  rfl

/-- Nodes of the same name and producers that agree on what the requests depend on have the same
task. -/
theorem SameRequests.createTask_eq (h : SameRequests old new) (hname : old.name = new.name)
    (hproducers : old.producers = new.producers) :
  old.createTask context = new.createTask context
  := by
  rw [SameRequests] at h
  split_ifs at h with hempty
  · obtain ⟨htype, hdirectory, hstructure⟩ := h
    rw [createTask_of_nil context old (hproducers.trans hempty), createTask_of_nil context new hempty,
      htype]
    cases hnew : new.type with
    | plain | virtual => rfl
    | directory =>
      obtain ⟨hkey, hpaths⟩ := hdirectory hnew
      rw [treeKey, treeKey, hname] at hkey
      simp only [directoryInputNodeTask, directoryInputNodeTask.unblocked, hname, hkey, hpaths]
    | directoryStructure =>
      have hkey := hstructure hnew
      rw [treeStructureKey, treeStructureKey, hname] at hkey
      simp only [directoryStructureInputNodeTask, hname, hkey]
  · rw [createTask_of_ne_nil context old (by rwa [hproducers]), createTask_of_ne_nil context new hempty,
      h, hname, hproducers]

/-! ### What the requests tell -/

theorem foldl_requestMustScanAfterPath (paths : List Bytes) (s : BlockingDeps)
    (calls : List (TaskCall Bytes)) :
  paths.foldl requestMustScanAfterPath (s, calls)
    = ({ s with totalBlockingDeps := s.totalBlockingDeps + paths.length },
      calls ++ (paths.zipIdx (s.totalBlockingDeps + 1)).map
        fun path => .request (makeNode path.1) (UInt64.ofNat path.2))
  := by
  induction paths generalizing s calls with
  | nil => simp
  | cons path paths ih =>
    rw [List.foldl_cons, requestMustScanAfterPath, ih]
    simp [Nat.add_assoc, Nat.add_comm 1]

/-- A directory requests its must-scan-after paths, or the tree if there are none. -/
theorem respond_start_directory (name : Bytes) (patterns : StringList) (paths : List Bytes) :
  (directoryInputNodeTask name patterns paths : NodeTask Value).respond [.start]
    = (paths.zipIdx 1).map (fun path => .request (makeNode path.1) (UInt64.ofNat path.2))
      ++ if paths = [] then
          [.request (makeDirectoryTreeSignature (directoryPath { name }) patterns) 0]
        else []
  := by
  simp only [NodeTask.respond, List.foldl_cons, List.foldl_nil, directoryInputNodeTask,
    foldl_requestMustScanAfterPath, directoryInputNodeTask.unblocked]
  simp

/-- The tree is requested when the last of the must-scan-after paths is provided. -/
theorem respond_provided_directory (name : Bytes) (patterns : StringList) (paths : List Bytes)
    (hne : paths ≠ []) (value : Value) :
  (directoryInputNodeTask name patterns paths).respond
      (.start :: List.replicate paths.length (.provideValue 1 [] value))
    = [.request (makeDirectoryTreeSignature (directoryPath { name }) patterns) 0]
  := by
  have hstate (n : ℕ) (calls : List (TaskCall Bytes)) :
      (List.replicate n (LLBuild.Callback.provideValue 1 [] value)).foldl
        (fun next callback => (directoryInputNodeTask name patterns paths).step next.1 callback)
        (({ totalBlockingDeps := paths.length } : BlockingDeps), calls)
      = (({ totalBlockingDeps := paths.length, finishedBlockingDeps := n } : BlockingDeps),
        if n = 0 then calls else if n = paths.length then
          [.request (makeDirectoryTreeSignature (directoryPath { name }) patterns) 0] else []) := by
    induction n with
    | zero => rfl
    | succ n ih =>
      rw [List.replicate_succ', List.foldl_append, ih]
      simp [directoryInputNodeTask, directoryInputNodeTask.unblocked]
  obtain ⟨calls, hstart⟩ : ∃ calls, (directoryInputNodeTask name patterns paths).step
      ({} : BlockingDeps) (.start : LLBuild.Callback Bytes Value)
      = (({ totalBlockingDeps := paths.length } : BlockingDeps), calls) := by
    simp [directoryInputNodeTask, foldl_requestMustScanAfterPath]
  have hlength : paths.length ≠ 0 := by simpa using hne
  rw [NodeTask.respond, List.foldl_cons]
  change (List.foldl _ ((directoryInputNodeTask name patterns paths).step ({} : BlockingDeps)
    (.start : LLBuild.Callback Bytes Value)) _).2 = _
  rw [hstart]
  exact (congrArg Prod.snd (hstate paths.length calls)).trans
    (by rw [if_neg hlength, if_pos rfl])

/-- The first byte of the key of the first request. -/
def firstByte : List (TaskCall Bytes) → Option UInt8
  | .request key _ :: _ => key.head?
  | _ => none

theorem head?_twoPart {kindCode : UInt8} {name data : Bytes} (h : 1 + 4 + name.length < 2 ^ 32) :
  (twoPart kindCode name data).head? = some kindCode
  := by
  have hpos : (5 + name.length) % 2 ^ 32 = 4 + name.length + 1 := by
    rw [Nat.mod_eq_of_lt (by omega)]
    omega
  rw [twoPart_eq_memcpy kindCode data (by omega), hpos, memcpy]
  rfl

theorem firstByte_input :
  firstByte ((inputNodeTask : NodeTask Value).respond [.start]) = none
  := rfl

section

variable {name : Bytes} (patterns : StringList)
  (hpath : 1 + 4 + (directoryPath { name }).length < 2 ^ 32)
include hpath

theorem firstByte_directory (paths : List Bytes) :
  firstByte ((directoryInputNodeTask name patterns paths : NodeTask Value).respond [.start])
    = some (identifierForKind (if paths = [] then .directoryTreeSignature else .node))
  := by
  rw [respond_start_directory]
  cases paths with
  | nil => exact head?_twoPart hpath
  | cons path paths => rfl

theorem firstByte_directoryStructure :
  firstByte ((directoryStructureInputNodeTask name patterns : NodeTask Value).respond [.start])
    = some (identifierForKind .directoryTreeStructureSignature)
  := head?_twoPart hpath

/-- The requests of a directory tell its must-scan-after paths, and the key of its tree. -/
theorem directoryInputNodeTask_of_respond [Inhabited Value] {patterns patterns' : StringList}
    {paths paths' : List Bytes}
    (h : ∀ history, (directoryInputNodeTask name patterns paths : NodeTask Value).respond history
      = (directoryInputNodeTask name patterns' paths').respond history) :
  makeDirectoryTreeSignature (directoryPath { name }) patterns
      = makeDirectoryTreeSignature (directoryPath { name }) patterns'
    ∧ paths = paths'
  := by
  have hstart := h [.start]
  have hfirst := congrArg firstByte hstart
  rw [respond_start_directory, respond_start_directory] at hstart
  rw [firstByte_directory _ hpath, firstByte_directory _ hpath] at hfirst
  by_cases hnone : paths' = []
  · have hold : paths = [] := by
      by_contra hold
      rw [if_neg hold, if_pos hnone] at hfirst
      exact absurd hfirst (by decide)
    rw [hold, hnone] at hstart
    refine ⟨?_, hold.trans hnone.symm⟩
    simpa using hstart
  · have hold : paths ≠ [] := by
      intro hold
      rw [if_pos hold, if_neg hnone] at hfirst
      exact absurd hfirst (by decide)
    rw [if_neg hold, if_neg hnone, List.append_nil, List.append_nil] at hstart
    have hpaths : paths = paths' := by
      have hkeys := congrArg (List.filterMap fun
        | .request key _ => some (key.drop 1)
        | _ => none) hstart
      simpa [List.filterMap_map, Function.comp_def, makeNode, onePart] using hkeys
    refine ⟨?_, hpaths⟩
    have hprovided := h (.start :: List.replicate paths'.length (.provideValue 1 [] default))
    rw [hpaths, respond_provided_directory _ _ _ hnone, respond_provided_directory _ _ _ hnone]
      at hprovided
    simpa using hprovided

end

/-- The command that produces a node is chosen, and its value makes the node an existing input:
then a directory requests its tree. -/
theorem respond_produced_ne [Inhabited Value] (name : Bytes) {producers : List Bytes}
    (hne : producers ≠ []) :
  (producedDirectoryNodeTask (⟨fun _ _ => some [], fun _ _ _ => true⟩ : NodeContext Value) name
      producers).respond [.start, .provideValue 0 [] default]
    ≠ (producedNodeTask (⟨fun _ _ => some [], fun _ _ _ => true⟩ : NodeContext Value) name
      producers).respond [.start, .provideValue 0 [] default]
  := by
  obtain ⟨command, hcommand⟩ : ∃ command, getCommand
      (⟨fun _ _ => some [], fun _ _ _ => true⟩ : NodeContext Value) name producers
        = some command := by
    match producers, hne with
    | [producer], _ => exact ⟨producer, rfl⟩
    | producer :: producer' :: producers, _ => exact ⟨[], rfl⟩
  simp [NodeTask.respond, producedNodeTask, producedDirectoryNodeTask, hcommand]

/-- A node with another type or other paths, patterns and producers makes other requests, for some
values and choices of the delegate, if they are told apart. -/
theorem sameRequests_of_respond [Inhabited Value] (hname : old.name = new.name)
    (hsize : 1 + 4 + new.name.length < 2 ^ 32)
    (hproducers : old.producers = new.producers) (hplain : old.type = .plain ↔ new.type = .plain)
    (h : ∀ (context : NodeContext Value) history,
      (old.createTask context).respond history = (new.createTask context).respond history) :
  SameRequests old new
  := by
  have hpath : 1 + 4 + (directoryPath { name := new.name }).length < 2 ^ 32 := by
    rw [directoryPath]
    split_ifs <;> simp <;> omega
  rw [SameRequests]
  split_ifs with hempty
  · have h := h ⟨fun _ _ => none, fun _ _ _ => false⟩
    simp only [createTask_of_nil _ old (hproducers.trans hempty), createTask_of_nil _ new hempty,
      hname] at h
    have htype : old.type = new.type := by
      have hfirst := congrArg firstByte (h [.start])
      cases hold : old.type <;> cases hnew : new.type <;> first
        | rfl
        | (simp [hold, hnew] at hplain; done)
        | (simp only [hold, hnew, firstByte_directory _ hpath, firstByte_directoryStructure _ hpath,
            firstByte_input] at hfirst
           revert hfirst
           first | decide | (split_ifs <;> decide))
    rw [htype] at h
    refine ⟨htype, fun hnew => ?_, fun hnew => ?_⟩
    · simp only [hnew] at h
      rw [treeKey, treeKey, hname]
      exact directoryInputNodeTask_of_respond hpath h
    · simp only [hnew] at h
      have hstart := h [.start]
      simpa [NodeTask.respond, directoryStructureInputNodeTask, treeStructureKey, hname] using hstart
  · have hresponse := h ⟨fun _ _ => some [], fun _ _ _ => true⟩ [.start, .provideValue 0 [] default]
    rw [createTask_of_ne_nil _ old (by rwa [hproducers]), createTask_of_ne_nil _ new hempty, hname,
      hproducers] at hresponse
    cases hold : old.isDirectory <;> cases hnew : new.isDirectory
    case false.false | true.true => rfl
    case false.true =>
      rw [hold, hnew] at hresponse
      exact absurd hresponse.symm (respond_produced_ne new.name hempty)
    case true.false =>
      rw [hold, hnew] at hresponse
      exact absurd hresponse (respond_produced_ne new.name hempty)

section Rebuild

variable {H : Combiner} [Inhabited Value]

/-- The next build with another description of a node: the rule of the node is to be looked up,
it has the signature of the new description and its stored result the one of the old description.
The signatures of the engine are numbers, which are taken to be different for these two. -/
structure Rebuild (code : H.Signature → UInt64) (old new : DescribedNode)
    (client : Client Bytes Value) (s : Engine Bytes Value) : Prop where
  notLookedUp : s.ruleInfos.lookup (makeNode new.name) = none
  rule : client.lookupRule (makeNode new.name) = code (new.getSignature H)
  stored : (client.storedResult s.db (makeNode new.name)).signature
    = code (old.getSignature H)
  checks : client.checksDependenciesBeforeRunning (makeNode new.name) = false
  code_injective : code (old.getSignature H) = code (new.getSignature H) →
    old.getSignature H = new.getSignature H

/-- A node with another signature is evaluated again: its scan finds that it needs to run, and
its task is started when it is demanded. -/
theorem Rebuild.startTask
    {code : H.Signature → UInt64} {client : Client Bytes Value} {s : Engine Bytes Value}
    (h : Rebuild code old new client s) (hsignature : old.getSignature H ≠ new.getSignature H) :
  ∃ next, s.scanRule client (makeNode new.name) = (true, next)
    ∧ next.demandRule client (makeNode new.name)
      = (false, next.startTask client (makeNode new.name))
  := by
  have hinfo : s.ruleInfo client (makeNode new.name)
      = client.newRuleInfo s.db (makeNode new.name) := by
    rw [Engine.ruleInfo, h.notLookedUp, Option.getD_none]
  have hstate : (client.newRuleInfo s.db (makeNode new.name)).state = .incomplete := rfl
  obtain ⟨next, hscan, hneeds⟩ : ∃ next,
      s.scanRule client (makeNode new.name) = (true, next)
        ∧ (next.ruleInfo client (makeNode new.name)).state = .needsToRun := by
    apply Engine.scanRule_signatureChanged
    · rw [hinfo]
      simp [hstate, RuleState.kind, StateKind.isPastScanning]
    · rw [hinfo]
      simp [hstate, RuleState.kind]
    · apply h.checks
    · rw [hinfo]
      intro heq
      apply hsignature
      apply h.code_injective
      rw [← h.stored, ← h.rule]
      exact heq.symm
  exact ⟨next, hscan, Engine.demandRule_needsToRun hneeds⟩

/-- A node whose description is changed so that its task makes other requests has another
signature then, and is evaluated again in the next build: this holds exactly if descriptions with
the same producers, both or none of them plain, agree on what the requests depend on. -/
theorem getSignature_ne_of_respond_ne_iff
    (H : Combiner) {old new : DescribedNode} (hname : old.name = new.name)
    (hsize : 1 + 4 + new.name.length < 2 ^ 32) :
  (∀ (context : NodeContext Value) (history : List (LLBuild.Callback Bytes Value)),
    (old.createTask context).respond history ≠ (new.createTask context).respond history →
    old.getSignature H ≠ new.getSignature H
      ∧ ∀ (code : H.Signature → UInt64) (client : Client Bytes Value) (s : Engine Bytes Value),
        Rebuild code old new client s →
        ∃ next, s.scanRule client (makeNode new.name) = (true, next)
          ∧ next.demandRule client (makeNode new.name)
            = (false, next.startTask client (makeNode new.name)))
    ↔ (old.producers = new.producers → (old.type = .plain ↔ new.type = .plain) →
      SameRequests old new)
  := by
  constructor
  · intro hchanged hproducers hplain
    have hrespond (context : NodeContext Value) history :
        (old.createTask context).respond history = (new.createTask context).respond history := by
      by_contra hne
      exact (hchanged context history hne).1 (getSignature_eq_of_producers_eq H hproducers hplain)
    exact sameRequests_of_respond hname hsize hproducers hplain hrespond
  · intro hsame context history hne
    have hsignature : old.getSignature H ≠ new.getSignature H := by
      intro heq
      obtain ⟨hproducers, hplain⟩ := producers_eq_of_getSignature_eq heq
      apply hne
      rw [(hsame hproducers hplain).createTask_eq context hname hproducers]
    exact ⟨hsignature, fun code client s h => h.startTask hsignature⟩

end Rebuild

/-! ### Changes of descriptions -/

/-- A context where the delegate chooses no command. -/
def noChoice : NodeContext Bytes where
  chooseCommandFromMultipleProducers _ _ := none
  isExistingInput _ _ _ := false

/-- A file, and the file as the output of a command. -/
def sourceFile : DescribedNode := { name := ascii "a" }

def generatedFile : DescribedNode := { name := ascii "a", producers := [ascii "c"] }

/-- The build after a file has become the output of a command.  The signatures of the engine are
the numbers of the values that were taken in. -/
def generatedClient : Client Bytes Bytes where
  lookupRule _ := 2
  isResultValid _ _ := true
  checksDependenciesBeforeRunning _ := false
  mustCheckDependencyBeforeRunning _ _ := false
  createTask _ := { respond := fun _ => [], finish := fun _ => ⟨[], false, []⟩ }
  shouldResolveCycle _ _ _ _ := false
  dbError _ := none

def generatedBuild : Engine Bytes Bytes where
  currentEpoch := 2
  buildCancelled := false
  ruleInfos := ∅
  inputRequests := []
  finishedInputRequests := []
  ruleInfosToScan := []
  readyTaskInfos := []
  numOutstandingUnfinishedTasks := 0
  finishedTaskInfos := []
  db := some ⟨1, fun _ => some ⟨[], 1, 1, 1, []⟩⟩
  events := []
  trap := none

theorem getSignature_ne_of_respond_ne_generated :
  sourceFile.getSignature history ≠ generatedFile.getSignature history
    ∧ ∃ next, generatedBuild.scanRule generatedClient (makeNode (ascii "a"))
      = (true, next) ∧ next.demandRule generatedClient (makeNode (ascii "a"))
        = (false, next.startTask generatedClient (makeNode (ascii "a")))
  := by
  have hrequests : (sourceFile.createTask noChoice).respond [.start]
      ≠ (generatedFile.createTask noChoice).respond [.start] := by
    decide
  have hname : sourceFile.name = generatedFile.name := rfl
  have hproducers : sourceFile.producers ≠ generatedFile.producers := by decide
  have hne := (getSignature_ne_of_respond_ne_iff history hname (by decide)).mpr
    (fun heq => absurd heq hproducers) noChoice [.start] hrequests
  refine ⟨hne.1, hne.2 (fun signature => UInt64.ofNat signature.length) _ _ ?_⟩
  exact ⟨rfl, rfl, rfl, rfl, fun h => absurd h (by decide)⟩

/-- The signature of a directory does not change with its exclusion patterns, nor when it becomes
a directory structure, but the key that its task requests does. -/
theorem getSignature_directory :
  DescribedNode.getSignature history { name := ascii "d", type := .directory }
      = DescribedNode.getSignature history
        { name := ascii "d", type := .directory, exclusionPatterns := .ofString (ascii "x") }
    ∧ (createTask noChoice { name := ascii "d", type := .directory }).respond [.start]
      ≠ (createTask noChoice { name := ascii "d", type := .directory
                               exclusionPatterns := .ofString (ascii "x") }).respond [.start]
    ∧ DescribedNode.getSignature history { name := ascii "d", type := .directory }
      = DescribedNode.getSignature history
        { name := ascii "d", type := .directoryStructure }
    ∧ (createTask noChoice { name := ascii "d", type := .directory }).respond [.start]
      ≠ (createTask noChoice { name := ascii "d", type := .directoryStructure }).respond [.start]
  := by
  refine ⟨rfl, ?_, rfl, ?_⟩
  · decide
  · decide

end DescribedNode

end BuildSystem

end LLBuild

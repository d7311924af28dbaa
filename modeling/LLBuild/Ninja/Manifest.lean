import LLBuild.Basic.BinaryCoding
import LLBuild.Basic.Table
import LLBuild.Ninja.CommandTask

/-!
# Ninja manifests

What the loader makes of the files of a manifest: the scopes with the bindings and rules,
and the manifest with its nodes, pools and commands.  A rule has only parameters with valid
names.

Objects are shared by pointers in the loader.  A rule, a pool and a node do not change once
they can be referred to, so here they are held by value.
-/

namespace LLBuild.Ninja

open BinaryCoding

namespace Manifest

/-- A node represents a unique path. -/
structure Node where
  canonicalPath : Bytes
  screenPath : Bytes
  deriving DecidableEq

/-- A node as it appears in a command; `asWritten` is empty unless it differs from the screen
path of the node. -/
structure NodeInCommand where
  node : Node
  asWritten : Bytes
  deriving DecidableEq

namespace NodeInCommand

def ofPath (node : Node) (path : Bytes) : NodeInCommand :=
  ⟨node, if node.screenPath ≠ path then path else []⟩

def getScreenPath (n : NodeInCommand) : Bytes :=
  if n.asWritten = [] then n.node.screenPath else n.asWritten

end NodeInCommand

/-- A pool; the depth is `0` if it is not specified. -/
structure Pool where
  name : Bytes
  depth : UInt32 := 0
  deriving DecidableEq

namespace Rule

/-- The names of the parameters a rule can have. -/
def parameterNames : List Bytes :=
  [ascii "command", ascii "description", ascii "deps", ascii "depfile", ascii "generator",
    ascii "pool", ascii "restat", ascii "rspfile", ascii "rspfile_content"]

def isValidParameterName (name : Bytes) : Bool := parameterNames.contains name

end Rule

/-- A rule is a template for commands: the parameters are not expanded. -/
structure Rule where
  name : Bytes
  parameters : Table Bytes Bytes := ∅
  valid : ∀ x ∈ parameters, Rule.isValidParameterName x = true

namespace Rule

/-- A rule without parameters. -/
def empty (name : Bytes) : Rule where
  name := name
  valid x hx := absurd hx (AList.notMem_empty x)

/-- Set a parameter, or replace it. -/
def setParameter (rule : Rule) (name value : Bytes) (h : isValidParameterName name = true) :
    Rule where
  name := rule.name
  parameters := rule.parameters.insert name value
  valid x hx := by
    obtain rfl | hx := (AList.mem_insert _).mp hx
    · exact h
    · exact rule.valid x hx

end Rule

/-- The bindings and rules of a file. -/
structure Scope where
  entries : Table Bytes Bytes := ∅
  rules : Table Bytes Rule := ∅

/-- The binding of the innermost scope that has one; the first scope is the innermost. -/
def lookupBinding : List Scope → Bytes → Bytes
  | [], _ => []
  | scope :: parents, name =>
      match scope.entries.lookup name with
      | some value => value
      | none => lookupBinding parents name

/-- A command produces its outputs from its inputs. The explicit inputs come first, then
the implicit ones and the order-only ones, and the explicit outputs come before the implicit
ones. -/
structure Command where
  rule : Rule
  outputs : List Node
  inputs : List NodeInCommand
  numExplicitInputs : ℕ
  numImplicitInputs : ℕ
  numExplicitOutputs : ℕ
  parameters : Table Bytes Bytes := ∅
  executionPool : Option Pool := none
  commandString : Bytes := []
  description : Bytes := []
  depsFile : Bytes := []
  rspFile : Bytes := []
  rspFileContent : Bytes := []
  depsStyle : DepsStyleKind := .none
  isGenerator : Bool := false
  shouldRestat : Bool := false

namespace Command

def explicitInputs (decl : Command) : List NodeInCommand :=
  decl.inputs.take decl.numExplicitInputs

def explicitOutputs (decl : Command) : List Node :=
  decl.outputs.take decl.numExplicitOutputs

end Command

/-- The built-in console pool. -/
def consolePool : Pool := ⟨ascii "console", 1⟩

/-- The built-in phony rule. -/
def phonyRule : Rule := .empty (ascii "phony")

/-- The root scope as the loader finds it. -/
def rootScope : Scope where
  rules := (∅ : Table Bytes Rule).insert (ascii "phony") phonyRule

end Manifest

open Manifest

/-- A manifest represents the nodes, pools and commands of a build. -/
structure Manifest where
  nodes : Table Bytes Manifest.Node := ∅
  commands : List Manifest.Command := []
  pools : Table Bytes Pool := (∅ : Table Bytes Pool).insert (ascii "console") consolePool
  defaultTargets : List Manifest.Node := []

namespace Manifest

variable (normalizePath : Bytes → Option Bytes)

/-- The node of a path, if there is one. -/
def findNode (path : Bytes) (manifest : Manifest) : Option Node :=
  (normalizePath path).bind manifest.nodes.lookup

/-- The node of a path, which is created if necessary, unless the path has no normal form. -/
def findOrCreateNode (path : Bytes) (manifest : Manifest) : Option (Node × Manifest) :=
  (normalizePath path).map (fun canonicalPath =>
    match manifest.nodes.lookup canonicalPath with
    | some node => (node, manifest)
    | none =>
        let node := ⟨canonicalPath, path⟩
        (node, { manifest with nodes := manifest.nodes.insert canonicalPath node }))

variable {normalizePath : Bytes → Option Bytes}

/-- Every node is found under its path. -/
def Keyed (manifest : Manifest) : Prop :=
  ∀ path node, manifest.nodes.lookup path = some node → node.canonicalPath = path

theorem keyed_empty : ({} : Manifest).Keyed := nofun

/-- The node of a path is the one of the normal form of the path, and other nodes are kept. -/
theorem findOrCreateNode_spec {path : Bytes} {manifest manifest' : Manifest} {node : Node}
    (hkeyed : manifest.Keyed)
    (h : manifest.findOrCreateNode normalizePath path = some (node, manifest')) :
  normalizePath path = some node.canonicalPath ∧ manifest'.Keyed
    ∧ manifest'.nodes.lookup node.canonicalPath = some node
    ∧ ∀ other found, manifest.nodes.lookup other = some found →
      manifest'.nodes.lookup other = some found
  := by
  obtain ⟨canonicalPath, hpath, h⟩ := Option.map_eq_some_iff.mp h
  cases hlookup : manifest.nodes.lookup canonicalPath with
  | some found =>
    rw [hlookup] at h
    obtain ⟨rfl, rfl⟩ := Prod.mk.inj h
    have hfound := hkeyed canonicalPath found hlookup
    rw [hfound]
    exact ⟨hpath, hkeyed, hlookup, fun _ _ => id⟩
  | none =>
    rw [hlookup] at h
    obtain ⟨rfl, rfl⟩ := Prod.mk.inj h
    refine ⟨hpath, ?_, AList.lookup_insert _, ?_⟩
    · intro other found hother
      rw [Table.lookup_insert] at hother
      split_ifs at hother with heq
      · cases hother
        exact heq.symm
      · exact hkeyed other found hother
    · intro other found hother
      have hne : other ≠ canonicalPath := by
        rintro rfl
        rw [hother] at hlookup
        cases hlookup
      exact (AList.lookup_insert_ne hne).trans hother

/-- Nodes with the same path are the same. -/
theorem node_eq_iff {manifest : Manifest} {node node' : Node}
    (h : manifest.nodes.lookup node.canonicalPath = some node)
    (h' : manifest.nodes.lookup node'.canonicalPath = some node') :
  node = node' ↔ node.canonicalPath = node'.canonicalPath
  := by
  constructor
  · rintro rfl
    rfl
  · intro heq
    rw [heq, h'] at h
    exact (Option.some.inj h).symm

end Manifest

end LLBuild.Ninja

import LLBuild.BuildSystem.Signatures
import LLBuild.Ninja.Path

/-!
# The commands of the built-in tools

Apart from shell commands there are commands for the Swift compiler, for Clang, for archives, for
shared libraries and for symbolic links.  Each of them makes its command line from what it was
configured with, and says in its signature what this was.

No signature takes in all of it: the one of the Swift compiler leaves out whether the whole module
is optimized, the one of Clang the path of the dependencies, and so on.  The lists are taken in
without their lengths, too.  `Agrees` says what two commands of a tool that take in the same have to
have in common besides.
-/

namespace LLBuild.BuildSystem

open List

open BinaryCoding BuildNode Combiner HashedValue Ninja

/-- What a command does when it is executed. -/
inductive ToolAction
  /-- Run a process, and read the files of dependencies it leaves behind. -/
  | process (commandLine depsFiles : List Bytes)
  /-- Create a symbolic link. -/
  | link (path contents : Bytes)
  /-- Do nothing but report an error. -/
  | fail (message : Bytes)
  deriving DecidableEq

/-! ### The Swift compiler -/

structure SwiftCompilerShellCommand extends ExternalCommand where
  executable : Bytes := ascii "swiftc"
  moduleName : Bytes := []
  moduleAliases : List Bytes := []
  moduleOutputPath : Bytes := []
  sourcesList : List Bytes := []
  objectsList : List Bytes := []
  importPaths : List Bytes := []
  tempsPath : Bytes := []
  otherArgs : List Bytes := []
  isLibrary : Bool := false
  enableWholeModuleOptimization : Bool := false
  numThreads : Bytes := ascii "0"

namespace SwiftCompilerShellCommand

variable (c : SwiftCompilerShellCommand)

/-- What the signature takes in after that of the external command. -/
def signatureValues : List HashedValue :=
  [.string c.executable, .string c.moduleName]
    ++ c.moduleAliases.map string
    ++ [.string c.moduleOutputPath]
    ++ c.sourcesList.map string
    ++ c.objectsList.map string
    ++ c.importPaths.map string
    ++ [.string c.tempsPath]
    ++ c.otherArgs.map string
    ++ [.bool c.isLibrary]

def getOutputFileMapPath : Bytes :=
  Path.append (Path.append [] c.tempsPath) (ascii "output-file-map.json")

def constructCommandLineArgs (outputFileMapPath : Bytes) :
    List Bytes :=
  [c.executable, ascii "-module-name", c.moduleName]
    ++ c.moduleAliases.flatMap (fun nameAndAlias => [ascii "-module-alias", nameAndAlias])
    ++ [ascii "-emit-dependencies"]
    ++ (if c.moduleOutputPath ≠ [] then
        [ascii "-emit-module", ascii "-emit-module-path", c.moduleOutputPath]
      else [])
    ++ [ascii "-output-file-map", outputFileMapPath]
    ++ (if c.isLibrary then [ascii "-parse-as-library"] else [])
    ++ (if c.enableWholeModuleOptimization then
        [ascii "-whole-module-optimization", ascii "-num-threads", c.numThreads]
      else [ascii "-incremental"])
    ++ [ascii "-c"]
    ++ c.sourcesList
    ++ c.importPaths.flatMap (fun path => [ascii "-I", path])
    ++ c.otherArgs

/-- The files of dependencies that the output file map names: one for the module if the whole
module is optimized, and otherwise one for each source. -/
def depsFiles : List Bytes :=
  if c.enableWholeModuleOptimization then
    [Path.append (Path.append [] c.tempsPath) (c.moduleName ++ ascii ".d")]
  else
    zipWith (fun source object =>
      Path.append (Path.append [] (Path.parentPath object)) (Path.stem source ++ ascii ".d"))
      c.sourcesList c.objectsList

def executeExternalCommand : ToolAction :=
  if c.sourcesList = [] then .fail (ascii "no configured 'sources'")
  else if c.objectsList = [] then .fail (ascii "no configured 'objects'")
  else if c.moduleName = [] then .fail (ascii "no configured 'module-name'")
  else if c.tempsPath = [] then .fail (ascii "no configured 'temps-path'")
  else if c.sourcesList.length ≠ c.objectsList.length then
    .fail (ascii "'sources' and 'objects' are not the same size")
  else .process (c.constructCommandLineArgs c.getOutputFileMapPath) c.depsFiles

end SwiftCompilerShellCommand

/-! ### Clang -/

structure ClangShellCommand extends ExternalCommand where
  args : List Bytes := []
  depsPath : Bytes := []

namespace ClangShellCommand

variable (c : ClangShellCommand)

def signatureValues : List HashedValue := c.args.map .string

def executeExternalCommand : ToolAction :=
  .process c.args (if c.depsPath = [] then [] else [c.depsPath])

end ClangShellCommand

/-! ### Archives and shared libraries -/

variable (nodes : List BuildNode)

/-- The names of the nodes that are files. -/
def fileNames : List Bytes :=
  (nodes.filter (fun node => !node.isVirtual)).map name

/-- The name of the file to make; the other ones are reported as errors. -/
def firstFileName : Bytes :=
  (fileNames nodes).foldl (fun found name => if found = [] then name else found) []

structure ArchiveShellCommand extends ExternalCommand

namespace ArchiveShellCommand

/-- The arguments; the archiver may be named in the environment. -/
def getArgs (ar : Option Bytes) (c : ArchiveShellCommand) : List Bytes :=
  [ar.getD (ascii "ar"), ascii "cr", firstFileName c.outputs] ++ fileNames c.inputs

def executeExternalCommand (ar : Option Bytes) (c : ArchiveShellCommand) : ToolAction :=
  .process (c.getArgs ar) []

end ArchiveShellCommand

structure SharedLibraryShellCommand extends ExternalCommand where
  executable : Bytes := []
  compilerStyle : Bytes := []
  otherArgs : List Bytes := []

namespace SharedLibraryShellCommand

variable (c : SharedLibraryShellCommand)

def getArgs : List Bytes :=
  if c.compilerStyle = ascii "swiftc" then
    [c.executable, ascii "-emit-library"] ++ fileNames c.inputs
      ++ [ascii "-o", firstFileName c.outputs] ++ c.otherArgs
  else if c.compilerStyle = ascii "clang" then
    [c.executable] ++ fileNames c.inputs ++ [ascii "-o", firstFileName c.outputs] ++ c.otherArgs
      ++ [ascii "-shared"]
  else if c.compilerStyle = ascii "cl" then
    [c.executable] ++ fileNames c.inputs ++ [ascii "/o", firstFileName c.outputs, ascii "/LD",
      ascii "/MD", ascii "/link", ascii "MSVCRT.lib"]
  else []

def executeExternalCommand : ToolAction := .process c.getArgs []

end SharedLibraryShellCommand

/-! ### Symbolic links -/

/-- A command for a symbolic link, with its only output. -/
structure SymlinkConfiguration where
  inputs : List BuildNode := []
  output : BuildNode
  linkOutputPath : Bytes := []
  contents : Bytes := []

namespace SymlinkConfiguration

variable (c : SymlinkConfiguration)

def getActualOutputPath : Bytes :=
  if c.linkOutputPath = [] then c.output.name else c.linkOutputPath

def signatureValues : List HashedValue :=
  .string c.contents :: c.inputs.map (fun input => .string input.name)

def execute : ToolAction :=
  if c.getActualOutputPath = [] then .fail [] else .link c.getActualOutputPath c.contents

end SymlinkConfiguration

/-! ### The commands -/

inductive ToolCommand
  | swiftCompiler (c : SwiftCompilerShellCommand)
  | clang (c : ClangShellCommand)
  | archive (c : ArchiveShellCommand)
  | sharedLibrary (c : SharedLibraryShellCommand)
  | symlink (c : SymlinkConfiguration)

namespace ToolCommand

/-- The signature: that of the external command, and what the tool adds to it. -/
def getSignature (H : Combiner) : ToolCommand → H.Signature
  | swiftCompiler c => H.combineAll (c.toExternalCommand.getSignature H) c.signatureValues
  | clang c => H.combineAll (c.toExternalCommand.getSignature H) c.signatureValues
  | archive c => c.toExternalCommand.getSignature H
  | sharedLibrary c => c.toExternalCommand.getSignature H
  | symlink c => H.combineAll (H.ofString c.output.name) c.signatureValues

/-- What the signature starts with, and what it takes in. -/
def told : ToolCommand → Bytes × List HashedValue
  | swiftCompiler c => (c.name, c.toExternalCommand.signatureValues ++ c.signatureValues)
  | clang c => (c.name, c.toExternalCommand.signatureValues ++ c.signatureValues)
  | archive c => (c.name, c.signatureValues)
  | sharedLibrary c => (c.name, c.signatureValues)
  | symlink c => (c.output.name, c.signatureValues)

/-- What the command does, with what the environment has for `AR`. -/
def action (ar : Option Bytes) : ToolCommand → ToolAction
  | swiftCompiler c => c.executeExternalCommand
  | clang c => c.executeExternalCommand
  | archive c => c.executeExternalCommand ar
  | sharedLibrary c => c.executeExternalCommand
  | symlink c => c.execute

end ToolCommand

/-- Commands with the same inputs and outputs being files. -/
def ExternalCommand.SameFiles (c d : ExternalCommand) : Prop :=
  c.inputs.map isVirtual = d.inputs.map isVirtual
    ∧ c.outputs.map isVirtual = d.outputs.map isVirtual

/-- Two commands of a tool agree on what the signature does not tell. -/
def ToolCommand.Agrees : ToolCommand → ToolCommand → Prop
  | swiftCompiler c, swiftCompiler d =>
      c.moduleAliases.length = d.moduleAliases.length
        ∧ c.sourcesList.length = d.sourcesList.length
        ∧ c.objectsList.length = d.objectsList.length
        ∧ c.importPaths.length = d.importPaths.length
        ∧ c.otherArgs.length = d.otherArgs.length
        ∧ c.enableWholeModuleOptimization = d.enableWholeModuleOptimization
        ∧ (c.enableWholeModuleOptimization = true → c.numThreads = d.numThreads)
  | clang c, clang d => c.args.length = d.args.length ∧ c.depsPath = d.depsPath
  | archive c, archive d => c.SameFiles d.toExternalCommand
  | sharedLibrary c, sharedLibrary d =>
      c.SameFiles d.toExternalCommand ∧ c.executable = d.executable
        ∧ c.compilerStyle = d.compilerStyle ∧ c.otherArgs = d.otherArgs
  | symlink c, symlink d => c.linkOutputPath = d.linkOutputPath
  | _, _ => False

/-! ### What the signatures tell -/

variable {before' before : List HashedValue}

/-- Lists of strings that are taken in one after the other are told apart if they are equally
long. -/
theorem map_string_append_inj
    {strings strings' : List Bytes} (hlength : strings.length = strings'.length)
    (h : before ++ strings.map .string = before' ++ strings'.map .string) :
  before = before' ∧ strings = strings'
  := by
  obtain ⟨hbefore, hstrings⟩ := append_inj' h (by simp [hlength])
  exact ⟨hbefore, map_string_injective hstrings⟩

theorem string_append_inj
    {string string' : Bytes} (h : before ++ [.string string] = before' ++ [.string string']) :
  before = before' ∧ string = string'
  := by
  obtain ⟨hbefore, hstring⟩ := append_inj' h rfl
  exact ⟨hbefore, HashedValue.string.inj (cons.inj hstring).1⟩

variable {c d : SwiftCompilerShellCommand}

/-- The commands of the Swift compiler that agree on the lengths of their lists are told apart but
for the optimization. -/
theorem SwiftCompilerShellCommand.signatureValues_injective
    (haliases : c.moduleAliases.length = d.moduleAliases.length)
    (hsources : c.sourcesList.length = d.sourcesList.length)
    (hobjects : c.objectsList.length = d.objectsList.length)
    (himports : c.importPaths.length = d.importPaths.length)
    (hother : c.otherArgs.length = d.otherArgs.length) (h : c.signatureValues = d.signatureValues) :
  c.executable = d.executable ∧ c.moduleName = d.moduleName
    ∧ c.moduleAliases = d.moduleAliases ∧ c.moduleOutputPath = d.moduleOutputPath
    ∧ c.sourcesList = d.sourcesList ∧ c.objectsList = d.objectsList
    ∧ c.importPaths = d.importPaths ∧ c.tempsPath = d.tempsPath ∧ c.otherArgs = d.otherArgs
    ∧ c.isLibrary = d.isLibrary
  := by
  obtain ⟨h, hlibrary⟩ := append_inj' h rfl
  obtain ⟨h, hother⟩ := map_string_append_inj hother h
  obtain ⟨h, htemps⟩ := string_append_inj h
  obtain ⟨h, himports⟩ := map_string_append_inj himports h
  obtain ⟨h, hobjects⟩ := map_string_append_inj hobjects h
  obtain ⟨h, hsources⟩ := map_string_append_inj hsources h
  obtain ⟨h, houtput⟩ := string_append_inj h
  obtain ⟨h, haliases⟩ := map_string_append_inj haliases h
  simp only [cons.injEq, string.injEq, bool.injEq, and_true]
    at h hlibrary
  exact ⟨h.1, h.2, haliases, houtput, hsources, hobjects, himports, htemps, hother, hlibrary⟩

/-- Commands of the Swift compiler with equally long lists take in equally many values. -/
theorem SwiftCompilerShellCommand.length_signatureValues (c : SwiftCompilerShellCommand) :
  c.signatureValues.length
    = c.moduleAliases.length + c.sourcesList.length + c.objectsList.length
      + c.importPaths.length + c.otherArgs.length + 5
  := by
  simp only [signatureValues, length_append, length_map, length_cons, length_nil]
  omega

open SymlinkConfiguration

open SharedLibraryShellCommand

theorem fileNames_congr
    {nodes others : List BuildNode} (hname : nodes.map name = others.map name)
    (hvirtual : nodes.map isVirtual = others.map isVirtual) :
  fileNames nodes = fileNames others
  := by
  induction nodes generalizing others with
  | nil =>
    obtain rfl := map_eq_nil_iff.mp hname.symm
    rfl
  | cons node nodes ih =>
    cases others with
    | nil => cases hname
    | cons other others =>
      rw [map_cons, map_cons, cons.injEq] at hname hvirtual
      have hrest : (nodes.filter (!·.isVirtual)).map name
          = (others.filter (!·.isVirtual)).map name :=
        ih hname.2 hvirtual.2
      rw [fileNames, fileNames, filter_cons, filter_cons, hvirtual.1]
      split_ifs
      · rw [map_cons, map_cons, hname.1, hrest]
      · apply hrest

/-- External commands that take in the same have the same files, if the same nodes are. -/
theorem ExternalCommand.fileNames_eq
    {c d : ExternalCommand} (hfiles : c.SameFiles d) (h : c.signatureValues = d.signatureValues) :
  fileNames c.inputs = fileNames d.inputs ∧ fileNames c.outputs = fileNames d.outputs
  := by
  have hinputs : c.inputs.length = d.inputs.length := by
    rw [← length_map isVirtual, hfiles.1, length_map]
  obtain ⟨hinputs, houtputs, -⟩ := signatureValues_injective hinputs h
  exact ⟨fileNames_congr hinputs hfiles.1, fileNames_congr houtputs hfiles.2⟩

/-! ### Actions -/

/-- Commands of the Swift compiler that agree do the same if what is taken in is the same; the
number of threads counts only where the whole module is optimized. -/
theorem SwiftCompilerShellCommand.executeExternalCommand_eq
    (hagrees : (ToolCommand.swiftCompiler c).Agrees (.swiftCompiler d))
    (h : c.signatureValues = d.signatureValues) :
  c.executeExternalCommand = d.executeExternalCommand
  := by
  obtain ⟨haliases, hsources, hobjects, himports, hother, hwhole, hthreads⟩ := hagrees
  obtain ⟨hexecutable, hmodule, haliases, houtput, hsources, hobjects, himports, htemps, hother,
    hlibrary⟩ := signatureValues_injective haliases hsources hobjects himports hother h
  have hfiles : c.depsFiles = d.depsFiles := by
    rw [depsFiles, depsFiles, hwhole, htemps, hmodule, hsources, hobjects]
  have hmap : c.getOutputFileMapPath = d.getOutputFileMapPath := by
    rw [getOutputFileMapPath, getOutputFileMapPath, htemps]
  have hargs (path : Bytes) :
      c.constructCommandLineArgs path = d.constructCommandLineArgs path := by
    rw [constructCommandLineArgs, constructCommandLineArgs, hexecutable, hmodule, haliases,
      houtput, hlibrary, hsources, himports, hother]
    by_cases h : c.enableWholeModuleOptimization = true
    · rw [hthreads h, hwhole]
    · rw [← hwhole, if_neg h, if_neg h]
  rw [executeExternalCommand, executeExternalCommand, hargs, hmap, hfiles, hsources, hobjects,
    hmodule, htemps]

theorem ToolCommand.getSignature_eq {H : Combiner} (c : ToolCommand) :
  c.getSignature H = H.combineAll (H.ofString c.told.1) c.told.2
  := by
  cases c <;> simp only [getSignature, told, combineAll_append] <;> rfl

/-- Signatures are equal exactly if they take in the same. -/
theorem ToolCommand.getSignature_eq_iff
    {H : Combiner} (hstring : Function.Injective H.ofString) {c d : ToolCommand} :
  c.getSignature H = d.getSignature H ↔ c.told = d.told
  := by
  rw [getSignature_eq, getSignature_eq, combineAll_eq_iff (H.taken_ofString _ _), hstring.eq_iff,
    Prod.ext_iff]

/-- Commands of a tool that take in the same and agree on the rest do the same. -/
theorem ToolCommand.action_eq_of_told
    {c d : ToolCommand} (hagrees : c.Agrees d) (h : c.told = d.told) (ar : Option Bytes) :
  c.action ar = d.action ar
  := by
  cases c with
  | swiftCompiler c =>
    cases d with
    | swiftCompiler d =>
      have hlength : c.signatureValues.length = d.signatureValues.length := by
        obtain ⟨haliases, hsources, hobjects, himports, hother, -⟩ := hagrees
        rw [SwiftCompilerShellCommand.length_signatureValues,
          SwiftCompilerShellCommand.length_signatureValues, haliases, hsources, hobjects,
          himports, hother]
      apply SwiftCompilerShellCommand.executeExternalCommand_eq hagrees
      exact append_inj_right' (Prod.mk.inj h).2 hlength
    | _ => cases hagrees
  | clang c =>
    cases d with
    | clang d =>
      obtain ⟨hlength, hpath⟩ := hagrees
      have hargs : c.args = d.args := by
        apply map_string_injective
        exact append_inj_right' (Prod.mk.inj h).2 (by simp [hlength])
      rw [action, action, ClangShellCommand.executeExternalCommand,
        ClangShellCommand.executeExternalCommand, hargs, hpath]
    | _ => cases hagrees
  | archive c =>
    cases d with
    | archive d =>
      obtain ⟨hinputs, houtputs⟩ := ExternalCommand.fileNames_eq hagrees (Prod.mk.inj h).2
      rw [action, action, ArchiveShellCommand.executeExternalCommand,
        ArchiveShellCommand.executeExternalCommand, ArchiveShellCommand.getArgs,
        ArchiveShellCommand.getArgs, firstFileName, firstFileName, hinputs, houtputs]
    | _ => cases hagrees
  | sharedLibrary c =>
    cases d with
    | sharedLibrary d =>
      obtain ⟨hfiles, hexecutable, hstyle, hother⟩ := hagrees
      obtain ⟨hinputs, houtputs⟩ := ExternalCommand.fileNames_eq hfiles (Prod.mk.inj h).2
      rw [action, action, executeExternalCommand, executeExternalCommand, getArgs,
        getArgs, firstFileName, firstFileName, hinputs, houtputs,
        hexecutable, hstyle, hother]
    | _ => cases hagrees
  | symlink c =>
    cases d with
    | symlink d =>
      obtain ⟨houtput, hvalues⟩ := Prod.mk.inj h
      have hcontents : c.contents = d.contents :=
        string.inj (cons.inj hvalues).1
      rw [action, action, execute, execute, getActualOutputPath, getActualOutputPath,
        hagrees, houtput, hcontents]
    | _ => cases hagrees

/-- Commands of a tool that agree on what their signatures do not tell, or differ in what these
take in, do the same if the signatures are equal. -/
theorem ToolCommand.action_eq_of_getSignature_eq
    {H : Combiner} (hstring : Function.Injective H.ofString) {c d : ToolCommand}
    (hagrees : c.told = d.told → c.Agrees d) (h : c.getSignature H = d.getSignature H)
    (ar : Option Bytes) :
  c.action ar = d.action ar
  := by
  have htold := (getSignature_eq_iff hstring).mp h
  exact action_eq_of_told (hagrees htold) htold ar

namespace ToolSamples

/-- A module of one source. -/
def module : SwiftCompilerShellCommand where
  name := ascii "S"
  moduleName := ascii "M"
  sourcesList := [ascii "a.swift"]
  objectsList := [ascii "o/a.o"]
  importPaths := [ascii "i"]
  tempsPath := ascii "t"

/-- A source for Clang. -/
def compile : ClangShellCommand where
  name := ascii "C"
  args := [ascii "clang", ascii "-c", ascii "a.c"]

/-- An object and something else that go to the inputs of a library. -/
def library (other : BuildNode) : ExternalCommand where
  name := ascii "L"
  inputs := [{ name := ascii "a.o" }, other]
  outputs := [{ name := ascii "a.a" }]

def shared : SharedLibraryShellCommand where
  toExternalCommand := library { name := ascii "b.o" }
  executable := ascii "clang"
  compilerStyle := ascii "clang"

def link : SymlinkConfiguration where
  output := { name := ascii "l" }
  contents := ascii "a"

end ToolSamples

open ToolSamples

/-- The number of threads does not matter where the module is compiled incrementally. -/
theorem ToolCommand.action_eq_of_getSignature_eq_threads :
  (swiftCompiler module).getSignature history
      = (swiftCompiler { module with numThreads := ascii "4" }).getSignature history
    ∧ (swiftCompiler module).action none
      = (swiftCompiler { module with numThreads := ascii "4" }).action none
  := by
  have hagrees : (swiftCompiler module).Agrees
      (swiftCompiler { module with numThreads := ascii "4" }) := by
    refine ⟨rfl, rfl, rfl, rfl, rfl, rfl, ?_⟩
    intro h
    cases h
  have hsignature : (swiftCompiler module).getSignature history
      = (swiftCompiler { module with numThreads := ascii "4" }).getSignature history := by
    decide +kernel
  exact ⟨hsignature, action_eq_of_getSignature_eq history_ofString_injective (fun _ => hagrees)
    hsignature none⟩

/-- For each of the tools, commands with equal signatures that do different things: with the whole
module optimized or not, with a path in another list, with other dependencies, with an input that
is a file or not, with other arguments, and with another path of the link. -/
theorem ToolCommand.action_ne_of_untold :
  Function.Injective history.ofString
    ∧ ((swiftCompiler module).getSignature history
        = (swiftCompiler { module with
            enableWholeModuleOptimization := true }).getSignature history
      ∧ (swiftCompiler module).action none
        ≠ (swiftCompiler { module with enableWholeModuleOptimization := true }).action none)
    ∧ ((swiftCompiler module).getSignature history
        = (swiftCompiler { module with
            importPaths := [], tempsPath := ascii "i", otherArgs := [ascii "t"] }).getSignature
          history
      ∧ (swiftCompiler module).action none
        ≠ (swiftCompiler { module with
            importPaths := [], tempsPath := ascii "i", otherArgs := [ascii "t"] }).action none)
    ∧ ((clang compile).getSignature history
        = (clang { compile with depsPath := ascii "a.d" }).getSignature history
      ∧ (clang compile).action none ≠ (clang { compile with depsPath := ascii "a.d" }).action none)
    ∧ ((archive ⟨library { name := ascii "b.o" }⟩).getSignature history
        = (archive ⟨library { name := ascii "b.o", type := .virtual }⟩).getSignature
          history
      ∧ (archive ⟨library { name := ascii "b.o" }⟩).action none
        ≠ (archive ⟨library { name := ascii "b.o", type := .virtual }⟩).action none)
    ∧ ((sharedLibrary shared).getSignature history
        = (sharedLibrary { shared with otherArgs := [ascii "-g"] }).getSignature history
      ∧ (sharedLibrary shared).action none
        ≠ (sharedLibrary { shared with otherArgs := [ascii "-g"] }).action none)
    ∧ ((symlink link).getSignature history
        = (symlink { link with linkOutputPath := ascii "m" }).getSignature history
      ∧ (symlink link).action none
        ≠ (symlink { link with linkOutputPath := ascii "m" }).action none)
  := by
  refine ⟨history_ofString_injective, ?_⟩
  decide +kernel

end LLBuild.BuildSystem

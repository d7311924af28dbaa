import LLBuild.BuildSystem.Command
import Mathlib.Logic.Relation

/-!
# Failures in a build

`Build` is what a build leaves behind: the values of the commands, nodes and directories
that were asked for, each of which is what its task makes of the values it requests, in
whatever order these come.  A command that is not run keeps the value of an earlier run on
the same values of its inputs.

* A failure of a command reaches every command downstream (`failure_propagates`), unless it
  has to pass an abstract output of a phony command, which is good by design
  (`phony_stops_failure`).
* A directory that is an output of a failed command is a failed input
  (`failure_of_directory`).  The signature of a directory tree, however, is a good value even
  if it is made from failed inputs, so failures inside a directory, or of a command that
  makes the directory under another name, are lost (`directory_hides_failure`).
-/

namespace LLBuild

open BinaryCoding BuildValue

namespace BuildSystem

/-! ### Directories -/

/-- The functions that hashes of directory trees are made with. -/
structure SignatureHash where
  value : Bytes → UInt64
  range : Bytes → UInt64
  combine : UInt64 → UInt64 → UInt64

/-- What a directory tree has at a name. -/
structure SubpathInfo where
  filename : Bytes
  value : BuildValue
  directorySignatureValue : Option BuildValue

namespace DirectoryContentsTask

/-- The contents of a directory, from the value of its node. -/
def inputsAvailable (directoryValue : BuildValue) (filenames : CStrings) : Option BuildValue :=
  match directoryValue.kind with
  | .missingInput | .missingOutput => some makeMissingInput
  | .failedInput => some makeFailedInput
  | .skippedCommand => some makeSkippedCommand
  | _ => (directoryValue.getNthOutputInfo 0).map (fun info => makeDirectoryContents info filenames)

end DirectoryContentsTask

namespace DirectoryTreeSignatureTask

/-- The hash of the values of a directory and of what is in it. -/
def inputsAvailable (h : SignatureHash) (path : Bytes) (directoryValue : BuildValue)
    (childResults : List SubpathInfo) : BuildValue :=
  makeDirectoryTreeSignature (childResults.foldl (fun code info =>
      h.combine (h.combine code (h.range info.value.toData))
        (match info.directorySignatureValue with
        | some value => h.range value.toData
        | none => 0xC183979C3E98722E))
    (h.combine (h.value path) (h.range directoryValue.toData)))

end DirectoryTreeSignatureTask

/-- Whether there is a directory. -/
def isDirectoryInfo (info : FileInfo) : Bool :=
  info.mode &&& 0x4000 ≠ 0

/-- The path of what a directory has at a name. -/
def childPath (path filename : Bytes) : Bytes :=
  path ++ '/'.toUInt8 :: filename

/-- The path of a directory node, without a slash at the end. -/
def directoryPath (node : BuildNode) : Bytes :=
  if node.name.getLast? = some '/'.toUInt8 ∧ node.name ≠ ['/'.toUInt8] then node.name.dropLast
  else node.name

/-! ### Builds -/

/-- The commands, and the nodes by their names. -/
structure BuildDescription where
  commands : List Command
  lookupNode : Bytes → BuildNode

/-- The commands that have the node among their outputs. -/
def BuildDescription.producers (d : BuildDescription) (node : BuildNode) : List Command :=
  d.commands.filter (fun c => node ∈ c.outputs)

/-- A value of an external command in a build without vetoes, and whether the command is
executed in the build: that of a run, or that of an earlier run which is still valid. -/
inductive Completes (c : ExternalCommand) (node : BuildNode → BuildValue) :
    BuildValue → Bool → Prop where
  | ran (r : TaskRun c node) (hstart : r.shouldCommandStart = true) (callbacks : List Callback)
      (value : BuildValue) (hresult : r.result = some (callbacks, value)) :
      Completes c node value (decide (.commandStarted ∈ callbacks))
  | kept (r : TaskRun c node) (hstart : r.shouldCommandStart = true) (callbacks : List Callback)
      (value : BuildValue) (hresult : r.result = some (callbacks, value)) (fs : FileSystem)
      (hvalid : c.isResultValid fs value = true) :
      Completes c node value false

/-- What a build of a description leaves behind. -/
structure Build (d : BuildDescription) (h : SignatureHash) where
  fs : FileSystem
  listing : Bytes → CStrings
  commands : List Command
  nodes : List BuildNode
  directories : List Bytes
  command : Command → BuildValue
  executed : Command → Bool
  node : BuildNode → BuildValue
  directoryContents : Bytes → BuildValue
  directoryTreeSignature : Bytes → BuildValue
  /-- A virtual node that no command produces. -/
  virtualInput : ∀ n ∈ nodes, d.producers n = [] → n.type = .virtual → node n = makeVirtualInput
  /-- A file that no command produces. -/
  fileInput : ∀ n ∈ nodes, d.producers n = [] → n.type = .plain →
    node n = if (fs n.name).isMissing then makeMissingInput else makeExistingInput (fs n.name)
  /-- A directory that no command produces. -/
  directoryInput : ∀ n ∈ nodes, d.producers n = [] → n.type = .directory →
    directoryPath n ∈ directories ∧ node n = directoryTreeSignature (directoryPath n)
  /-- A node that a command produces. -/
  produced : ∀ n ∈ nodes, ∀ p ∈ d.commands, d.producers n = [p] → p ∈ commands
    ∧ (n.type ≠ .directory → p.getResultForOutput n (command p) = some (node n))
  /-- A directory that a command produces. -/
  producedDirectory : ∀ n ∈ nodes, ∀ p ∈ d.commands, d.producers n = [p] → n.type = .directory →
    ∀ result ∈ p.getResultForOutput n (command p),
      if result.kind = .existingInput then
        directoryPath n ∈ directories ∧ node n = directoryTreeSignature (directoryPath n)
      else node n = result
  contents : ∀ path ∈ directories, d.lookupNode path ∈ nodes
    ∧ DirectoryContentsTask.inputsAvailable (node (d.lookupNode path)) (listing path)
      = some (directoryContents path)
  /-- The signature of a directory tree, from the nodes and directories in it. -/
  signature : ∀ path ∈ directories,
    let names := if (directoryContents path).kind = .directoryContents then (listing path).values
      else []
    let children := names.map (fun filename => d.lookupNode (childPath path filename))
    (∀ child ∈ children, child ∈ nodes)
    ∧ directoryTreeSignature path = DirectoryTreeSignatureTask.inputsAvailable h path
      (directoryContents path) (names.map (fun filename =>
        let value := node (d.lookupNode (childPath path filename))
        { filename := filename
          value := value
          directorySignatureValue :=
            if value.kind = .existingInput
              ∧ (value.getNthOutputInfo 0).map isDirectoryInfo = some true then
              some (directoryTreeSignature (childPath path filename))
            else none }))
  inputs : ∀ c, .external c ∈ commands → ∀ n ∈ c.inputs, n ∈ nodes
  completes : ∀ c, .external c ∈ commands →
    Completes c node (command (.external c)) (executed (.external c))

/-! ### A command with a bad input -/

/-- The input makes the command be skipped. -/
def ExternalCommand.Rejects (c : ExternalCommand) (value : BuildValue) : Prop :=
  value.kind = .failedInput ∨ value.kind = .missingInput ∧ c.allowMissingInputs = false

section Skip

variable {c : ExternalCommand}

/-- A command is only ever skipped because of an input that it rejects, as a propagated
failure. -/
theorem getSkipValueForInput_eq
    {value skip : BuildValue} (h : c.getSkipValueForInput value = some (some skip)) :
  skip = makePropagatedFailureCommand ∧ c.Rejects value
  := by
  rw [ExternalCommand.getSkipValueForInput] at h
  split at h
  case h_7 hkind =>
      split_ifs at h with hallow
      · cases h
      · cases h
        exact ⟨rfl, .inr ⟨hkind, by simpa using hallow⟩⟩
  case h_8 hkind =>
      cases h
      exact ⟨rfl, .inl hkind⟩
  all_goals cases h

theorem getSkipValueForInput_of_rejects {value : BuildValue} (h : c.Rejects value) :
  c.getSkipValueForInput value = some (some makePropagatedFailureCommand)
  := by
  rw [ExternalCommand.getSkipValueForInput]
  rcases h with h | ⟨h, hallow⟩
  · rw [h]
  · simp [h, hallow]

variable {s s' : ExternalCommand.State}

theorem provideValue_of_rejects
    {inputID : ℕ} {key : Bytes} {value : BuildValue}
    (hrejects : c.Rejects value) (h : c.provideValue s inputID key value = some s') :
  s'.skipValue = some makePropagatedFailureCommand
  := by
  rw [ExternalCommand.provideValue, getSkipValueForInput_of_rejects hrejects] at h
  split at h
  case h_6 =>
      cases h
      rfl
  all_goals
    next hkind =>
      rcases hrejects with hrejects | ⟨hrejects, -⟩ <;> rw [hrejects] at hkind <;> cases hkind

theorem provideValue_of_skip
    {inputID : ℕ} {key : Bytes} {value : BuildValue}
    (hskip : s.skipValue = some makePropagatedFailureCommand)
    (h : c.provideValue s inputID key value = some s') :
  s'.skipValue = some makePropagatedFailureCommand
  := by
  rw [ExternalCommand.provideValue] at h
  split at h
  case h_6 =>
      obtain ⟨skip, hskip', rfl⟩ := Option.map_eq_some_iff.mp h
      cases skip with
      | some skip => rw [(getSkipValueForInput_eq hskip').1]
      | none =>
        split_ifs <;> apply hskip
  all_goals
    cases h
    apply hskip

/-- A rejected input among those provided, in any order, makes the command be skipped. -/
theorem provideValues_of_rejects
    {provided : List (ℕ × Bytes × BuildValue)}
    (h : c.provideValues s provided = some s')
    (hbad : s.skipValue = some makePropagatedFailureCommand
      ∨ ∃ i key value, (i, key, value) ∈ provided ∧ c.Rejects value) :
  s'.skipValue = some makePropagatedFailureCommand
  := by
  induction provided generalizing s with
  | nil =>
    cases h
    rcases hbad with hskip | ⟨i, key, value, hmem, -⟩
    · apply hskip
    · cases hmem
  | cons input provided ih =>
    obtain ⟨s₁, hs₁, h⟩ := Option.bind_eq_some_iff.mp h
    apply ih h
    rcases hbad with hskip | ⟨i', key', value', hmem, hrejects⟩
    · exact .inl (provideValue_of_skip hskip hs₁)
    · rcases List.mem_cons.mp hmem with heq | hmem
      · cases heq
        exact .inl (provideValue_of_rejects hrejects hs₁)
      · exact .inr ⟨i', key', value', hmem, hrejects⟩

/-- Inputs that are not rejected do not make the command be skipped. -/
theorem provideValue_of_not_rejects
    {inputID : ℕ} {key : Bytes} {value : BuildValue}
    (hrejects : ¬c.Rejects value) (h : c.provideValue s inputID key value = some s') :
  s'.skipValue = s.skipValue ∧ s'.hasPriorResult = s.hasPriorResult
  := by
  rw [ExternalCommand.provideValue] at h
  split at h
  case h_6 =>
      obtain ⟨skip, hskip, rfl⟩ := Option.map_eq_some_iff.mp h
      cases skip with
      | some skip =>
        exfalso
        apply hrejects
        apply (getSkipValueForInput_eq hskip).2
      | none =>
        split_ifs <;> exact ⟨rfl, rfl⟩
  all_goals
    cases h
    exact ⟨rfl, rfl⟩

theorem provideValues_of_not_rejects
    {provided : List (ℕ × Bytes × BuildValue)} (hrejects : ∀ input ∈ provided, ¬c.Rejects input.2.2)
    (h : c.provideValues s provided = some s') :
  s'.skipValue = s.skipValue ∧ s'.hasPriorResult = s.hasPriorResult
  := by
  induction provided generalizing s with
  | nil =>
    cases h
    exact ⟨rfl, rfl⟩
  | cons input provided ih =>
    obtain ⟨s₁, hs₁, h⟩ := Option.bind_eq_some_iff.mp h
    obtain ⟨hskip₁, hprior₁⟩ :=
      provideValue_of_not_rejects (hrejects input List.mem_cons_self) hs₁
    obtain ⟨hskip, hprior⟩ :=
      ih (fun input hinput => hrejects input (List.mem_cons_of_mem _ hinput)) h
    exact ⟨hskip.trans hskip₁, hprior.trans hprior₁⟩

theorem execute_of_skip
    (c : ExternalCommand) {s : ExternalCommand.State} {skip : BuildValue}
    (h : s.skipValue = some skip) (x : Execution) :
  ∃ callbacks, c.execute s x = some (callbacks, skip) ∧ .commandStarted ∉ callbacks
  := by
  rw [ExternalCommand.execute, h]
  split_ifs <;> simp

/-- The value of a command that is skipped because of an input. -/
def IsSkipped (value : BuildValue) : Prop :=
  value = makePropagatedFailureCommand ∨ value = makeCancelledCommand

variable {node : BuildNode → BuildValue}

theorem TaskRun.skipValue_started (r : TaskRun c node) :
  r.started.skipValue = none
  := by
  rw [started]
  cases r.prior with
  | none => rfl
  | some value =>
    dsimp only [ExternalCommand.providePriorValue]
    split_ifs <;> rfl

/-- A run on an input that is rejected does not execute the command. -/
theorem TaskRun.result_of_rejects
    (r : TaskRun c node) (hstart : r.shouldCommandStart = true)
    (hbad : ∃ i key bad, (i, key, bad) ∈ r.provided ∧ c.Rejects bad) {callbacks : List Callback}
    {value : BuildValue} (hresult : r.result = some (callbacks, value)) :
  .commandStarted ∉ callbacks ∧ IsSkipped value
  := by
  obtain ⟨s, hs, hjob⟩ := Option.bind_eq_some_iff.mp hresult
  have hskip : s.skipValue = some makePropagatedFailureCommand :=
    provideValues_of_rejects hs (.inr hbad)
  obtain ⟨reported, hexecute, hreported⟩ := execute_of_skip c hskip r.execution
  simp only [CommandTask.job, hstart, hexecute, Bool.not_true, Bool.false_eq_true, if_false]
    at hjob
  split_ifs at hjob with hcancelled
  · cases hjob
    exact ⟨by simp, .inr rfl⟩
  · cases hjob
    refine ⟨?_, .inl rfl⟩
    simpa [makePropagatedFailureCommand] using hreported

/-- A run in which the command is not executed and does not succeed is cancelled or has an input
that is rejected. -/
theorem TaskRun.bad_of_result
    (r : TaskRun c node) (hstart : r.shouldCommandStart = true) {callbacks : List Callback}
    {value : BuildValue} (hresult : r.result = some (callbacks, value))
    (hcallbacks : .commandStarted ∉ callbacks) (hvalue : ¬ value.isSuccessfulCommand) :
  r.isCancelled = true ∨ ∃ i key bad, (i, key, bad) ∈ r.provided ∧ c.Rejects bad
  := by
  by_contra! hnot
  obtain ⟨hcancelled, hgood⟩ := hnot
  obtain ⟨s, hs, hjob⟩ := Option.bind_eq_some_iff.mp hresult
  have hskip := (provideValues_of_not_rejects (fun input => hgood _ _ _) hs).1
  rw [r.skipValue_started] at hskip
  simp only [CommandTask.job, hcancelled, hstart, Bool.not_true, Bool.false_eq_true, if_false,
    ExternalCommand.execute, hskip] at hjob
  obtain ⟨⟨reported, result⟩, hexecute, hreported⟩ := Option.map_eq_some_iff.mp hjob
  obtain ⟨rfl, rfl⟩ := Prod.mk.inj hreported
  split_ifs at hexecute
  · cases hexecute
    exact hvalue rfl
  · -- The command was started.
    cases hstatus : r.execution.status <;> rw [hstatus] at hexecute <;> cases hexecute <;>
      simp at hcallbacks

theorem TaskRun.exists_provided (r : TaskRun c node) {n : BuildNode} (hn : n ∈ c.inputs) :
  ∃ i key, (i, key, node n) ∈ r.provided
  := by
  obtain ⟨i, hi⟩ := List.mem_iff_getElem?.mp hn
  exact ⟨i, n.name, r.inputs_provided i n hi⟩

/-- A command with an input that is rejected is not executed in a build. -/
theorem Completes.of_rejects
    {value : BuildValue} {executed : Bool} (h : Completes c node value executed) {n : BuildNode}
    (hn : n ∈ c.inputs) (hrejects : c.Rejects (node n)) :
  executed = false ∧ IsSkipped value
  := by
  have hbad (r : TaskRun c node) : ∃ i key bad, (i, key, bad) ∈ r.provided ∧ c.Rejects bad := by
    obtain ⟨i, key, hmem⟩ := r.exists_provided hn
    exact ⟨i, key, _, hmem, hrejects⟩
  cases h with
  | ran r hstart callbacks value hresult =>
    obtain ⟨hcallbacks, hvalue⟩ := r.result_of_rejects hstart (hbad r) hresult
    exact ⟨decide_eq_false hcallbacks, hvalue⟩
  | kept r hstart callbacks value hresult fs hvalid =>
    obtain ⟨-, hvalue⟩ := r.result_of_rejects hstart (hbad r) hresult
    -- A value that is still valid is that of a success.
    have hsuccess : value.isSuccessfulCommand := by
      rw [ExternalCommand.isResultValid] at hvalid
      simp only [Bool.and_eq_true] at hvalid
      exact hvalid.1.2
    rcases hvalue with rfl | rfl <;> cases hsuccess

end Skip

/-! ### Two builds -/

namespace FailureSamples

def existing : FileInfo := { FileInfo.zero with size := 1 }

def noHash : SignatureHash := ⟨fun _ => 0, fun _ => 0, fun _ _ => 0⟩

/-- An execution with a given end, after which every file exists. -/
def ends (status : ProcessStatus) : Execution :=
  ⟨fun _ => existing, fun _ => existing, 1, status⟩

def object : BuildNode := { name := [111] }

def ordered : BuildNode := { name := ascii "<v>", type := .virtual }

/-- A command that fails. -/
def compile : ExternalCommand := { name := [99], outputs := [object] }

/-- A command that needs what the compiler makes. -/
def archive : ExternalCommand := { name := [97], inputs := [object] }

/-- A phony command, which needs what the compiler makes. -/
def order : ExternalCommand :=
  { name := [112], inputs := [object], outputs := [ordered], phony := true }

/-- A command that is ordered after the phony one. -/
def link : ExternalCommand := { name := [108], inputs := [ordered] }

def compileAndLink : BuildDescription where
  commands := [.external compile, .external archive, .external order, .external link]
  lookupNode name := { name := name }

/-- The compiler fails.  The command after the phony one is executed. -/
def failedCompile : Build compileAndLink noHash where
  fs _ := existing
  listing _ := .empty
  commands := compileAndLink.commands
  nodes := [object, ordered]
  directories := []
  command c :=
    if c = .external compile then makeFailedCommand
    else if c = .external link then link.computeCommandResult (fun _ => existing) 1
    else makePropagatedFailureCommand
  executed c := c = .external compile || c = .external link
  node n := if n = ordered then makeVirtualInput else makeFailedInput
  directoryContents _ := makeInvalid
  directoryTreeSignature _ := makeInvalid
  virtualInput := by decide
  fileInput := by decide
  directoryInput := by decide
  produced := by decide
  producedDirectory := by decide
  contents := by decide
  signature := by simp
  inputs := by
    intro c hc
    have hcases : c = compile ∨ c = archive ∨ c = order ∨ c = link := by
      simpa [compileAndLink] using hc
    rcases hcases with rfl | rfl | rfl | rfl <;> decide
  completes := by
    intro c hc
    have hcases : c = compile ∨ c = archive ∨ c = order ∨ c = link := by
      simpa [compileAndLink] using hc
    rcases hcases with rfl | rfl | rfl | rfl
    · exact .ran (.inOrder compile _ (ends .failed)) rfl
        [.commandStarted, .commandFinished .failed, .hadCommandFailure] _ rfl
    · exact .ran (.inOrder archive _ (ends .succeeded)) rfl [] _ rfl
    · exact .ran (.inOrder order _ (ends .succeeded)) rfl [] _ rfl
    · exact .ran (.inOrder link _ (ends .succeeded)) rfl
        [.commandStarted, .commandFinished .succeeded] _ rfl

def directory : BuildNode := { name := [100, 47], type := .directory }

def output : BuildNode := { name := [111, 47], type := .directory }

def generated : BuildNode := { name := ascii "d/x" }

/-- A command that fails to make a file in a directory. -/
def generate : ExternalCommand := { name := [103], outputs := [generated] }

/-- A command that needs the directory. -/
def pack : ExternalCommand := { name := [112], inputs := [directory] }

/-- A command that fails to make a directory. -/
def populate : ExternalCommand := { name := [109], outputs := [output] }

/-- A command that needs what the last one makes. -/
def install : ExternalCommand := { name := [105], inputs := [output] }

def packDirectory : BuildDescription where
  commands := [.external generate, .external pack, .external populate, .external install]
  lookupNode name :=
    if name = directory.name then directory else if name = output.name then output
    else { name := name }

/-- Both commands that make something fail.  The command that needs the directory is
executed. -/
def failedGenerate : Build packDirectory noHash where
  fs _ := existing
  listing _ := ⟨[[120]], by decide, by decide⟩
  commands := packDirectory.commands
  nodes := [directory, { name := [100] }, generated, output]
  directories := [[100]]
  command c :=
    if c = .external pack then pack.computeCommandResult (fun _ => existing) 1
    else if c = .external install then makePropagatedFailureCommand
    else makeFailedCommand
  executed c := c ≠ .external install
  node n :=
    if n = directory then makeDirectoryTreeSignature 0
    else if n.name = [100] then makeExistingInput existing
    else makeFailedInput
  directoryContents _ := makeDirectoryContents existing ⟨[[120]], by decide, by decide⟩
  directoryTreeSignature _ := makeDirectoryTreeSignature 0
  virtualInput := by decide
  fileInput := by decide
  directoryInput := by decide
  produced := by decide
  producedDirectory := by decide
  contents := by decide
  signature := by decide
  inputs := by
    intro c hc
    have hcases : c = generate ∨ c = pack ∨ c = populate ∨ c = install := by
      simpa [packDirectory] using hc
    rcases hcases with rfl | rfl | rfl | rfl <;> decide
  completes := by
    intro c hc
    have hcases : c = generate ∨ c = pack ∨ c = populate ∨ c = install := by
      simpa [packDirectory] using hc
    rcases hcases with rfl | rfl | rfl | rfl
    · exact .ran (.inOrder generate _ (ends .failed)) rfl
        [.commandStarted, .commandFinished .failed, .hadCommandFailure] _ rfl
    · exact .ran (.inOrder pack _ (ends .succeeded)) rfl
        [.commandStarted, .commandFinished .succeeded] _ rfl
    · exact .ran (.inOrder populate _ (ends .failed)) rfl
        [.commandStarted, .commandFinished .failed, .hadCommandFailure] _ rfl
    · exact .ran (.inOrder install _ (ends .succeeded)) rfl [] _ rfl

end FailureSamples

open FailureSamples

/-! ### Failures that reach other commands -/

section Build

variable {d : BuildDescription} {h : SignatureHash} (b : Build d h)

/-- The command does not come to a good end: it fails, is cancelled, or has an input that is
missing and must not be. -/
def Build.Fails (c : ExternalCommand) : Prop :=
  b.command (.external c) = makeFailedCommand ∨ b.command (.external c) = makeCancelledCommand
    ∨ ∃ n ∈ c.inputs, b.node n = makeMissingInput ∧ c.allowMissingInputs = false

/-- An output of the one command, of which it is the only producer, is an input of the
other. -/
def Feeds (d : BuildDescription) (c c' : ExternalCommand) (n : BuildNode) : Prop :=
  .external c ∈ d.commands ∧ n ∈ c'.inputs ∧ d.producers n = [.external c]

/-- An output of the one command, which is not an abstract output of a phony command, is an
input of the other. -/
def Passes (d : BuildDescription) (c c' : ExternalCommand) : Prop :=
  ∃ n, Feeds d c c' n ∧ (c.phony && n.isAbstract) = false

/-- The value of a command that failed, was cancelled or was skipped because of an input. -/
def IsFailure (value : BuildValue) : Prop :=
  value.kind = .failedCommand ∨ value.kind = .propagatedFailureCommand
    ∨ value.kind = .cancelledCommand

theorem IsSkipped.isFailure {value : BuildValue} (h : IsSkipped value) :
  IsFailure value
  := by
  rcases h with rfl | rfl
  · exact .inr (.inl rfl)
  · exact .inr (.inr rfl)

variable {c : ExternalCommand}

theorem Build.Fails.isFailure {b : Build d h} (hc : .external c ∈ b.commands) (hfails : b.Fails c) :
  IsFailure (b.command (.external c))
  := by
  rcases hfails with hvalue | hvalue | ⟨n, hn, hmissing, hallow⟩
  · rw [hvalue]
    exact .inl rfl
  · rw [hvalue]
    exact .inr (.inr rfl)
  · apply IsSkipped.isFailure
    apply And.right
    apply (b.completes c hc).of_rejects hn
    rw [hmissing]
    exact .inr ⟨rfl, hallow⟩

/-- A node whose producer failed is a failed input. -/
theorem Build.node_of_failure
    {n : BuildNode} (hn : n ∈ b.nodes) {p : Command} (hproducers : d.producers n = [p])
    (hphony : (p.isPhony && n.isAbstract) = false) (hfailure : IsFailure (b.command p)) :
  b.node n = makeFailedInput
  := by
  have hp : p ∈ d.commands := by
    have hmem : p ∈ d.producers n := by simp [hproducers]
    apply List.mem_of_mem_filter hmem
  have hresult := Command.getResultForOutput_of_failed hphony hfailure
  by_cases hdirectory : n.type = .directory
  · have hproduced := b.producedDirectory n hn p hp hproducers hdirectory _ hresult
    rwa [if_neg (by simp [makeFailedInput])] at hproduced
  · have hproduced := (b.produced n hn p hp hproducers).2 hdirectory
    rw [hresult] at hproduced
    exact (Option.some.inj hproduced).symm

/-- A command that has an output of a failed command as an input is not executed. -/
theorem Build.skipped_of_failure
    (hc : .external c ∈ b.commands) {n : BuildNode}
    (hn : n ∈ c.inputs) {p : Command} (hproducers : d.producers n = [p])
    (hphony : (p.isPhony && n.isAbstract) = false) (hfailure : IsFailure (b.command p)) :
  b.executed (.external c) = false ∧ IsSkipped (b.command (.external c))
  := by
  apply (b.completes c hc).of_rejects hn
  rw [b.node_of_failure (b.inputs c hc n hn) hproducers hphony hfailure]
  exact .inl rfl

/-- **Propagation of failures.**  In a build without vetoes, a command downstream of one
that failed, was cancelled or misses an input is not executed, and its value is that of a
propagated failure or a cancelled command, unless the failure has to pass an abstract output
of a phony command. -/
theorem failure_propagates
    {c c' : ExternalCommand} (hc : .external c ∈ b.commands) (hfails : b.Fails c)
    (hreach : Relation.TransGen (Passes d) c c') (hc' : .external c' ∈ b.commands) :
  b.executed (.external c') = false
    ∧ (b.command (.external c') = makePropagatedFailureCommand
      ∨ b.command (.external c') = makeCancelledCommand)
  := by
  induction hreach with
  | single hpasses =>
    obtain ⟨n, ⟨-, hn, hproducers⟩, hphony⟩ := hpasses
    exact b.skipped_of_failure hc' hn hproducers hphony (hfails.isFailure hc)
  | @tail c₁ c₂ _ hpasses ih =>
    obtain ⟨n, ⟨hc₁, hn, hproducers⟩, hphony⟩ := hpasses
    -- The command in between was asked for, since its output was.
    have hmem : .external c₁ ∈ b.commands :=
      (b.produced n (b.inputs c₂ hc' n hn) _ hc₁ hproducers).1
    apply b.skipped_of_failure hc' hn hproducers hphony
    apply IsSkipped.isFailure
    apply (ih hmem).2

/-- The compiler fails, and the archiver is not executed. -/
theorem failure_propagates_archive :
  failedCompile.executed (.external archive) = false
    ∧ (failedCompile.command (.external archive) = makePropagatedFailureCommand
      ∨ failedCompile.command (.external archive) = makeCancelledCommand)
  := by
  apply failure_propagates failedCompile (c := compile) (by decide) (.inl rfl) _ (by decide)
  apply Relation.TransGen.single
  exact ⟨object, ⟨by decide, by decide, by decide⟩, by decide⟩

/-- The compiler fails, the phony command needs what the compiler makes, and the linker,
which comes after the phony command, is executed and succeeds. -/
theorem phony_stops_failure :
  failedCompile.Fails compile
    ∧ Feeds compileAndLink compile order object ∧ Feeds compileAndLink order link ordered
    ∧ failedCompile.executed (.external link) = true
    ∧ (failedCompile.command (.external link)).kind = .successfulCommand
  := by
  refine ⟨.inl rfl, ⟨?_, ?_, ?_⟩, ⟨?_, ?_, ?_⟩, ?_, ?_⟩ <;> decide

/-- The value of a directory that no command makes is the signature of its tree. -/
theorem Build.not_rejects_directory
    {n : BuildNode} (hn : n ∈ b.nodes) (hdirectory : n.type = .directory)
    (hproducers : d.producers n = []) :
  ¬ c.Rejects (b.node n)
  := by
  obtain ⟨hpath, hnode⟩ := b.directoryInput n hn hproducers hdirectory
  rw [hnode, (b.signature _ hpath).2]
  rintro (hkind | ⟨hkind, -⟩) <;> cases hkind

/-- **Failures and directories.**  A command that is run in a build without vetoes is neither
executed nor successful exactly if the build is cancelled by then or a value that it is provided
with is rejected.  The value of a directory is, if the command that makes the directory failed, so
that in the build the command is skipped; and it never is if no command makes the directory,
whatever failed inside. -/
theorem failure_of_directory_iff
    {c : ExternalCommand} (hc : .external c ∈ b.commands) {n : BuildNode}
    (hn : n ∈ c.inputs) (hdirectory : n.type = .directory) :
  (∀ (r : TaskRun c b.node) callbacks value, r.shouldCommandStart = true →
      r.result = some (callbacks, value) →
      (.commandStarted ∉ callbacks ∧ ¬ value.isSuccessfulCommand
        ↔ r.isCancelled = true ∨ ∃ i key bad, (i, key, bad) ∈ r.provided ∧ c.Rejects bad))
    ∧ (∀ p, d.producers n = [p] → IsFailure (b.command p) → c.Rejects (b.node n)
      ∧ b.executed (.external c) = false
      ∧ (b.command (.external c) = makePropagatedFailureCommand
        ∨ b.command (.external c) = makeCancelledCommand))
    ∧ (d.producers n = [] → ¬ c.Rejects (b.node n))
  := by
  refine ⟨?_, ?_, b.not_rejects_directory (b.inputs c hc n hn) hdirectory⟩
  · intro r callbacks value hstart hresult
    constructor
    · rintro ⟨hcallbacks, hvalue⟩
      exact r.bad_of_result hstart hresult hcallbacks hvalue
    · rintro (hcancelled | hbad)
      · obtain ⟨s, -, hjob⟩ := Option.bind_eq_some_iff.mp hresult
        rw [CommandTask.job, if_pos hcancelled] at hjob
        cases hjob
        exact ⟨by simp, by decide⟩
      · obtain ⟨hcallbacks, rfl | rfl⟩ := r.result_of_rejects hstart hbad hresult
        · exact ⟨hcallbacks, by decide⟩
        · exact ⟨hcallbacks, by decide⟩
  · intro p hproducers hfailure
    have hphony : (p.isPhony && n.isAbstract) = false := by
      simp [BuildNode.isAbstract, BuildNode.isVirtual, hdirectory]
    refine ⟨?_, b.skipped_of_failure hc hn hproducers hphony hfailure⟩
    rw [b.node_of_failure (b.inputs c hc n hn) hproducers hphony hfailure]
    exact .inl rfl

/-- The command that makes the directory fails, and the one that needs it is not executed. -/
theorem failure_of_directory_install :
  failedGenerate.executed (.external install) = false
    ∧ (failedGenerate.command (.external install) = makePropagatedFailureCommand
      ∨ failedGenerate.command (.external install) = makeCancelledCommand)
  := by
  have hiff := failure_of_directory_iff failedGenerate (c := install) (by decide) (n := output)
    (by decide) rfl
  exact (hiff.2.1 (.external populate) (by decide) (.inl rfl)).2

/-- The command that makes a file in the directory fails, the file is listed, and the command
that needs the directory is executed and succeeds. -/
theorem directory_hides_failure :
  directory ∈ pack.inputs ∧ packDirectory.producers generated = [.external generate]
    ∧ failedGenerate.command (.external generate) = makeFailedCommand
    ∧ directoryPath directory ∈ failedGenerate.directories
    ∧ childPath (directoryPath directory) [120] = generated.name
    ∧ [120] ∈ (failedGenerate.listing (directoryPath directory)).values
    ∧ failedGenerate.node generated = makeFailedInput
    ∧ failedGenerate.executed (.external pack) = true
    ∧ (failedGenerate.command (.external pack)).kind = .successfulCommand
  := by
  decide

end Build

end BuildSystem

end LLBuild

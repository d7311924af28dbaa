import LLBuild.Basic.Hashing
import LLBuild.BuildSystem.Command

/-!
# Shell commands

A shell command is an external command with a command line, an environment and files in
which the process writes down further dependencies.  Its signature decides whether it is
run again after the build description has changed.

The signature takes in the parts of the command one after another.  It takes in neither the
working directory nor whether the control pipe is enabled, not where the arguments end and
the environment begins, and of the style of the dependencies only whether there is one.  Of
the arguments it takes in as many as the remainder of their number modulo `2 ^ 32`.
Where two commands agree on these, their signatures tell them apart.
-/

namespace LLBuild

open Combiner

open List

open BinaryCoding HashedValue

namespace BuildSystem

/-- The format of the files with discovered dependencies. -/
inductive DepsStyle
  | unused
  | makefile
  | dependencyInfo
  | makefileIgnoringSubsequentOutputs
  deriving DecidableEq

/-- The number of a style. -/
def DepsStyle.toInt : DepsStyle → ℕ
  | .unused => 0
  | .makefile => 1
  | .dependencyInfo => 2
  | .makefileIgnoringSubsequentOutputs => 3

/-- Bindings of environment variables, in the order of their declaration. -/
abbrev Bindings : Type := List (Bytes × Bytes)

/-- A shell command with signatures in `H`. -/
structure ShellCommand (H : Combiner) extends ExternalCommand where
  args : List Bytes := []
  /-- A string that replaces the computed signature. -/
  signatureData : Bytes := []
  /-- The positions of arguments that do not affect the outputs, in ascending order. -/
  signatureIgnoredArgs : List ℕ := []
  /-- A string that is mixed into the computed signature. -/
  additionalSignatureData : Bytes := []
  envOverrides : Bindings := []
  /-- The bindings that are shared with other commands, if there are any. -/
  envBase : Option Bindings := none
  depsPaths : List Bytes := []
  depsStyle : DepsStyle := .unused
  inheritEnv : Bool := true
  canSafelyInterrupt : Bool := true
  workingDirectory : Bytes := []
  controlEnabled : Bool := true
  /-- Directory trees are checked before the command runs; like the next one an option of
  every external command that no signature takes in. -/
  checkDirectoryDependenciesBeforeRunning : Bool := false
  repairViaOwnershipAnalysis : Bool := false
  /-- The signature once it has been computed, the null one before. -/
  cachedSignature : H.Signature := H.null

/-- What a process is started with. -/
structure Spawn where
  args : List Bytes
  environment : Bindings
  canSafelyInterrupt : Bool
  connectToConsole : Bool
  workingDirectory : Bytes
  inheritEnvironment : Bool
  controlEnabled : Bool
  deriving DecidableEq

variable {H : Combiner}

/-- What the signature of an external command takes in after the name. -/
def ExternalCommand.signatureValues (c : ExternalCommand) : List HashedValue :=
  c.inputs.map (fun input => .string input.name)
    ++ c.outputs.map (fun output => .string output.name)
    ++ [.bool c.allowMissingInputs, .bool c.allowModifiedOutputs, .bool c.alwaysOutOfDate]

/-- The signature of an external command. -/
def ExternalCommand.getSignature (H : Combiner) (c : ExternalCommand) : H.Signature :=
  H.combineAll (H.ofString c.name) c.signatureValues

namespace ShellCommand

variable (c : ShellCommand H)

/-- The bindings of the base with the overrides in their places, and the other overrides
after them. -/
def getEffectiveEnv : Bindings :=
  match c.envBase with
  | none => c.envOverrides
  | some bindings =>
    bindings.map (fun binding =>
      match c.envOverrides.find? (fun entry => entry.1 = binding.1) with
      | none => binding
      | some entry => (binding.1, entry.2))
    ++ c.envOverrides.filter (fun entry => bindings.all (fun binding => binding.1 ≠ entry.1))

/-- The arguments from position `i` on that are not ignored. -/
def countedArgs : ℕ → List ℕ → List Bytes → List Bytes
  | _, _, [] => []
  | i, [], arg :: args => arg :: countedArgs (i + 1) [] args
  | i, next :: ignored, arg :: args =>
    if next = i then countedArgs (i + 1) ignored args
    else arg :: countedArgs (i + 1) (next :: ignored) args

/-- The arguments that the signature takes in. The loop over them counts in 32 bits. -/
def signatureArgs : List Bytes :=
  countedArgs 0 c.signatureIgnoredArgs (c.args.take (c.args.length % 2 ^ 32))

/-- What the signature takes in after that of the external command. -/
def signatureValues : List HashedValue :=
  if c.signatureData ≠ [] then [.string c.signatureData]
  else
    c.signatureArgs.map .string
      ++ c.getEffectiveEnv.flatMap (fun entry => [.string entry.1, .string entry.2])
      ++ c.depsPaths.map .string
      ++ [.int c.depsStyle.toInt, .int c.inheritEnv.toNat, .int c.canSafelyInterrupt.toNat]
      ++ if c.additionalSignatureData ≠ [] then [.string c.additionalSignatureData] else []

/-- The signature, and the command that remembers it. -/
def getSignature : H.Signature × ShellCommand H :=
  if c.cachedSignature ≠ H.null then (c.cachedSignature, c)
  else
    let code := H.combineAll (c.toExternalCommand.getSignature H) c.signatureValues
    -- The null signature stands for one that has not been computed.
    let signature := if code = H.null then H.one else code
    (signature, { c with cachedSignature := signature })

/-- What `executeExternalCommand` starts the process with. -/
def spawn : Spawn where
  args := c.args
  environment := c.getEffectiveEnv
  canSafelyInterrupt := c.canSafelyInterrupt
  connectToConsole := false
  workingDirectory := c.workingDirectory
  inheritEnvironment := c.inheritEnv
  controlEnabled := c.controlEnabled

/-! ### Configuration -/

/-- What the configuration of a command is given. -/
structure ConfigureContext where
  /-- The absolute path of a path. -/
  makeAbsolute : Bytes → Bytes
  defaultShellPath : Bytes

variable (name value : Bytes)

/-- The error for a value that an attribute cannot have. -/
def invalidValue : Bytes :=
  ascii "invalid value: '" ++ value ++ ascii "' for attribute '" ++ name ++ ascii "'"

/-- The value of an attribute that is a truth value. -/
def configureBool : Except Bytes Bool :=
  if value ≠ ascii "true" ∧ value ≠ ascii "false" then .error (invalidValue name value)
  else .ok (value = ascii "true")

/-- The error for an attribute that there is not. -/
def unexpectedAttribute (name : Bytes) : Bytes :=
  ascii "unexpected attribute: '" ++ name ++ ascii "'"

/-- Configure an attribute of every external command. -/
def configureExternal :
    Except Bytes (ShellCommand H) :=
  if name = ascii "allow-missing-inputs" then
    (configureBool name value).map (fun b => { c with allowMissingInputs := b })
  else if name = ascii "allow-modified-outputs" then
    (configureBool name value).map (fun b => { c with allowModifiedOutputs := b })
  else if name = ascii "always-out-of-date" then
    (configureBool name value).map (fun b => { c with alwaysOutOfDate := b })
  else if name = ascii "check-directory-dependencies-before-running" then
    (configureBool name value).map
      (fun b => { c with checkDirectoryDependenciesBeforeRunning := b })
  else if name = ascii "repair-via-ownership-analysis" then
    if value = ascii "true" then .ok { c with repairViaOwnershipAnalysis := true }
    else if value = ascii "false" then .ok { c with repairViaOwnershipAnalysis := false }
    else .error (ascii "invalid value for attribute: '" ++ name ++ ascii "'")
  else .error (unexpectedAttribute name)

/-- Configure an attribute with a single value. -/
def configureAttribute (ctx : ConfigureContext) (c : ShellCommand H) (name value : Bytes) :
    Except Bytes (ShellCommand H) :=
  if name = ascii "args" then
    -- A scalar string is executed by the shell.
    .ok { c with args := [ctx.defaultShellPath, ascii "-c", value] }
  else if name = ascii "signature" then .ok { c with signatureData := value }
  else if name = ascii "additional-signature-data" then
    .ok { c with additionalSignatureData := value }
  else if name = ascii "deps" then .ok { c with depsPaths := [value] }
  else if name = ascii "deps-style" then
    if value = ascii "makefile" then .ok { c with depsStyle := .makefile }
    else if value = ascii "dependency-info" then .ok { c with depsStyle := .dependencyInfo }
    else if value = ascii "makefile-ignoring-subsequent-outputs" then
      .ok { c with depsStyle := .makefileIgnoringSubsequentOutputs }
    else .error (ascii "unknown 'deps-style': '" ++ value ++ ascii "'")
  else if name = ascii "can-safely-interrupt" then
    (configureBool name value).map (fun b => { c with canSafelyInterrupt := b })
  else if name = ascii "inherit-env" then
    (configureBool name value).map (fun b => { c with inheritEnv := b })
  else if name = ascii "working-directory" then
    .ok { c with workingDirectory := ctx.makeAbsolute value }
  else if name = ascii "control-enabled" then
    (configureBool name value).map (fun b => { c with controlEnabled := b })
  else configureExternal c name value

/-- A number of 32 bits in decimal digits. -/
def parseIndex (value : Bytes) : Option ℕ :=
  let digits := value.map (fun d => d.toNat - 48)
  let index := digits.foldl (fun n d => 10 * n + d) 0
  if value ≠ [] ∧ value.all (fun d => 48 ≤ d ∧ d ≤ 57) ∧ index < 2 ^ 32 then some index else none

/-- The indices of the attribute `name`, after those in `indices`. -/
def parseIgnoredArgs (name : Bytes) (indices : List ℕ) : List Bytes → Except Bytes (List ℕ)
  | [] => .ok indices
  | value :: values =>
    match parseIndex value with
    | none => .error (invalidValue name value)
    | some index =>
      if indices.getLast?.any (fun last => index ≤ last) then
        .error (ascii "out of order value: '" ++ value ++ ascii "' for attribute '" ++ name
          ++ ascii "'")
      else parseIgnoredArgs name (indices ++ [index]) values

/-- Configure an attribute with a list of values. -/
def configureList (name : Bytes) (values : List Bytes) :
    Except Bytes (ShellCommand H) :=
  if name = ascii "args" then
    if values = [] then
      .error (ascii "invalid arguments for command '" ++ c.name ++ ascii "'")
    else .ok { c with args := values }
  else if name = ascii "deps" then .ok { c with depsPaths := values }
  else if name = ascii "signature-ignored-args" then
    (parseIgnoredArgs name [] values).map
      (fun indices => { c with signatureIgnoredArgs := indices })
  else .error (unexpectedAttribute name)

/-- Configure an attribute with a list of pairs. -/
def configurePairs (name : Bytes) (values : Bindings) :
    Except Bytes (ShellCommand H) :=
  if name = ascii "env" then .ok { c with envOverrides := values }
  else .error (unexpectedAttribute name)

end ShellCommand

/-! ### What a signature says -/

namespace ExternalCommand

/-- The parts of a command are found in what its signature takes in, once it is known how many
inputs there are. -/
theorem signatureValues_injective
    {c d : ExternalCommand} (hinputs : c.inputs.length = d.inputs.length)
    (h : c.signatureValues = d.signatureValues) :
  c.inputs.map BuildNode.name = d.inputs.map BuildNode.name
    ∧ c.outputs.map BuildNode.name = d.outputs.map BuildNode.name
    ∧ c.allowMissingInputs = d.allowMissingInputs
    ∧ c.allowModifiedOutputs = d.allowModifiedOutputs
    ∧ c.alwaysOutOfDate = d.alwaysOutOfDate
  := by
  have hnames {nodes others : List BuildNode}
      (h : nodes.map (string ·.name) = others.map (string ·.name)) :
      nodes.map BuildNode.name = others.map BuildNode.name := by
    apply map_string_injective
    rw [map_map, map_map]
    apply h
  obtain ⟨hnodes, hoptions⟩ := append_inj' h rfl
  obtain ⟨hinputs', houtputs'⟩ := append_inj hnodes (by simp [hinputs])
  simp only [cons.injEq, bool.injEq] at hoptions
  obtain ⟨hmissing, hmodified, halways, -⟩ := hoptions
  exact ⟨hnames hinputs', hnames houtputs', hmissing, hmodified, halways⟩

theorem signatureValues_eq (c : ExternalCommand) :
  c.signatureValues = (c.inputs.map BuildNode.name ++ c.outputs.map BuildNode.name).map .string
    ++ [.bool c.allowMissingInputs, .bool c.allowModifiedOutputs, .bool c.alwaysOutOfDate]
  := by
  rw [signatureValues, map_append, map_map, map_map]
  rfl

theorem length_signatureValues (c : ExternalCommand) :
  c.signatureValues.length = c.inputs.length + c.outputs.length + 3
  := by
  simp [signatureValues, Nat.add_assoc]

end ExternalCommand

namespace ShellCommand

variable {c : ShellCommand H}

theorem getSignature_eq (h : c.cachedSignature = H.null) :
  c.getSignature.1
    = H.combineAll (H.ofString c.name)
        (c.toExternalCommand.signatureValues ++ c.signatureValues)
  := by
  have hcode : H.combineAll (c.toExternalCommand.getSignature H) c.signatureValues
      = H.combineAll (H.ofString c.name)
          (c.toExternalCommand.signatureValues ++ c.signatureValues) := by
    rw [combineAll_append]
    rfl
  rw [getSignature, if_neg (not_not.mpr h), hcode]
  apply if_neg
  apply combineAll_ne_null
  simp [ExternalCommand.signatureValues]

variable {d : ShellCommand H}

theorem countedArgs_nil (i : ℕ) (args : List Bytes) :
  countedArgs i [] args = args
  := by
  induction args generalizing i with
  | nil => rfl
  | cons arg args ih => rw [countedArgs, ih]

/-- The bindings are found in the list of their keys and values. -/
theorem bindings_injective
    {env env' : Bindings}
    (h : env.flatMap (fun entry => [entry.1, entry.2])
      = env'.flatMap (fun entry => [entry.1, entry.2])) :
  env = env'
  := by
  induction env generalizing env' with
  | nil =>
    cases env' with
    | nil => rfl
    | cons entry env' => cases h
  | cons entry env ih =>
    cases env' with
    | nil => cases h
    | cons entry' env' =>
      obtain ⟨k', v'⟩ := entry'
      simp only [flatMap_cons, cons_append, cons.injEq] at h
      obtain ⟨rfl, rfl, hrest⟩ := h
      rw [ih hrest]

/-- The strings a signature takes in: the arguments, the bindings and the dependency files, with
nothing in between. -/
def strings (c : ShellCommand H) : List Bytes :=
  c.signatureArgs ++ (c.getEffectiveEnv.flatMap (fun entry => [entry.1, entry.2]) ++ c.depsPaths)

theorem signatureValues_plain
    (hdata : c.signatureData = []) (hadditional : c.additionalSignatureData = []) :
  c.signatureValues = c.strings.map .string
    ++ [.int c.depsStyle.toInt, .int c.inheritEnv.toNat, .int c.canSafelyInterrupt.toNat]
  := by
  simp [signatureValues, strings, hdata, hadditional, map_flatMap]

theorem int_toNat_inj {a b : Bool} :
  int a.toNat = int b.toNat ↔ a = b
  := by
  cases a <;> cases b <;> decide

/-- Of the style only whether there is one is taken in. -/
theorem int_toInt_inj {a b : DepsStyle} :
  int a.toInt = int b.toInt ↔ (a = .unused ↔ b = .unused)
  := by
  cases a <;> cases b <;> decide

/-- Two commands agree on what their signatures take in. -/
structure Told (c d : ShellCommand H) : Prop where
  missing : c.allowMissingInputs = d.allowMissingInputs
  modified : c.allowModifiedOutputs = d.allowModifiedOutputs
  always : c.alwaysOutOfDate = d.alwaysOutOfDate
  strings : c.strings = d.strings
  style : c.depsStyle = .unused ↔ d.depsStyle = .unused
  inherit : c.inheritEnv = d.inheritEnv
  interrupt : c.canSafelyInterrupt = d.canSafelyInterrupt

/-- Two commands agree on what their signatures do not take in: how the strings are divided, the
arguments that are not counted, which style there is, the directory and the control pipe. -/
structure Untold (c d : ShellCommand H) : Prop where
  args : c.args.length = d.args.length
  rest : c.args.drop (c.args.length % 2 ^ 32) = d.args.drop (d.args.length % 2 ^ 32)
  env : c.getEffectiveEnv.length = d.getEffectiveEnv.length
  style : c.depsStyle = d.depsStyle
  working : c.workingDirectory = d.workingDirectory
  control : c.controlEnabled = d.controlEnabled

/-- Commands with the same name, inputs and outputs have equal signatures exactly if they agree on
what these take in. -/
theorem getSignature_eq_iff_told
    (hc : c.cachedSignature = H.null) (hd : d.cachedSignature = H.null)
    (hdata : c.signatureData = [] ∧ d.signatureData = [])
    (hadditional : c.additionalSignatureData = [] ∧ d.additionalSignatureData = [])
    (hname : c.name = d.name) (hinputs : c.inputs.map BuildNode.name = d.inputs.map BuildNode.name)
    (houtputs : c.outputs.map BuildNode.name = d.outputs.map BuildNode.name) :
  c.getSignature.1 = d.getSignature.1 ↔ Told c d
  := by
  have hexternal : c.toExternalCommand.signatureValues.length
      = d.toExternalCommand.signatureValues.length := by
    rw [ExternalCommand.length_signatureValues, ExternalCommand.length_signatureValues]
    simpa using congrArg₂ (· + ·) (congrArg length hinputs) (congrArg length houtputs)
  have hvalues : c.toExternalCommand.signatureValues = d.toExternalCommand.signatureValues
      ↔ c.allowMissingInputs = d.allowMissingInputs
        ∧ c.allowModifiedOutputs = d.allowModifiedOutputs
        ∧ c.alwaysOutOfDate = d.alwaysOutOfDate := by
    rw [ExternalCommand.signatureValues_eq, ExternalCommand.signatureValues_eq, hinputs, houtputs]
    simp
  rw [getSignature_eq hc, getSignature_eq hd, hname, combineAll_eq_iff rfl, and_iff_right rfl,
    signatureValues_plain hdata.1 hadditional.1, signatureValues_plain hdata.2 hadditional.2]
  constructor
  · intro h
    obtain ⟨hcommon, h⟩ := append_inj h hexternal
    obtain ⟨hmissing, hmodified, halways⟩ := hvalues.mp hcommon
    obtain ⟨hstrings, h⟩ := append_inj' h rfl
    simp only [cons.injEq, int_toNat_inj, int_toInt_inj] at h
    obtain ⟨hstyle, hinherit, hinterrupt, -⟩ := h
    exact ⟨hmissing, hmodified, halways, map_string_injective hstrings, hstyle, hinherit,
      hinterrupt⟩
  · intro h
    rw [hvalues.mpr ⟨h.missing, h.modified, h.always⟩, h.strings, h.inherit, h.interrupt,
      int_toInt_inj.mpr h.style]

/-- The strings are divided alike if there are equally many arguments and bindings. -/
theorem Told.parts_eq
    (hignored : c.signatureIgnoredArgs = [] ∧ d.signatureIgnoredArgs = [])
    (htold : Told c d) (huntold : Untold c d) :
  c.args = d.args ∧ c.getEffectiveEnv = d.getEffectiveEnv ∧ c.depsPaths = d.depsPaths
  := by
  have htake (c : ShellCommand H) (h : c.signatureIgnoredArgs = []) :
      c.signatureArgs = c.args.take (c.args.length % 2 ^ 32) := by
    rw [signatureArgs, h, countedArgs_nil]
  have hstrings := htold.strings
  rw [ShellCommand.strings, ShellCommand.strings, htake c hignored.1, htake d hignored.2]
    at hstrings
  obtain ⟨hargs, hstrings⟩ := append_inj hstrings (by simp [huntold.args])
  obtain ⟨henv, hdeps⟩ := append_inj hstrings (by simp [huntold.env])
  refine ⟨?_, bindings_injective henv, hdeps⟩
  rw [← take_append_drop (c.args.length % 2 ^ 32) c.args, hargs, huntold.rest, take_append_drop]

/-- Where two commands have the same name, inputs and outputs, equal signatures make them agree on
what they execute and record exactly if the commands agree on what their signatures do not take
in, or differ in what these do. -/
theorem eq_of_getSignature_eq_iff
    {c d : ShellCommand H} (hc : c.cachedSignature = H.null) (hd : d.cachedSignature = H.null)
    (hdata : c.signatureData = [] ∧ d.signatureData = [])
    (hadditional : c.additionalSignatureData = [] ∧ d.additionalSignatureData = [])
    (hignored : c.signatureIgnoredArgs = [] ∧ d.signatureIgnoredArgs = [])
    (hname : c.name = d.name) (hinputs : c.inputs.map BuildNode.name = d.inputs.map BuildNode.name)
    (houtputs : c.outputs.map BuildNode.name = d.outputs.map BuildNode.name) :
  (c.getSignature.1 = d.getSignature.1 →
      c.spawn = d.spawn ∧ c.depsPaths = d.depsPaths ∧ c.depsStyle = d.depsStyle
        ∧ c.allowMissingInputs = d.allowMissingInputs
        ∧ c.allowModifiedOutputs = d.allowModifiedOutputs
        ∧ c.alwaysOutOfDate = d.alwaysOutOfDate)
    ↔ (Told c d → Untold c d)
  := by
  rw [getSignature_eq_iff_told hc hd hdata hadditional hname hinputs houtputs]
  refine forall_congr' fun htold => ?_
  constructor
  · rintro ⟨hspawn, -, hstyle, -⟩
    simp only [spawn, Spawn.mk.injEq] at hspawn
    obtain ⟨hargs, henv, -, -, hworking, -, hcontrol⟩ := hspawn
    refine ⟨?_, ?_, ?_, hstyle, hworking, hcontrol⟩
    · rw [hargs]
    · rw [hargs]
    · rw [henv]
  · intro huntold
    obtain ⟨hargs, henv, hdeps⟩ := htold.parts_eq hignored huntold
    refine ⟨?_, hdeps, huntold.style, htold.missing, htold.modified, htold.always⟩
    rw [spawn, spawn, hargs, henv, htold.inherit, htold.interrupt, huntold.working,
      huntold.control]

namespace SignatureSamples

/-- A command that compiles a file in the directory `/tmp` and writes its dependencies. -/
def compile : ShellCommand history where
  name := ascii "C"
  args := [ascii "cc", ascii "a.c"]
  depsPaths := [ascii "a.d"]
  depsStyle := .makefile
  workingDirectory := ascii "/tmp"

/-- The same command with its directories checked before it runs. -/
def compileChecked : ShellCommand history :=
  { compile with checkDirectoryDependenciesBeforeRunning := true }

/-- The command with the second argument moved into the environment of the first. -/
def compileMoved : ShellCommand history :=
  { compile with args := [], envOverrides := [(ascii "cc", ascii "a.c")] }

end SignatureSamples

open SignatureSamples

/-- Two commands that differ only in an option that does not affect what is executed. -/
theorem eq_of_getSignature_eq_compile :
  compile.getSignature.1 = compileChecked.getSignature.1
    ∧ compile.spawn = compileChecked.spawn
  := by
  have hsignature : compile.getSignature.1 = compileChecked.getSignature.1 := by decide
  have hiff := eq_of_getSignature_eq_iff (c := compile) (d := compileChecked) rfl rfl ⟨rfl, rfl⟩
    ⟨rfl, rfl⟩ ⟨rfl, rfl⟩ rfl rfl rfl
  exact ⟨hsignature, (hiff.mpr (fun _ => ⟨rfl, rfl, rfl, rfl, rfl, rfl⟩) hsignature).1⟩

/-- Equal signatures of commands that run in different directories, with and without a control
pipe, with an argument moved into the environment, and that read their dependencies in
different formats. -/
theorem getSignature_collides :
  ({ compile with workingDirectory := ascii "/" }.getSignature.1 = compile.getSignature.1
      ∧ { compile with workingDirectory := ascii "/" }.spawn ≠ compile.spawn)
    ∧ ({ compile with controlEnabled := false }.getSignature.1 = compile.getSignature.1
      ∧ { compile with controlEnabled := false }.spawn ≠ compile.spawn)
    ∧ (compileMoved.getSignature.1 = compile.getSignature.1
      ∧ compileMoved.spawn ≠ compile.spawn)
    ∧ ({ compile with depsStyle := .dependencyInfo }.getSignature.1 = compile.getSignature.1
      ∧ { compile with depsStyle := .dependencyInfo }.depsStyle ≠ compile.depsStyle)
  := by
  decide

end ShellCommand

end BuildSystem

end LLBuild

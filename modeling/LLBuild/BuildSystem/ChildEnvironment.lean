import LLBuild.Basic.FirstBindings
import LLBuild.BuildSystem.ShellCommand

/-!
# The environment of a process

The environment of a process is put together from several sources, in the order of their
precedence: a key that is set keeps its value.  The execution queue sets the keys for its build
and its lane, then the bindings of the command, and then, if the command inherits it, the
environment of the build itself.  After that `spawnProcess` sets a key for the task and one for
the control pipe, unless they are set.

A shell command puts together its own bindings before that, from the bindings of a shared base
and its overrides.

The systems are POSIX systems.
-/

namespace LLBuild

open List

open BinaryCoding FirstBindings

/-- A number in decimal digits. -/
def Twine.decimal (n : ℕ) : Bytes := (Nat.toDigits 10 n).map Char.toUInt8

/-- A number in hexadecimal digits. -/
def Twine.utohexstr (n : UInt64) : Bytes := (Nat.toDigits 16 n.toNat).map Char.toUInt8

/-- An environment under construction. -/
abbrev POSIXEnvironment : Type := FirstBindings Bytes Bytes

namespace POSIXEnvironment

variable (env : POSIXEnvironment)

/-- The assignments of an environment, each with the NUL byte at its end. -/
def envStorage : List Bytes :=
  env.entries.map (fun entry => entry.1 ++ '='.toUInt8 :: entry.2 ++ [0])

/-- The C strings of an environment. -/
def getEnvp : List Bytes :=
  env.envStorage.map (fun assignment => assignment.takeWhile (· ≠ 0))

end POSIXEnvironment

/-- Split a string at the first occurrence of a separator. -/
def StringRef.split (separator : UInt8) (string : Bytes) : Bytes × Bytes :=
  (string.takeWhile (· ≠ separator), (string.dropWhile (· ≠ separator)).drop 1)

namespace BuildSystem

/-- The execution queue: its id and the environment of the build, as C strings. -/
structure LaneBasedExecutionQueue where
  buildID : UInt32
  environment : List Bytes
  cancelled : Bool := false
  deriving DecidableEq

/-- The job that starts a process, and the descriptor for the control pipe of the process. -/
structure QueueJobContext where
  jobID : UInt64
  laneNumber : UInt64
  controlFd : ℕ
  deriving DecidableEq

/-- The environment that a process is spawned with; there is none without arguments. -/
def spawnProcess (context : QueueJobContext) (spawn : Spawn) (environment : POSIXEnvironment) :
    Option POSIXEnvironment :=
  -- A process that is connected to the console has no control pipe.
  let controlEnabled := spawn.controlEnabled && !spawn.connectToConsole
  if spawn.args = [] then none
  else
    let environment :=
      environment.setIfMissing (ascii "LLBUILD_TASK_ID") (Twine.utohexstr context.jobID)
    if controlEnabled then
      some (environment.setIfMissing (ascii "LLBUILD_CONTROL_FD") (Twine.decimal context.controlFd))
    else some environment

namespace LaneBasedExecutionQueue

variable (queue : LaneBasedExecutionQueue)

/-- The environment of the build as bindings. -/
def inherited : Bindings :=
  queue.environment.map (StringRef.split '='.toUInt8)

/-- The environment that a process is spawned with, unless the queue is cancelled. -/
def executeProcess (context : QueueJobContext) (spawn : Spawn) :
    Option POSIXEnvironment :=
  if queue.cancelled then none
  else
    let posixEnv : POSIXEnvironment := .empty
    let posixEnv :=
      posixEnv.setIfMissing (ascii "LLBUILD_BUILD_ID") (Twine.decimal queue.buildID.toNat)
    let posixEnv :=
      posixEnv.setIfMissing (ascii "LLBUILD_LANE_ID") (Twine.decimal context.laneNumber.toNat)
    let posixEnv := posixEnv.setAllIfMissing spawn.environment
    let posixEnv :=
      if spawn.inheritEnvironment then posixEnv.setAllIfMissing queue.inherited else posixEnv
    spawnProcess context spawn posixEnv

end LaneBasedExecutionQueue

namespace ShellCommand

variable {H : Combiner}

/-! ### The bindings of a shell command -/

/-- The bindings of the base, if there is one. -/
def baseBindings (c : ShellCommand H) : Bindings := c.envBase.getD []

/-- The first override of a key counts, and then the first binding of the base. -/
theorem lookup_getEffectiveEnv (c : ShellCommand H) (key : Bytes) :
  c.getEffectiveEnv.lookup key = (c.envOverrides.lookup key).or (c.baseBindings.lookup key)
  := by
  rw [getEffectiveEnv, baseBindings]
  cases c.envBase with
  | none => rw [Option.getD_none, lookup_nil, Option.or_none]
  | some bindings =>
    -- A binding of the base has the value of the first override of its key.
    refine (congrArg (fun front => lookup key (front ++ _)) (map_congr_left
      (g := fun binding => (binding.1, (c.envOverrides.lookup binding.1).getD binding.2))
      ?_)).trans ?_
    · intro binding _
      rw [lookup_eq_find?]
      cases c.envOverrides.find? (·.1 = binding.1) <;> rfl
    rw [lookup_append, lookup_mapValue (fun key value => (c.envOverrides.lookup key).getD value),
      lookup_filterKey (fun key => bindings.all (·.1 ≠ key)),
      Option.getD_some]
    cases hbase : bindings.lookup key with
    | none =>
      have hall : bindings.all (·.1 ≠ key) = true := by
        rw [all_eq_true]
        intro binding hbinding
        have hne := lookup_eq_none_iff.mp hbase binding hbinding
        apply decide_eq_true (bne_iff_ne.mp hne).symm
      rw [if_pos hall, Option.map_none, Option.none_or, Option.or_none]
    | some value =>
      cases c.envOverrides.lookup key <;> rfl

end ShellCommand

/-! ### The environment of a shell command -/

/-- Where the value of a key comes from: from the queue for its own keys, then from the first
override, the first binding of the base and the first inherited one, and at last from
`spawnProcess` for its own keys. -/
def precedence {H : Combiner} (queue : LaneBasedExecutionQueue) (context : QueueJobContext)
    (c : ShellCommand H) (key : Bytes) : Option Bytes :=
  if key = ascii "LLBUILD_BUILD_ID" then some (Twine.decimal queue.buildID.toNat)
  else if key = ascii "LLBUILD_LANE_ID" then some (Twine.decimal context.laneNumber.toNat)
  else
    (c.envOverrides.lookup key).or <| (c.baseBindings.lookup key).or <|
      (if c.inheritEnv then queue.inherited.lookup key else none).or <|
      if key = ascii "LLBUILD_TASK_ID" then some (Twine.utohexstr context.jobID)
      else if key = ascii "LLBUILD_CONTROL_FD" ∧ c.controlEnabled then
        some (Twine.decimal context.controlFd)
      else none

open POSIXEnvironment

theorem ite_some_or {α : Type} (p : Prop) [Decidable p] (a : α) (first second : Option α) :
  (if p then some a else first).or second = if p then some a else first.or second
  := by
  split_ifs
  · apply Option.some_or
  · rfl

/-- The keys that are set already keep their values. -/
theorem lookup_spawnProcess
    {context : QueueJobContext} {spawn : Spawn} {environment env : POSIXEnvironment}
    (h : spawnProcess context spawn environment = some env) (key : Bytes) :
  env.lookup key = (environment.lookup key).or
    (if key = ascii "LLBUILD_TASK_ID" then some (Twine.utohexstr context.jobID)
      else if key = ascii "LLBUILD_CONTROL_FD"
          ∧ (spawn.controlEnabled && !spawn.connectToConsole) = true then
        some (Twine.decimal context.controlFd)
      else none)
  := by
  rw [spawnProcess] at h
  split_ifs at h with hargs hcontrol
  · cases h
    simp only [lookup_setIfMissing, Option.or_assoc, ite_some_or, Option.none_or,
      beq_iff_eq, hcontrol, and_true]
  · cases h
    simp only [lookup_setIfMissing, beq_iff_eq, hcontrol, Bool.false_eq_true, and_false, if_false]

/-- The value of a key has the precedence of its source. -/
theorem lookup_executeProcess
    {H : Combiner} {queue : LaneBasedExecutionQueue} {context : QueueJobContext}
    {c : ShellCommand H} {env : POSIXEnvironment}
    (h : queue.executeProcess context c.spawn = some env) (key : Bytes) :
  env.lookup key = precedence queue context c key
  := by
  have hcancelled : ¬ queue.cancelled = true := by
    intro hcancelled
    rw [LaneBasedExecutionQueue.executeProcess, if_pos hcancelled] at h
    cases h
  rw [LaneBasedExecutionQueue.executeProcess, if_neg hcancelled] at h
  have hinherited (environment : POSIXEnvironment) :
      (if c.spawn.inheritEnvironment then environment.setAllIfMissing queue.inherited
        else environment).lookup key
      = (environment.lookup key).or
        (if c.inheritEnv then queue.inherited.lookup key else none) := by
    rw [ShellCommand.spawn]
    split_ifs
    · apply lookup_setAllIfMissing
    · rw [Option.or_none]
  have hcontrol : (c.spawn.controlEnabled && !c.spawn.connectToConsole) = c.controlEnabled :=
    Bool.and_true _
  have henv : c.spawn.environment = c.getEffectiveEnv := rfl
  rw [lookup_spawnProcess h, hinherited, hcontrol, lookup_setAllIfMissing, henv,
    ShellCommand.lookup_getEffectiveEnv, lookup_setIfMissing,
    lookup_setIfMissing, lookup_empty]
  simp only [beq_iff_eq, Option.or_assoc, ite_some_or, Option.none_or, precedence]

/-- The C strings of an environment are its assignments, each up to a NUL byte. -/
theorem getEnvp_eq (env : POSIXEnvironment) :
  getEnvp env
    = env.entries.map (fun entry =>
      (entry.1 ++ '='.toUInt8 :: entry.2).takeWhile (· ≠ 0))
  := by
  rw [getEnvp, envStorage, map_map]
  apply map_congr_left
  intro entry _
  rw [Function.comp_apply, takeWhile_append]
  split_ifs with h
  · rw [takeWhile_cons_of_neg (by decide), append_nil]
    apply ((List.takeWhile_prefix _).eq_of_length h).symm
  · rfl

/-- The environment of a shell command has each key once, with the value of the precedence. -/
theorem executeProcess_spawn
    {H : Combiner} {queue : LaneBasedExecutionQueue} {context : QueueJobContext}
    {c : ShellCommand H} {env : POSIXEnvironment}
    (h : queue.executeProcess context c.spawn = some env) :
  getEnvp env
      = env.entries.map (fun entry =>
        (entry.1 ++ '='.toUInt8 :: entry.2).takeWhile (· ≠ 0))
    ∧ (env.entries.map Prod.fst).Nodup
    ∧ ∀ key value, (key, value) ∈ env.entries ↔ precedence queue context c key = some value
  := by
  refine ⟨getEnvp_eq env, env.nodup, ?_⟩
  intro key value
  rw [mem_entries_iff, lookup_executeProcess h]

namespace EnvironmentSamples

def queue : LaneBasedExecutionQueue where
  buildID := 7
  environment := [ascii "K=4", ascii "P=5=6"]

def context : QueueJobContext where
  jobID := 0x10001
  laneNumber := 2
  controlFd := 9

/-- A command that binds a key twice and in the base. -/
def rebound : ShellCommand Combiner.history where
  name := ascii "C"
  args := [ascii "true"]
  envOverrides := [(ascii "K", ascii "1"), (ascii "K", ascii "2")]
  envBase := some [(ascii "B", ascii "3"), (ascii "K", ascii "3")]

/-- A command without bindings. -/
def unbound : ShellCommand Combiner.history where
  name := ascii "C"
  args := [ascii "true"]
  inheritEnv := false

end EnvironmentSamples

open EnvironmentSamples

/-- The first override counts, and an inherited value may have an equals sign. -/
theorem executeProcess_rebound :
  ∃ env, queue.executeProcess context rebound.spawn = some env
    ∧ (ascii "K", ascii "1") ∈ env.entries ∧ (ascii "P", ascii "5=6") ∈ env.entries
  := by
  obtain ⟨env, henv⟩ : ∃ env, queue.executeProcess context rebound.spawn = some env := by
    apply Option.isSome_iff_exists.mp
    decide
  obtain ⟨-, -, hmem⟩ := executeProcess_spawn henv
  refine ⟨env, henv, (hmem _ _).mpr ?_, (hmem _ _).mpr ?_⟩
  · decide
  · decide

/-- The process of a command without bindings that inherits none has keys of `spawnProcess`. -/
theorem executeProcess_unbound :
  unbound.envOverrides = [] ∧ unbound.envBase = none ∧ unbound.inheritEnv = false
    ∧ (queue.executeProcess context unbound.spawn).map (fun env => env.entries.map Prod.fst)
      = some [ascii "LLBUILD_BUILD_ID", ascii "LLBUILD_LANE_ID", ascii "LLBUILD_TASK_ID",
        ascii "LLBUILD_CONTROL_FD"]
  := by
  decide

end BuildSystem

end LLBuild

import LLBuild.LLBuild3.ActionCache

/-!
# The llbuild3 engine

Tasks compute in steps.  In a step a task requests artifacts, rules and actions and spawns
subtasks; each request returns a stable id, a hash of what is requested.  The step ends
with a result, an error or a wait for some of the ids, after which the next step is
computed from what they stand for.

For each task the engine keeps two maps: from stable ids to the ids of the tasks, actions
and subtasks that answer them, and from the ids of tasks to the request they answer.
Requests add to them (`register`), and a wait that is over takes from them (`collect`).

Each definition is what the engine does under one hold of its locks, or a sequence of
such sections (`taskRequestArtifact`, `taskRequestRule`).
-/

namespace LLBuild3

open BinaryCoding

/-! ### Messages -/

/-- The signature of a task. -/
structure Signature where
  bytes : Bytes := []
deriving DecidableEq

inductive ArtifactType where
  | file
  | directory
  | blob
  | dict
  | list
  | buildGraph
deriving DecidableEq

inductive ArtifactValue where
  | notSet
  | casObject (id : CASID)
  | blob (bytes : Bytes)
  | dict (contents : List (String × String))
  | list (entry : List String)
deriving DecidableEq

/-- Something a task produces. -/
structure Artifact where
  label : Label
  type : ArtifactType := .file
  value : ArtifactValue := .notSet
deriving DecidableEq

inductive ErrorType where
  | engine
  | cache
  | cas
  | executor
  | client
deriving DecidableEq

structure Error where
  type : ErrorType
  code : Option ℕ := none
  description : Option String := none
deriving DecidableEq

/-- The errors of the engine. -/
inductive EngineError where
  | noArtifactProducer
  | noProviderForRule
  | duplicateRule
  | duplicateRuleArtifact
  | duplicateTask
  | duplicateTaskArtifact
  | unrequestedInput
  | invalidNextState
  | ruleConstructionFailed
  | taskConstructionFailed
  | invalidEngineState
  | internalInconsistency
deriving DecidableEq

def rawCode : EngineError → ℕ
  | .noArtifactProducer => 100
  | .noProviderForRule => 101
  | .duplicateRule => 202
  | .duplicateRuleArtifact => 203
  | .duplicateTask => 204
  | .duplicateTaskArtifact => 205
  | .unrequestedInput => 206
  | .invalidNextState => 207
  | .ruleConstructionFailed => 208
  | .taskConstructionFailed => 209
  | .invalidEngineState => 211
  | .internalInconsistency => 1001

def makeEngineError (code : EngineError) (desc : String := "") : Error where
  type := .engine
  code := some (rawCode code)
  description := if desc.isEmpty then none else some desc

/-- An action to be executed; the engine only passes it on. -/
structure Action where
  operation : Bytes
  function : Label := {}
  isVolatile : Bool := false
deriving DecidableEq

structure ActionResult where
  contents : Bytes
deriving DecidableEq

/-- What came of an action or a subtask. -/
inductive Outcome (α : Type) where
  | value (a : α)
  | error (e : Error)
deriving DecidableEq

abbrev SubtaskResult : Type := Outcome Bytes

/-- The results of subtasks, by the stable ids of the subtasks. -/
abbrev SubtaskResults : Type := List (UInt64 × SubtaskResult)

structure TaskResult where
  artifacts : List Artifact := []
deriving DecidableEq

inductive InputObject where
  | error (e : Error)
  | artifact (a : Artifact)
  | result (r : TaskResult)
  | action (a : ActionResult)
deriving DecidableEq

/-- An input of a step, with the stable id of the request it answers. -/
structure TaskInput where
  id : UInt64
  object : InputObject
deriving DecidableEq

inductive TaskContext where
  | notSet
  | casState (id : CASID)
  | protoState (bytes : Bytes)
  | intState (n : ℤ)
deriving DecidableEq

/-- How a step of a task ends. -/
inductive TaskNextState where
  | notSet
  | wait (ids : List UInt64) (context : TaskContext)
  | result (r : TaskResult)
  | error (e : Error)
deriving DecidableEq

/-- Whether the task is done. -/
def TaskNextState.isFinal : TaskNextState → Bool
  | result _ => true
  | error _ => true
  | _ => false

/-! ### Clients -/

structure Task where
  name : Label
  signature : Signature := {}
  produces : List Label
  init : Bool := false
  cacheable : Bool := true
deriving DecidableEq

structure Rule where
  name : Label
  produces : List Label
  /-- The task that builds the rule. -/
  configureTask : Option Task
deriving DecidableEq

structure RuleProvider where
  ruleByName : Label → Option Rule
  ruleForArtifact : Label → Option Rule

/-! ### The state of the engine -/

/-- What a task waits for from another one. -/
structure TaskInputRequest where
  isRule : Bool
  label : Label
  sid : UInt64
deriving DecidableEq

structure PendingAction where
  action : Action
  sid : UInt64
  result : Option (Outcome ActionResult) := none
deriving DecidableEq

/-- What the engine knows about a task. -/
structure TaskInfo where
  task : Task
  minBuild : ℕ
  /-- The tasks, actions and subtasks by the stable ids of the requests for them. -/
  stableIDMap : Table UInt64 ℕ := ∅
  /-- The requests by the tasks that answer them. -/
  requestedTaskInputs : Table ℕ TaskInputRequest := ∅
  requestedBy : List ℕ := []
  pendingSubtasks : Table ℕ (Option SubtaskResult) := ∅
  pendingActions : Table ℕ PendingAction := ∅
  waitingOn : List ℕ := []
  nextState : TaskNextState := .notSet

/-- A job for the lanes. -/
inductive Job where
  /-- Compute the next step of a task, or look it up in the cache first. -/
  | transition (cached : Bool) (task : ℕ) (ctx : TaskContext) (inputs : List TaskInput)
      (sres : SubtaskResults)
  /-- Tell the tasks waiting on a task that it is done. -/
  | finished (task : ℕ)
deriving DecidableEq

structure EngineImpl where
  casDB : InMemoryCASDatabase := {}
  actionCache : Option KeyMap := none
  ruleProviders : List RuleProvider := []
  ruleProviderMap : LabelTrie ℕ := { prefixOnly := true }
  artifactProviderMap : LabelTrie ℕ := { prefixOnly := true }
  rules : List Rule := []
  ruleRuleMap : LabelTrie ℕ := {}
  ruleArtifactMap : LabelTrie ℕ := {}
  initialized : Bool := false
  nextTaskID : ℕ := 0
  taskInfos : Table ℕ TaskInfo := ∅
  actionTaskMap : Table ℕ ℕ := ∅
  subtaskTaskMap : Table ℕ ℕ := ∅
  taskNameMap : LabelTrie ℕ := {}
  taskArtifactMap : LabelTrie ℕ := {}
  readyJobs : List Job := []
  /-- The tasks whose wait was ended by an exception. -/
  threw : List ℕ := []
  /-- The tasks for which a notification was ended by an exception. -/
  lost : List ℕ := []

/-- A request of a cached transition. -/
inductive TaskRequestDetails where
  | artifact (label : Label)
  | rule (label : Label)
  | action (action : Action)
deriving DecidableEq

structure TaskRequest where
  id : UInt64
  details : TaskRequestDetails
deriving DecidableEq

/-- What a cached transition is stored under. -/
structure TaskTransitionKey where
  ctx : TaskContext
  signature : Signature
  inputs : List TaskInput
deriving DecidableEq

structure TaskTransitionValue where
  state : TaskNextState
  requests : List TaskRequest
deriving DecidableEq

/-- The hash and the serialisation of messages, which the engine takes from libraries. -/
structure Wire where
  blake3 : Bytes → Bytes
  label : Label → Bytes
  action : Action → Bytes
  transitionKey : TaskTransitionKey → Bytes
  transitionValue : TaskTransitionValue → Bytes
  parseTransitionValue : Bytes → Option TaskTransitionValue

namespace Wire

variable (w : Wire)

/-- The first eight bytes of a digest, as a number. -/
def stableHash (bytes : Bytes) : UInt64 :=
  ((Decoder.read64.run (w.blake3 bytes)).map Prod.fst).getD 0

def stableHashTaskRequest (isRule : Bool) (label : Label) : UInt64 :=
  w.stableHash (['t'.toUInt8, if isRule then 'r'.toUInt8 else 'a'.toUInt8] ++ w.label label)

def stableHashActionRequest (action : Action) : UInt64 :=
  w.stableHash ('a'.toUInt8 :: w.action action)

def stableHashSubtaskRequest (subtaskID : ℕ) : UInt64 :=
  w.stableHash ('s'.toUInt8 :: write64 (UInt64.ofNat subtaskID))

end Wire

namespace EngineImpl

/-! ### Rules and tasks -/

variable (e : EngineImpl)

/-- Add a rule, unless it clashes with another one. -/
def insertRule (rule : Rule) : Except Error ℕ × EngineImpl :=
  if e.ruleRuleMap.contains rule.name then
    (.error (makeEngineError .duplicateRule (labelAsCanonicalString rule.name)), e)
  else match rule.produces.find? e.ruleArtifactMap.contains with
    | some artifact =>
        (.error (makeEngineError .duplicateRuleArtifact (labelAsCanonicalString artifact)), e)
    | none =>
        let ruleID := e.rules.length
        (.ok ruleID, { e with
          ruleRuleMap := e.ruleRuleMap.insert rule.name ruleID
          ruleArtifactMap :=
            rule.produces.foldl (fun map artifact => map.insert artifact ruleID) e.ruleArtifactMap
          rules := e.rules ++ [rule] })

/-- The rule named by a label, or the rule that produces the artifact: one the engine has,
or else one made by the provider for the label. -/
def resolveRule (isRule : Bool) (label : Label) : Except Error Rule × EngineImpl :=
  let ruleMap := if isRule then e.ruleRuleMap else e.ruleArtifactMap
  let providerMap := if isRule then e.ruleProviderMap else e.artifactProviderMap
  match (ruleMap.find label).bind (e.rules[·]?) with
  | some rule => (.ok rule, e)
  | none =>
      match (providerMap.find label).bind (e.ruleProviders[·]?) with
      | none =>
          let code := if isRule then EngineError.noProviderForRule else .noArtifactProducer
          (.error (makeEngineError code (labelAsCanonicalString label)), e)
      | some ruleProvider =>
          match (if isRule then ruleProvider.ruleByName label
            else ruleProvider.ruleForArtifact label) with
          | none =>
              (.error (makeEngineError .ruleConstructionFailed (labelAsCanonicalString label)), e)
          | some newRule =>
              match e.insertRule newRule with
              | (.error err, e) => (.error err, e)
              | (.ok _, e) => (.ok newRule, e)

/-- Add a task, unless it clashes with another one, and have its first step computed. -/
def insertTask (buildID : ℕ) (task : Task) : Except Error ℕ × EngineImpl :=
  if e.taskNameMap.contains task.name then
    (.error (makeEngineError .duplicateTask (labelAsCanonicalString task.name)), e)
  else match task.produces.find? e.taskArtifactMap.contains with
    | some artifact =>
        (.error (makeEngineError .duplicateTaskArtifact (labelAsCanonicalString artifact)), e)
    | none =>
        let taskID := e.nextTaskID
        (.ok taskID, { e with
          nextTaskID := e.nextTaskID + 1
          taskInfos := e.taskInfos.insert taskID { task := task, minBuild := buildID }
          taskNameMap := e.taskNameMap.insert task.name taskID
          taskArtifactMap :=
            task.produces.foldl (fun map artifact => map.insert artifact taskID) e.taskArtifactMap
          readyJobs := e.readyJobs ++ [.transition false taskID .notSet [] []] })

/-- The task for a label: one in flight that produces an artifact with the label, or else
a new task of the rule. -/
def constructTask (buildID : ℕ) (rule : Rule) (label : Label) :
    Except Error ℕ × EngineImpl :=
  match e.taskArtifactMap.find label with
  | some taskID => (.ok taskID, e)
  | none =>
      match rule.configureTask with
      | none => (.error (makeEngineError .taskConstructionFailed), e)
      | some task =>
          if task.init && e.initialized then
            (.error (makeEngineError .invalidEngineState "init task after initialization"), e)
          else e.insertTask buildID task

/-! ### Requests -/

section Requests

variable (w : Wire)

variable (e : EngineImpl)

variable (taskID : ℕ)

/-- Record that a request of a task is answered by another task. -/
def register (isRule : Bool) (label : Label) (id : ℕ) :
    UInt64 × EngineImpl :=
  let sid := w.stableHashTaskRequest isRule label
  (sid, { e with
    taskInfos := e.taskInfos.modify taskID (fun ti => { ti with
      requestedTaskInputs := ti.requestedTaskInputs.emplace id ⟨isRule, label, sid⟩
      stableIDMap := ti.stableIDMap.emplace sid id }) })

/-- The build a task was made for. -/
def minBuild : ℕ :=
  ((e.taskInfos.lookup taskID).map TaskInfo.minBuild).getD 0

/-- A request for which there is no task in flight. -/
def requestNew (isRule : Bool) (label : Label) :
    Except Error UInt64 × EngineImpl :=
  match e.resolveRule isRule label with
  | (.error err, e) => (.error err, e)
  | (.ok rule, e') =>
      match e'.constructTask (e.minBuild taskID) rule label with
      | (.error err, e) => (.error err, e)
      | (.ok id, e) =>
          let (sid, e) := e.register w taskID isRule label id
          (.ok sid, e)

/-- Request an artifact. -/
def taskRequestArtifact (label : Label) :
    Except Error UInt64 × EngineImpl :=
  match e.taskArtifactMap.find label with
  | some entry =>
      let (sid, e) := e.register w taskID false label entry
      (.ok sid, e)
  | none => e.requestNew w taskID false label

/-- Request the result of a rule.  If its task is in flight the id of the task is
returned, and nothing is recorded. -/
def taskRequestRule (label : Label) :
    Except Error UInt64 × EngineImpl :=
  match e.taskNameMap.find label with
  | some entry => (.ok (UInt64.ofNat entry), e)
  | none => e.requestNew w taskID true label

/-- Take an id for an action of a task, before it is submitted to the executor. -/
def beginAction : ℕ × EngineImpl :=
  let workID := e.nextTaskID
  (workID, { e with
    nextTaskID := e.nextTaskID + 1
    actionTaskMap := e.actionTaskMap.insert workID taskID })

/-- Record an action the executor accepted. -/
def recordAction (taskID workID : ℕ) (action : Action) : UInt64 × EngineImpl :=
  let sid := w.stableHashActionRequest action
  (sid, { e with
    taskInfos := e.taskInfos.modify taskID (fun ti => { ti with
      pendingActions := ti.pendingActions.emplace workID { action := action, sid := sid }
      stableIDMap := ti.stableIDMap.emplace sid workID }) })

/-- Forget an action the executor refused. -/
def dropAction (workID : ℕ) : EngineImpl :=
  { e with actionTaskMap := e.actionTaskMap.erase workID }

/-- Take an id for a subtask of a task, before it is submitted to the executor. -/
def beginSubtask : ℕ × EngineImpl :=
  let workID := e.nextTaskID
  (workID, { e with
    nextTaskID := e.nextTaskID + 1
    subtaskTaskMap := e.subtaskTaskMap.insert workID taskID })

/-- Record a subtask the executor accepted. -/
def recordSubtask (taskID workID : ℕ) : UInt64 × EngineImpl :=
  let sid := w.stableHashSubtaskRequest workID
  (sid, { e with
    taskInfos := e.taskInfos.modify taskID (fun ti => { ti with
      pendingSubtasks := ti.pendingSubtasks.emplace workID none
      stableIDMap := ti.stableIDMap.emplace sid workID }) })

/-- Forget a subtask the executor refused. -/
def dropSubtask (workID : ℕ) : EngineImpl :=
  { e with subtaskTaskMap := e.subtaskTaskMap.erase workID }

end Requests

/-! ### Waiting -/

variable (e : EngineImpl)

variable (taskID : ℕ)

/-- Have the tasks that wait on a task told that it is done. -/
def processFinishedTask : EngineImpl :=
  { e with readyJobs := e.readyJobs ++ [.finished taskID] }

/-- Have the next step of a task computed. -/
def enqueueReadyTask (ctx : TaskContext) (inputs : List TaskInput)
    (sres : SubtaskResults) : EngineImpl :=
  { e with readyJobs := e.readyJobs ++ [.transition false taskID ctx inputs sres] }

/-- Have the next step of a task looked up in the cache, if there is one and no subtask of
the task is pending, and computed otherwise. -/
def checkTaskCacheForReadyTask (ti : TaskInfo) (ctx : TaskContext)
    (inputs : List TaskInput) (sres : SubtaskResults) : EngineImpl :=
  if e.actionCache.isNone || !ti.pendingSubtasks.entries.isEmpty then
    e.enqueueReadyTask taskID ctx inputs sres
  else { e with readyJobs := e.readyJobs ++ [.transition true taskID ctx inputs sres] }

/-- The input that answers a request, from how the task that answers it ended. -/
def prepareInput (nextState : TaskNextState) (req : TaskInputRequest) : TaskInput where
  id := req.sid
  object := match nextState with
    | .result res =>
        if req.isRule then .result res
        else match res.artifacts.find? (fun art => art.label = req.label) with
          | some art => .artifact art
          | none => .error (makeEngineError .internalInconsistency "requested input not found")
    | .error err => .error err
    | _ => .error { type := .engine }

/-- The input for an action. -/
def prepareActionResult (sid : UInt64) (result : Outcome ActionResult) : TaskInput where
  id := sid
  object := match result with
    | .value res => .action res
    | .error err => .error err

/-- How the collection of the inputs of a task ends. -/
inductive Collected where
  | ready (ti : TaskInfo) (inputs : List TaskInput) (sres : SubtaskResults)
  | failed (ti : TaskInfo) (description : String)
  | threw

/-- Collect what the ids stand for.  The entries of the maps are consumed. -/
def collect (taskInfos : Table ℕ TaskInfo) :
    TaskInfo → List TaskInput → SubtaskResults → List UInt64 → Collected
  | ti, inputs, sres, [] => .ready ti inputs sres
  | ti, inputs, sres, sid :: ids =>
      match ti.stableIDMap.lookup sid with
      | none => .failed ti ("stable ID not found " ++ toString sid)
      | some id =>
          let ti := { ti with stableIDMap := ti.stableIDMap.erase sid }
          match taskInfos.lookup id with
          | some inputTask =>
              match ti.requestedTaskInputs.lookup id with
              | none => .threw
              | some req =>
                  collect taskInfos
                    { ti with requestedTaskInputs := ti.requestedTaskInputs.erase id }
                    (inputs ++ [prepareInput inputTask.nextState req]) sres ids
          | none =>
              match ti.pendingActions.lookup id with
              | some inputAction =>
                  match inputAction.result with
                  | none => .threw
                  | some result =>
                      collect taskInfos { ti with pendingActions := ti.pendingActions.erase id }
                        (inputs ++ [prepareActionResult inputAction.sid result]) sres ids
              | none =>
                  match ti.pendingSubtasks.lookup id with
                  | some (some result) =>
                      collect taskInfos { ti with pendingSubtasks := ti.pendingSubtasks.erase id }
                        inputs (sres ++ [(sid, result)]) ids
                  | some none => .threw
                  | none => .failed ti ("input not found " ++ toString id)

/-- End a task with an error of the engine. -/
def failTask (code : EngineError) (description : Option String) :
    EngineImpl :=
  processFinishedTask { e with
    taskInfos := e.taskInfos.modify taskID (fun ti => { ti with
      nextState := .error ⟨.engine, some (rawCode code), description⟩ }) } taskID

/-- Go on with a task whose wait is over. -/
def unblockTask : EngineImpl :=
  match e.taskInfos.lookup taskID with
  | none => e
  | some ti =>
      match ti.nextState with
      | .wait ids ctx =>
          match collect e.taskInfos ti [] [] ids with
          | .ready ti inputs sres =>
              checkTaskCacheForReadyTask { e with taskInfos := e.taskInfos.insert taskID ti }
                taskID ti ctx inputs sres
          | .failed ti description =>
              failTask { e with taskInfos := e.taskInfos.insert taskID ti } taskID
                .internalInconsistency (some description)
          | .threw => { e with threw := taskID :: e.threw }
      | _ => e.failTask taskID .invalidNextState none

/-- What the ids of a wait stand for. -/
inductive Waited where
  | unresolved (ids : List ℕ)
  | badInput (sid : UInt64)
  | threw
deriving DecidableEq

/-- Find what the ids of a wait stand for, and join the waiters of the tasks that are not
done. -/
def waitFor (taskID : ℕ) (ti : TaskInfo) :
    EngineImpl → List ℕ → List UInt64 → EngineImpl × Waited
  | e, unresolved, [] => (e, .unresolved unresolved)
  | e, unresolved, sid :: ids =>
      match ti.stableIDMap.lookup sid with
      | none => (e, .badInput sid)
      | some id =>
          if id ∈ ti.requestedTaskInputs then
            match e.taskInfos.lookup id with
            | none => (e, .threw)
            | some inputTask =>
                if inputTask.nextState.isFinal then waitFor taskID ti e unresolved ids
                else
                  waitFor taskID ti { e with
                    taskInfos := e.taskInfos.modify id (fun input => { input with
                      requestedBy := input.requestedBy.insert taskID }) }
                    (unresolved.insert id) ids
          else match ti.pendingActions.lookup id with
            | some action =>
                waitFor taskID ti e
                  (if action.result.isSome then unresolved else unresolved.insert id) ids
            | none =>
                match ti.pendingSubtasks.lookup id with
                | some result =>
                    waitFor taskID ti e
                      (if result.isSome then unresolved else unresolved.insert id) ids
                | none => (e, .badInput sid)

/-- Process how a step of a task ended. -/
def processTaskNextState (taskID : ℕ) (next : TaskNextState) : EngineImpl :=
  match e.taskInfos.lookup taskID with
  | none => e
  | some ti =>
      match next with
      | .wait ids _ =>
          match waitFor taskID ti e [] ids with
          | (e, .threw) => { e with threw := taskID :: e.threw }
          | (e, .badInput sid) =>
              e.failTask taskID .unrequestedInput (some ("input id " ++ toString sid))
          | (e, .unresolved []) =>
              unblockTask { e with
                taskInfos := e.taskInfos.modify taskID (fun ti => { ti with nextState := next }) }
                taskID
          | (e, .unresolved unresolved) => { e with
              taskInfos := e.taskInfos.modify taskID (fun ti => { ti with
                nextState := next, waitingOn := unresolved }) }
      | .notSet => e.failTask taskID .invalidNextState none
      | .result _ | .error _ =>
          processFinishedTask { e with
            taskInfos := e.taskInfos.modify taskID (fun ti => { ti with nextState := next }) }
            taskID

/-- Take an id off what a task waits on, and go on with the task if it was the last. -/
def unblockOn (id taskID : ℕ) : EngineImpl :=
  match e.taskInfos.lookup taskID with
  | none => { e with lost := taskID :: e.lost }
  | some ti =>
      let waitingOn := ti.waitingOn.filter (· ≠ id)
      let e := { e with
        taskInfos := e.taskInfos.modify taskID (fun ti => { ti with waitingOn := waitingOn }) }
      if ti.waitingOn ≠ [] ∧ waitingOn = [] then e.unblockTask taskID else e

/-- Tell the tasks that wait on a task that it is done. -/
def notifyFinished : EngineImpl :=
  match e.taskInfos.lookup taskID with
  | none => e
  | some ti => ti.requestedBy.foldl (fun e id => e.unblockOn taskID id) e

/-- The executor completed an action. -/
def notifyActionComplete (workID : ℕ) (result : Outcome ActionResult) :
    EngineImpl :=
  match e.actionTaskMap.lookup workID with
  | none => e
  | some taskID =>
      match (e.taskInfos.lookup taskID).bind (fun ti => ti.pendingActions.lookup workID) with
      | none => { e with lost := taskID :: e.lost }
      | some _ =>
          unblockOn { e with
            taskInfos := e.taskInfos.modify taskID (fun ti => { ti with
              pendingActions := ti.pendingActions.modify workID (fun action =>
                { action with result := some result }) }) } workID taskID

/-- The executor completed a subtask. -/
def notifySubtaskComplete (workID : ℕ) (result : SubtaskResult) : EngineImpl :=
  match e.subtaskTaskMap.lookup workID with
  | none => e
  | some taskID =>
      match (e.taskInfos.lookup taskID).bind (fun ti => ti.pendingSubtasks.lookup workID) with
      | none => { e with lost := taskID :: e.lost }
      | some _ =>
          unblockOn { e with
            taskInfos := e.taskInfos.modify taskID (fun ti => { ti with
              pendingSubtasks := ti.pendingSubtasks.modify workID (fun _ => some result) }) }
            workID taskID

/-! ### The transition cache -/

section Cache

variable (w : Wire)

/-- The key of the transition of a task from a context and inputs. -/
def transitionKey (task : Task) (ctx : TaskContext) (inputs : List TaskInput) : CacheKey where
  label := task.name
  type := .task
  data := InMemoryCASDatabase.identify w.blake3
    { data := w.transitionKey ⟨ctx, task.signature, inputs⟩ }

/-- The outstanding requests of a task, as they are stored with a transition. -/
def outstandingRequests (ti : TaskInfo) : List TaskRequest :=
  ti.requestedTaskInputs.entries.map (fun e => ⟨e.2.sid,
      if e.2.isRule then .rule e.2.label else .artifact e.2.label⟩)
    ++ ti.pendingActions.entries.map (fun e => ⟨e.2.sid, .action e.2.action⟩)

/-- Store the transition of a task that was computed.  The results of subtasks it was
computed from are no part of the key. -/
def updateTaskCache (e : EngineImpl) (ti : TaskInfo) (ctx : TaskContext) (inputs : List TaskInput)
    (next : TaskNextState) : EngineImpl :=
  match e.actionCache with
  | none => e
  | some cache =>
      if !ti.task.cacheable then e
      else if !ti.pendingSubtasks.entries.isEmpty then e
      else
        let (_, casDB) := e.casDB.put w.blake3
          { data := w.transitionKey ⟨ctx, ti.task.signature, inputs⟩ }
        let (valueID, casDB) := casDB.put w.blake3
          { data := w.transitionValue ⟨next, outstandingRequests ti⟩ }
        { e with
          casDB := casDB
          actionCache := some (cache.call
            (.update (transitionKey w ti.task ctx inputs) { data := some valueID })) }

/-- The transition stored for a task, a context and inputs. -/
def cachedTransition (e : EngineImpl) (task : Task) (ctx : TaskContext) (inputs : List TaskInput) :
    Option TaskTransitionValue :=
  match e.actionCache with
  | none => none
  | some cache =>
      match (cache (transitionKey w task ctx inputs)).data with
      | none => none
      | some id => w.parseTransitionValue (e.casDB.get id).data

end Cache

end EngineImpl

end LLBuild3

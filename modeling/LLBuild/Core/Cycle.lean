import LLBuild.Core.Scan
import Mathlib.Data.List.Sort

/-!
# Cycles

When no rule can make progress the engine looks for a cycle, by a search from the rule
that is built along the rules each rule waits for, and tries to break it.
-/

namespace LLBuild

variable {Key Value : Type}

namespace Engine

/-- The edges a rule contributes to the graph of successors: each rule that waits for
this one, as a task or in a scan, is a successor of it. -/
def successors (key : Key) (r : RuleInfo Key Value) : List (Key × Key) :=
  match r.state with
  | .inProgressWaiting t | .inProgressComputing t =>
      t.requestedBy.filterMap (fun request => request.taskInfo.map (fun task => (key, task))) ++
        t.deferredScanRequests.map (fun request => (key, request.ruleInfo))
  | .isScanning (some record) =>
      record.pausedInputRequests.filterMap (fun request =>
          request.taskInfo.map (fun task => (request.inputRuleInfo, task))) ++
        record.deferredScanRequests.filterMap (fun request =>
          request.inputRuleInfo.map (fun input => (input, request.ruleInfo)))
  | _ => []

/-- The graph of successors. -/
def successorGraph (s : Engine Key Value) : List (Key × Key) :=
  s.ruleInfos.flat successors

/-- A rule is left scanning although its scan record has been freed. -/
def HasDanglingScanRecord (s : Engine Key Value) : Prop :=
  ∃ e ∈ s.ruleInfos.entries, e.2.state.kind = .isScanning ∧ e.2.state.scanRecord.isNone

instance (s : Engine Key Value) : Decidable s.HasDanglingScanRecord :=
  inferInstanceAs (Decidable (∃ e ∈ s.ruleInfos.entries, _))

variable [LinearOrder Key]

/-- The predecessors of a rule, in the order of their keys. -/
def predecessors (graph : List (Key × Key)) (node : Key) : List Key :=
  ((graph.filter (fun edge => edge.2 = node)).map Prod.fst).insertionSort (· ≤ ·)

/-- Visit a node of the graph, below the nodes of `path`. Returns the first path found that
ends in a node which is already on it. A path without repetition is no longer than the
number of nodes, which bounds the depth. -/
def visit (graph : List (Key × Key)) : ℕ → List Key → Key → Option (List Key)
  | depth, path, node =>
      if node ∈ path then some (path ++ [node])
      else
        match depth with
        | 0 => none
        | depth + 1 => (predecessors graph node).findSome? (visit graph depth (path ++ [node]))

/-- Search for a cycle, from the rule that is built. The list is empty if there is none. -/
def findCycle (buildKey : Key) (s : Engine Key Value) : List Key :=
  (visit s.successorGraph (s.ruleInfos.entries.length + 1) [] buildKey).getD []

variable [Inhabited Value] (client : Client Key Value)

/-- Force a rule that is scanning to be built. Its scan request is removed, if it is not
deferred. -/
def forceBuild (key : Key) (s : Engine Key Value) : Engine Key Value :=
  let isForRule (request : RuleScanRequest Key) : Bool := request.ruleInfo = key
  let s := s.setRuleInfosToScan ((s.ruleInfosToScan.reverse.eraseP isForRule).reverse)
  let s := (s.finishScanRequest client key .needsToRun).log
    (.determinedRuleNeedsToRun key .forced none)
  s.modifyRuleInfo client key (RuleInfo.setWasForced true)

/-- Supply the prior value of a rule to a task that requested it. -/
def supplyPriorValue (key : Key) (request : TaskInputRequest Key) (s : Engine Key Value) :
    Engine Key Value :=
  (s.addFinishedInputRequests [{ request with forcePriorValue := true }]).modifyTaskInfo
    client key (fun t => { t with requestedBy := t.requestedBy.erase request })

/-- Go through a cycle from its end, and break it at the first rule where that can be
tried, if the delegate agrees. Returns whether the cycle was broken. -/
def breakCycleFrom (cycle : List Key) (s : Engine Key Value) :
    List Key → Bool × Engine Key Value
  | [] => (false, s)
  | key :: rest =>
      let r := s.ruleInfo client key
      match r.state with
      | .isScanning _ =>
          if !client.shouldResolveCycle s.events cycle key .forceBuild then (false, s)
          else (true, s.forceBuild client key)
      | .inProgressWaiting t =>
          if r.result.builtAt = 0 then breakCycleFrom cycle s rest
          else
            match rest with
            | [] => (false, s.trapped .pastTheEnd)
            | next :: _ =>
                match t.requestedBy.find? (fun request => request.taskInfo = some next) with
                | none => breakCycleFrom cycle s rest
                | some request =>
                    if !client.shouldResolveCycle s.events cycle key .supplyPriorValue then
                      (false, s)
                    else (true, s.supplyPriorValue client key request)
      | _ => breakCycleFrom cycle s rest

/-- Try to break a cycle. -/
def breakCycle (cycle : List Key) (s : Engine Key Value) : Bool × Engine Key Value :=
  s.breakCycleFrom client cycle cycle.reverse

/-- Attempt to resolve a cycle which has caused the engine to be unable to make progress.
Returns whether the engine should try to proceed. -/
def resolveCycle (buildKey : Key) (s : Engine Key Value) : Bool × Engine Key Value :=
  if s.HasDanglingScanRecord then (false, s.trapped .danglingScanRecord)
  else
    let cycle := s.findCycle buildKey
    let (broken, s) := s.breakCycle client cycle
    if broken then (true, s)
    else (false, s.log (.cycleDetected cycle))

end Engine

end LLBuild

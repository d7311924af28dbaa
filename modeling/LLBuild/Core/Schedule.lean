import LLBuild.Core.Build

/-!
# A client with fixed inputs, and a schedule

The simplest clients are the ones in which a task requests a fixed list of inputs when it
is started, and the simplest schedule is the one in which a task reports only when the
engine has nothing else to do.  Both can be computed, and so can the builds they determine.
-/

namespace LLBuild

variable {Key Value : Type}

/-- The value a task is provided with by a callback. -/
def Callback.providedValue : Callback Key Value → Option Value
  | .provideValue _ _ value => some value
  | _ => none

/-- A task which requests its inputs when it is started. -/
def Task.fixed (inputs discovered : List Key) (compute : List Value → Value) :
    Task Key Value where
  respond history :=
    match history with
    | [.start] => inputs.map (fun key => .request key 0)
    | _ => []
  finish history :=
    { value := compute (history.filterMap Callback.providedValue)
      forceChange := false
      discoveredDependencies := discovered }

/-- A client whose tasks request fixed inputs, and whose delegate breaks all cycles or
none. -/
def Client.fixed (inputs discovered : Key → List Key) (compute : Key → List Value → Value)
    (isResultValid : Key → Value → Bool) (resolvesCycles : Bool) : Client Key Value where
  lookupRule _ := 0
  isResultValid := isResultValid
  checksDependenciesBeforeRunning _ := false
  mustCheckDependencyBeforeRunning _ _ := false
  createTask key := .fixed (inputs key) (discovered key) (compute key)
  shouldResolveCycle _ _ _ _ := resolvesCycles
  dbError _ := none

/-- Rule `0` requests `1` and `2`, and rule `1` requests `2`. -/
def Client.triangle : Client ℕ ℕ :=
  .fixed (fun k => if k = 0 then [1, 2] else if k = 1 then [2] else []) (fun _ => [])
    (fun k values => k + values.sum) (fun _ _ => true) false

variable [LinearOrder Key] [DecidableEq Value] [Inhabited Value] (client : Client Key Value)

namespace Execution

/-- The next action of the schedule in which tasks report as late as possible. -/
def lateAction (e : Execution Key Value) : Option (Action Key × Execution Key Value) :=
  (.work :: e.engine.ruleInfos.keys.map Action.complete).findSome? (fun action =>
    (e.step client action).map (fun e' => (action, e')))

/-- The first actions of the schedule in which tasks report as late as possible. -/
def lateActions : ℕ → Execution Key Value → List (Action Key)
  | 0, _ => []
  | n + 1, e =>
      match e.lateAction client with
      | none => []
      | some (action, e') => action :: lateActions n e'

end Execution

/-- A build in which tasks report as late as possible, within a number of steps. -/
def Engine.lateBuild (n : ℕ) (key : Key) (s : Engine Key Value) :
    Option (Value × Engine Key Value) :=
  s.build client key ((Execution.start client key s).lateActions client n)

end LLBuild

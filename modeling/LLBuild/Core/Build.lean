import LLBuild.Core.Execute

/-!
# Builds

A build of a key starts the main loop and, once the loop has returned, stores the number of
the build in the database and frees what the loop has allocated.  An engine lives through a
sequence of builds, in each of which the client may look different: the rules see another
external state, the tasks make other requests, the database fails in other places.
-/

namespace LLBuild

variable {Key Value : Type}

namespace Engine

/-- An engine with a database, or without one. -/
def fresh (db : Option (BuildDB Key Value)) : Engine Key Value where
  currentEpoch := db.elim 0 BuildDB.currentEpoch
  buildCancelled := false
  ruleInfos := ∅
  inputRequests := []
  finishedInputRequests := []
  ruleInfosToScan := []
  readyTaskInfos := []
  numOutstandingUnfinishedTasks := 0
  finishedTaskInfos := []
  db := db
  events := []
  trap := none

/-- Make a cancelled engine ready for the next build. -/
def resetForBuild (s : Engine Key Value) : Engine Key Value :=
  { s with buildCancelled := false }

variable (client : Client Key Value)

/-- The error of the database at the start of a build. -/
def buildStarted (s : Engine Key Value) : Option String :=
  if s.db.isSome then client.dbError .buildStarted else none

/-- Store the number of the build in the database. Returns the error if that fails. -/
def setCurrentIteration (s : Engine Key Value) : Option String × Engine Key Value :=
  match s.db with
  | none => (none, s)
  | some db =>
      match client.dbError .setCurrentIteration with
      | some message => (some message, s)
      | none => (none, s.setDB (some { db with currentEpoch := s.currentEpoch }))

end Engine

variable [LinearOrder Key] [DecidableEq Value] [Inhabited Value]

variable (client : Client Key Value)

/-- The end of a build whose main loop has returned, with the value that is returned. -/
def Execution.finish (e : Execution Key Value) :
    Option (Value × Engine Key Value) :=
  match e.phase with
  | .returned success =>
      match e.engine.freeRuleScanRecords.setCurrentIteration client with
      | (some message, s) => some (default, s.log (.error message))
      | (none, s) =>
          if success then some ((s.ruleInfo client e.buildKey).result.value, s)
          else some (default, s)
  | _ => none

/-- A build of a key, with what happens during the build. There is no result if the build
has not returned by then. -/
def Engine.build (key : Key) (actions : List (Action Key))
    (s : Engine Key Value) : Option (Value × Engine Key Value) :=
  match s.buildStarted client with
  | some message => some (default, { s with events := [.error message] })
  | none =>
      if s.buildCancelled then some (default, { s with events := [] })
      else ((Execution.start client key s).run client actions).bind (Execution.finish client)

/-- The states of an engine between builds. -/
inductive Engine.Between : Engine Key Value → Prop
  | fresh (db : Option (BuildDB Key Value)) : Between (.fresh db)
  | cancelBuild {s : Engine Key Value} (h : Between s) : Between s.setCancelled
  | resetForBuild {s : Engine Key Value} (h : Between s) : Between s.resetForBuild
  | build {s s' : Engine Key Value} (h : Between s) (client : Client Key Value) (key : Key)
      (actions : List (Action Key)) (value : Value)
      (hbuild : s.build client key actions = some (value, s')) : Between s'

end LLBuild

import LLBuild.Basic.SQLite
import LLBuild.Basic.Table

/-!
# The SQLite build database

The database file has a table `key_names`, which gives every key string a row id, and a table
`rule_results`, which has at most one row for every row id of a key.  The dependencies of a
result are stored as the row ids of their keys, with two flags each.  An open database keeps
which row ids belong to which of the engine's key ids.

Statements that SQLite fails to execute are left out, and so are transactions: what a build
has stored is in the file.
-/

namespace LLBuild

open BinaryCoding SQLite

namespace SQLiteBuildDB

/-- A dependency and its flags. -/
structure Dependency (ID : Type) where
  keyID : ID
  orderOnly : Bool
  singleUse : Bool
  deriving DecidableEq

/-- The result of a rule. -/
structure Result (ID Time : Type) where
  value : Bytes
  signature : UInt64
  computedAt : UInt64
  builtAt : UInt64
  start : Time
  finish : Time
  dependencies : List (Dependency ID)
  deriving DecidableEq

/-- Name a dependency in another way. -/
def Dependency.map {ID ID' : Type} (f : ID → ID') (d : Dependency ID) : Dependency ID' :=
  { d with keyID := f d.keyID }

/-- Name the dependencies of a result in another way. -/
def Result.map {ID ID' Time : Type} (f : ID → ID') (r : Result ID Time) : Result ID' Time :=
  { r with dependencies := r.dependencies.map (Dependency.map f) }

/-- The engine's mapping between keys and ids. -/
structure Delegate (KeyID : Type) where
  getKeyID : Bytes → KeyID
  getKeyForID : KeyID → Bytes
  getKeyForID_getKeyID : ∀ key, getKeyForID (getKeyID key) = key

/-- A row of the table `rule_results`, without its key id. -/
structure Row (Time : Type) where
  value : Bytes
  signature : Int64
  built_at : Int64
  computed_at : Int64
  start : Time
  finish : Time
  dependencies : Bytes

/-- The errors of a lookup. -/
inductive Error where
  /-- `unexpected contents for database result:` and the key id. -/
  | unexpectedContents (dbKeyID : ℕ)
  /-- There is no row for the id of a dependency. -/
  | noKeyName (dbKeyID : ℕ)
  deriving DecidableEq

end SQLiteBuildDB

/-- An open database. -/
structure SQLiteBuildDB (F : RealFormat) (KeyID Time : Type) where
  /-- The column `key` of the table `key_names`; the id of a row is its number from 1 on,
  since no row is deleted. -/
  key_names : List (Value F.Real) := []
  /-- The table `rule_results`, by the column `key_id`. -/
  rule_results : Table ℕ (SQLiteBuildDB.Row Time) := ∅
  last_insert_rowid : ℕ := 0
  engineKeyIDs : Table ℕ KeyID := ∅
  dbKeyIDs : Table KeyID ℕ := ∅

namespace SQLiteBuildDB

variable {F : RealFormat} {KeyID Time : Type} [DecidableEq KeyID]

/-! ### The statements -/

variable (db : SQLiteBuildDB F KeyID Time)

/-- `SELECT id FROM key_names WHERE key == ? LIMIT 1` -/
def findKeyIDForKey (key : Bytes) : Option ℕ :=
  (db.key_names.findIdx? (· = numericAffinity F key)).map (· + 1)

/-- `SELECT key FROM key_names WHERE id == ? LIMIT 1` -/
def findKeyNameForKeyID : ℕ → Option Bytes
  | 0 => none
  | i + 1 => (db.key_names[i]?).map (columnText F)

/-- `INSERT OR IGNORE INTO key_names(key) VALUES (?)`, where the keys are unique -/
def insertIntoKeys (key : Bytes) (db : SQLiteBuildDB F KeyID Time) :
    SQLiteBuildDB F KeyID Time :=
  if numericAffinity F key ∈ db.key_names then
    db
  else
    { db with
      key_names := db.key_names ++ [numericAffinity F key]
      last_insert_rowid := db.key_names.length + 1 }

/-- `INSERT OR REPLACE INTO rule_results VALUES (?, ?, ?, ?, ?, ?, ?, ?)` -/
def insertIntoRuleResults (key_id : ℕ) (row : Row Time) (db : SQLiteBuildDB F KeyID Time) :
    SQLiteBuildDB F KeyID Time :=
  { db with
    rule_results := db.rule_results.insert key_id row
    last_insert_rowid := key_id }

/-- `SELECT ... FROM rule_results WHERE key_id == ?` -/
def fastFindRuleResult (key_id : ℕ) : Option (Row Time) :=
  db.rule_results.lookup key_id

/-- `SELECT ... FROM rule_results INNER JOIN key_names ON key_names.id = rule_results.key_id
WHERE key == ?` -/
def findRuleResult (key : Bytes) : Option (ℕ × Row Time) := do
  let id ← db.findKeyIDForKey key
  let row ← db.rule_results.lookup id
  return (id, row)

/-! ### Key ids -/

variable (delegate : Delegate KeyID) (dbKeyID : ℕ)

/-- Cache that a row id and an id of the engine belong together. -/
def cache (keyID : KeyID) (db : SQLiteBuildDB F KeyID Time) :
    SQLiteBuildDB F KeyID Time :=
  { db with
    engineKeyIDs := db.engineKeyIDs.insert dbKeyID keyID
    dbKeyIDs := db.dbKeyIDs.insert keyID dbKeyID }

variable (keyID : KeyID)

/-- Look the key up in the table, and insert it if it is not there. -/
def getKeyIDFromDB (db : SQLiteBuildDB F KeyID Time) :
    ℕ × SQLiteBuildDB F KeyID Time :=
  match db.findKeyIDForKey (delegate.getKeyForID keyID) with
  | some id => (id, db)
  | none =>
      let db := db.insertIntoKeys (delegate.getKeyForID keyID)
      (db.last_insert_rowid, db)

/-- The row id for an id of the engine. -/
def getKeyID (db : SQLiteBuildDB F KeyID Time) :
    ℕ × SQLiteBuildDB F KeyID Time :=
  match db.dbKeyIDs.lookup keyID with
  | some id => (id, db)
  | none =>
      let (id, db) := db.getKeyIDFromDB delegate keyID
      (id, if id ≠ 0 then db.cache id keyID else db)

/-- The id of the engine for a row id. -/
def getKeyIDForID (db : SQLiteBuildDB F KeyID Time) :
    Except Error KeyID × SQLiteBuildDB F KeyID Time :=
  match db.engineKeyIDs.lookup dbKeyID with
  | some keyID => (.ok keyID, db)
  | none =>
      match db.findKeyNameForKeyID dbKeyID with
      | none => (.error (.noKeyName dbKeyID), db)
      | some key => (.ok (delegate.getKeyID key), db.cache dbKeyID (delegate.getKeyID key))

/-! ### Results -/

/-- A row id and the flags of a dependency in one number. -/
def pack (orderOnly singleUse : Bool) : UInt64 :=
  (UInt64.ofNat dbKeyID <<< 2) + (singleUse.toUInt64 <<< 1) + orderOnly.toUInt64

/-- The numbers for the dependencies of a result. -/
def encodeDependencies : List (Dependency KeyID) → SQLiteBuildDB F KeyID Time →
    List UInt64 × SQLiteBuildDB F KeyID Time
  | [], db => ([], db)
  | dependency :: dependencies, db =>
      let (dbKeyID, db) := db.getKeyID delegate dependency.keyID
      let (raws, db) := encodeDependencies dependencies db
      (pack dbKeyID dependency.orderOnly dependency.singleUse :: raws, db)

/-- Store the result for a key. -/
def setRuleResult (ruleResult : Result KeyID Time)
    (db : SQLiteBuildDB F KeyID Time) : SQLiteBuildDB F KeyID Time :=
  let (dbKeyID, db) := db.getKeyID delegate keyID
  let (raws, db) := db.encodeDependencies delegate ruleResult.dependencies
  db.insertIntoRuleResults dbKeyID
    { value := ruleResult.value
      signature := ruleResult.signature.toInt64
      built_at := ruleResult.builtAt.toInt64
      computed_at := ruleResult.computedAt.toInt64
      start := ruleResult.start
      finish := ruleResult.finish
      dependencies := raws.flatMap write64 }

/-- The dependencies for the numbers that are stored for them. -/
def decodeDependencies : List UInt64 → SQLiteBuildDB F KeyID Time →
    Except Error (List (Dependency KeyID)) × SQLiteBuildDB F KeyID Time
  | [], db => (.ok [], db)
  | raw :: raws, db =>
      match db.getKeyIDForID delegate (raw >>> 2).toNat with
      | (.error e, db) => (.error e, db)
      | (.ok keyID, db) =>
          match decodeDependencies raws db with
          | (.error e, db) => (.error e, db)
          | (.ok dependencies, db) =>
              (.ok (⟨keyID, raw &&& 1 = 1, raw >>> 1 &&& 1 = 1⟩ :: dependencies), db)

/-- The result that a row has. -/
def readRow (row : Row Time) (db : SQLiteBuildDB F KeyID Time) :
    Except Error (Option (Result KeyID Time)) × SQLiteBuildDB F KeyID Time :=
  let numDependencies := row.dependencies.length / 8
  if row.dependencies.length ≠ numDependencies * 8 then
    (.error (.unexpectedContents dbKeyID), db)
  else
    match (Decoder.readMany Decoder.read64 numDependencies).run row.dependencies with
    -- There are eight bytes for each number, so the decoder does not run past the end.
    | none => (.error (.unexpectedContents dbKeyID), db)
    | some (raws, _) =>
        match db.decodeDependencies delegate raws with
        | (.error e, db) => (.error e, db)
        | (.ok dependencies, db) =>
            (.ok (some
              { value := row.value
                signature := row.signature.toUInt64
                computedAt := row.computed_at.toUInt64
                builtAt := row.built_at.toUInt64
                start := row.start
                finish := row.finish
                dependencies := dependencies }), db)

/-- Look up the result for a key. -/
def lookupRuleResult (key : Bytes) (db : SQLiteBuildDB F KeyID Time) :
    Except Error (Option (Result KeyID Time)) × SQLiteBuildDB F KeyID Time :=
  match db.dbKeyIDs.lookup keyID with
  | some dbKeyID =>
      match db.fastFindRuleResult dbKeyID with
      | none => (.ok none, db)
      | some row => db.readRow delegate dbKeyID row
  | none =>
      match db.findRuleResult key with
      | none => (.ok none, db)
      | some (dbKeyID, row) => (db.cache dbKeyID keyID).readRow delegate dbKeyID row

/-! ### Histories -/

/-- The connection is closed when a build is complete; the next call opens another one. -/
def buildComplete : SQLiteBuildDB F KeyID Time :=
  { db with last_insert_rowid := 0 }

/-- The file is opened by another build database. -/
def reopen : SQLiteBuildDB F KeyID Time where
  key_names := db.key_names
  rule_results := db.rule_results

/-- A call of the database.  A rule and the dependencies of its result are given by their
keys; the engine passes their ids. -/
inductive Call (KeyID Time : Type) where
  | setRuleResult (key : Bytes) (result : Result Bytes Time)
  | lookupRuleResult (key : Bytes)
  | buildComplete
  | reopen (delegate : Delegate KeyID)

/-- The keys of a call. -/
def Call.keys : Call KeyID Time → List Bytes
  | .setRuleResult key result => key :: result.dependencies.map Dependency.keyID
  | .lookupRuleResult key => [key]
  | .buildComplete => []
  | .reopen _ => []

/-- The result that a call sets for a key. -/
def Call.sets (key : Bytes) : Call KeyID Time → Option (Result Bytes Time)
  | .setRuleResult key' result => if key' = key then some result else none
  | _ => none

/-- The result that was set last for a key. -/
def lastSet (calls : List (Call KeyID Time)) (key : Bytes) : Option (Result Bytes Time) :=
  (calls.filterMap (Call.sets key)).getLast?

/-- A database and the engine it is attached to. -/
structure Session (F : RealFormat) (KeyID Time : Type) where
  delegate : Delegate KeyID
  db : SQLiteBuildDB F KeyID Time := {}

variable (s : Session F KeyID Time)

/-- Look up a key. -/
def Session.lookup (key : Bytes) :
    Except Error (Option (Result KeyID Time)) × SQLiteBuildDB F KeyID Time :=
  s.db.lookupRuleResult s.delegate (s.delegate.getKeyID key) key

/-- Carry out a call. -/
def Session.call : Call KeyID Time → Session F KeyID Time
  | .setRuleResult key result =>
      { s with db := s.db.setRuleResult s.delegate (s.delegate.getKeyID key)
                (result.map s.delegate.getKeyID) }
  | .lookupRuleResult key => { s with db := (s.lookup key).2 }
  | .buildComplete => { s with db := s.db.buildComplete }
  | .reopen delegate => { delegate := delegate, db := s.db.reopen }

/-- Carry out one call after the other. -/
def Session.run (calls : List (Call KeyID Time)) :
    Session F KeyID Time :=
  calls.foldl Session.call s

end SQLiteBuildDB

end LLBuild

import LLBuild.Core.ResultStore

/-!
# The result object of a lookup

The engine passes the result of a new rule to the database, which fills it.  Here the result
object is a part of the state: the fields are written one after another, and the dependencies
are written into a list that was given its length before.  The lookup finds the same as
`lookupRuleResult`, which returns a result.

A lookup that finds no row leaves the object as it was.  One that fails while it reads the
dependencies of a row has already written the other fields.
-/

namespace LLBuild

open List

open BinaryCoding SQLite

namespace SQLiteBuildDB

variable {F : RealFormat} {KeyID Time : Type} [DecidableEq KeyID] [Inhabited KeyID]
  (delegate : Delegate KeyID)

/-- What a lookup returns, the error it reports, and what it leaves in the result object. -/
structure Lookup (F : RealFormat) (KeyID Time : Type) where
  found : Bool
  error_out : Option Error
  result_out : Result KeyID Time
  db : SQLiteBuildDB F KeyID Time

/-- Change the number of dependencies.  New ones have an id that stands for no key. -/
def resize (n : ℕ) (dependencies : List (Dependency KeyID)) : List (Dependency KeyID) :=
  dependencies.take n ++ replicate (n - dependencies.length) ⟨default, false, false⟩

/-- Write the dependencies from an index on, up to one whose key is not known. -/
def setDependencies : (i : ℕ) → List UInt64 → List (Dependency KeyID) →
    SQLiteBuildDB F KeyID Time →
    Option Error × List (Dependency KeyID) × SQLiteBuildDB F KeyID Time
  | _, [], dependencies, db => (none, dependencies, db)
  | i, raw :: raws, dependencies, db =>
      match db.getKeyIDForID delegate (raw >>> 2).toNat with
      | (.error e, db) => (some e, dependencies, db)
      | (.ok keyID, db) =>
          setDependencies (i + 1) raws
            (dependencies.set i ⟨keyID, raw &&& 1 = 1, raw >>> 1 &&& 1 = 1⟩) db

/-- Write the fields of a row other than the dependencies. -/
def Row.fill (row : Row Time) (result_out : Result KeyID Time) : Result KeyID Time :=
  { result_out with
    value := row.value
    builtAt := row.built_at.toUInt64
    computedAt := row.computed_at.toUInt64
    start := row.start
    finish := row.finish
    signature := row.signature.toUInt64 }

/-- Write a row. -/
def readRowInto (dbKeyID : ℕ) (row : Row Time) (result_out : Result KeyID Time)
    (db : SQLiteBuildDB F KeyID Time) : Lookup F KeyID Time :=
  let result_out := row.fill result_out
  let numDependencies := row.dependencies.length / 8
  if row.dependencies.length ≠ numDependencies * 8 then
    ⟨false, some (.unexpectedContents dbKeyID), result_out, db⟩
  else
    match (Decoder.readMany Decoder.read64 numDependencies).run row.dependencies with
    -- There are eight bytes for each number, so the decoder does not run past the end.
    | none => ⟨false, some (.unexpectedContents dbKeyID), result_out, db⟩
    | some (raws, _) =>
        let (error, dependencies, db) :=
          db.setDependencies delegate 0 raws (resize numDependencies result_out.dependencies)
        ⟨error.isNone, error, { result_out with dependencies := dependencies }, db⟩

/-- The row that a lookup finds. -/
def findRow (keyID : KeyID) (key : Bytes) (db : SQLiteBuildDB F KeyID Time) :
    Option (ℕ × Row Time) :=
  match db.dbKeyIDs.lookup keyID with
  | some dbKeyID => (db.fastFindRuleResult dbKeyID).map fun row => (dbKeyID, row)
  | none => db.findRuleResult key

/-- Look up the result for a key, and write it. -/
def lookupRuleResultInto (keyID : KeyID) (key : Bytes) (result_out : Result KeyID Time)
    (db : SQLiteBuildDB F KeyID Time) : Lookup F KeyID Time :=
  match db.dbKeyIDs.lookup keyID with
  | some dbKeyID =>
      match db.fastFindRuleResult dbKeyID with
      | none => ⟨false, none, result_out, db⟩
      | some row => db.readRowInto delegate dbKeyID row result_out
  | none =>
      match db.findRuleResult key with
      | none => ⟨false, none, result_out, db⟩
      | some (dbKeyID, row) => (db.cache dbKeyID keyID).readRowInto delegate dbKeyID row result_out

/-! ### Writing the dependencies -/

section

omit [Inhabited KeyID]

variable {delegate} {raws : List UInt64} {db db' : SQLiteBuildDB F KeyID Time}

/-- Dependencies that can be decoded replace those from an index on. -/
theorem setDependencies_of_ok
    {decoded dependencies : List (Dependency KeyID)} {i : ℕ}
    (h : db.decodeDependencies delegate raws = (.ok decoded, db'))
    (hlength : dependencies.length = i + raws.length) :
  db.setDependencies delegate i raws dependencies = (none, dependencies.take i ++ decoded, db')
  := by
  induction raws generalizing i dependencies db decoded with
  | nil =>
    cases h
    rw [setDependencies, append_nil, take_of_length_le (by simp [hlength])]
  | cons raw raws ih =>
    rw [decodeDependencies] at h
    rw [setDependencies]
    generalize db.getKeyIDForID delegate (raw >>> 2).toNat = got at h ⊢
    obtain ⟨e | keyID, db₁⟩ := got
    · cases h
    · dsimp only at h ⊢
      cases hdecode : db₁.decodeDependencies delegate raws with
      | mk result db₂ =>
        rw [hdecode] at h
        cases result with
        | error e => cases h
        | ok rest =>
          cases h
          rw [ih hdecode (by rw [length_set, hlength, length_cons]; omega)]
          have hi : i < dependencies.length := by
            rw [hlength, length_cons]
            omega
          rw [take_add_one, take_set_of_le (Nat.le_refl i)]
          simp [hi]

end

variable {delegate} {db : SQLiteBuildDB F KeyID Time} {keyID : KeyID} {key : Bytes}
  {result_out : Result KeyID Time}

/-! ### The lookup is the one that returns a result -/

omit [DecidableEq KeyID] in
theorem length_resize (n : ℕ) (dependencies : List (Dependency KeyID)) :
  (resize n dependencies).length = n
  := by
  rw [resize, length_append, length_take, length_replicate]
  omega

variable {db' : SQLiteBuildDB F KeyID Time}

/-- The result of a row that can be read is written over the whole object. -/
theorem readRowInto_of_ok
    {dbKeyID : ℕ} {row : Row Time} {result : Option (Result KeyID Time)}
    (h : db.readRow delegate dbKeyID row = (.ok result, db')) :
  db.readRowInto delegate dbKeyID row result_out
    = ⟨result.isSome, none, result.getD result_out, db'⟩
  := by
  rw [readRow] at h
  rw [readRowInto]
  split_ifs at h ⊢ with hblob
  · cases h
  obtain ⟨raws, rest, hraws, hlength⟩ := exists_run_readMany_read64 (not_not.mp hblob).ge
  rw [hraws] at h
  rw [hraws]
  dsimp only at h ⊢
  generalize hdecode : db.decodeDependencies delegate raws = decoded at h
  obtain ⟨e | decoded, db₁⟩ := decoded
  · cases h
  · cases h
    rw [setDependencies_of_ok hdecode (by rw [length_resize, hlength, Nat.zero_add])]
    rfl

/-- The ids of the key of a row are cached before the row is read. -/
def cacheRow (keyID : KeyID) (dbKeyID : ℕ) (db : SQLiteBuildDB F KeyID Time) :
    SQLiteBuildDB F KeyID Time :=
  match db.dbKeyIDs.lookup keyID with
  | some _ => db
  | none => db.cache dbKeyID keyID

omit [Inhabited KeyID] in
theorem lookupRuleResult_eq :
  db.lookupRuleResult delegate keyID key
    = match db.findRow keyID key with
      | none => (.ok none, db)
      | some (dbKeyID, row) => (db.cacheRow keyID dbKeyID).readRow delegate dbKeyID row
  := by
  rw [lookupRuleResult, findRow]
  cases hcached : db.dbKeyIDs.lookup keyID with
  | some dbKeyID => cases hrow : db.fastFindRuleResult dbKeyID <;> simp [cacheRow, hcached, hrow]
  | none => cases db.findRuleResult key <;> simp [cacheRow, hcached]

theorem lookupRuleResultInto_eq :
  db.lookupRuleResultInto delegate keyID key result_out
    = match db.findRow keyID key with
      | none => ⟨false, none, result_out, db⟩
      | some (dbKeyID, row) =>
          (db.cacheRow keyID dbKeyID).readRowInto delegate dbKeyID row result_out
  := by
  rw [lookupRuleResultInto, findRow]
  cases hcached : db.dbKeyIDs.lookup keyID with
  | some dbKeyID => cases hrow : db.fastFindRuleResult dbKeyID <;> simp [cacheRow, hcached, hrow]
  | none => cases db.findRuleResult key <;> simp [cacheRow, hcached]

/-- What is found is written over the whole object, and the object stays as it is if there is
nothing to be found. -/
theorem lookupRuleResultInto_of_ok
    {result : Option (Result KeyID Time)}
    (h : db.lookupRuleResult delegate keyID key = (.ok result, db')) :
  db.lookupRuleResultInto delegate keyID key result_out
    = ⟨result.isSome, none, result.getD result_out, db'⟩
  := by
  rw [lookupRuleResult_eq] at h
  rw [lookupRuleResultInto_eq]
  cases hrow : db.findRow keyID key with
  | none =>
    rw [hrow] at h
    cases h
    rfl
  | some found =>
    rw [hrow] at h
    exact readRowInto_of_ok h

/-! ### Rows that can be read -/

/-- A row id that stands for a key of the engine, or that is the id of a name. -/
def IsKnown (db : SQLiteBuildDB F KeyID Time) (dbKeyID : ℕ) : Prop :=
  (db.engineKeyIDs.lookup dbKeyID).isSome ∨ (db.findKeyNameForKeyID dbKeyID).isSome

/-- The dependencies of a row are numbers of eight bytes, with the ids of keys that are known. -/
structure Row.IsReadable (row : Row Time) (db : SQLiteBuildDB F KeyID Time) : Prop where
  length : 8 ∣ row.dependencies.length
  known : ∀ raws rest,
    (Decoder.readMany Decoder.read64 (row.dependencies.length / 8)).run row.dependencies
      = some (raws, rest) →
    ∀ raw ∈ raws, db.IsKnown (raw >>> 2).toNat

omit [Inhabited KeyID] in
/-- The id of the engine is found exactly for the row ids that are known, and these stay what they
are. -/
theorem getKeyIDForID_ok_iff {dbKeyID : ℕ} :
  (∃ keyID db', db.getKeyIDForID delegate dbKeyID = (.ok keyID, db')) ↔ db.IsKnown dbKeyID
  := by
  rw [getKeyIDForID, IsKnown]
  cases db.engineKeyIDs.lookup dbKeyID with
  | some keyID => exact iff_of_true ⟨keyID, db, rfl⟩ (.inl rfl)
  | none =>
    cases db.findKeyNameForKeyID dbKeyID with
    | some name => exact iff_of_true ⟨_, _, rfl⟩ (.inr rfl)
    | none => simp

omit [Inhabited KeyID] in
theorem isKnown_getKeyIDForID {dbKeyID other : ℕ} :
  (db.getKeyIDForID delegate dbKeyID).2.IsKnown other ↔ db.IsKnown other
  := by
  rw [getKeyIDForID]
  cases hcached : db.engineKeyIDs.lookup dbKeyID with
  | some keyID => rfl
  | none =>
    cases hname : db.findKeyNameForKeyID dbKeyID with
    | none => rfl
    | some name =>
      by_cases hother : other = dbKeyID
      · rw [hother]
        exact iff_of_true (.inl (by simp [cache])) (.inr (by rw [hname]; rfl))
      · have hlookup : (db.cache dbKeyID (delegate.getKeyID name)).engineKeyIDs.lookup other
            = db.engineKeyIDs.lookup other := AList.lookup_insert_ne hother
        rw [IsKnown, hlookup]
        rfl

omit [Inhabited KeyID] in
theorem decodeDependencies_of_isKnown
    {raws : List UInt64} (h : ∀ raw ∈ raws, db.IsKnown (raw >>> 2).toNat) :
  ∃ decoded db', db.decodeDependencies delegate raws = (.ok decoded, db')
  := by
  induction raws generalizing db with
  | nil => exact ⟨[], db, rfl⟩
  | cons raw raws ih =>
    obtain ⟨keyID, db₁, hget⟩ :
        ∃ keyID db₁, db.getKeyIDForID delegate (raw >>> 2).toNat = (.ok keyID, db₁) :=
      getKeyIDForID_ok_iff.mpr (h raw (.head _))
    have hraws : ∀ raw ∈ raws, db₁.IsKnown (raw >>> 2).toNat := by
      intro raw' hraw'
      have hknown : (db.getKeyIDForID delegate (raw >>> 2).toNat).2.IsKnown (raw' >>> 2).toNat :=
        isKnown_getKeyIDForID.mpr (h raw' (.tail _ hraw'))
      rwa [hget] at hknown
    obtain ⟨decoded, db₂, hdecode⟩ := ih hraws
    rw [decodeDependencies, hget]
    dsimp only
    rw [hdecode]
    exact ⟨_, db₂, rfl⟩

omit [Inhabited KeyID] in
/-- The dependencies are all written only if their ids are known. -/
theorem isKnown_of_setDependencies
    {raws : List UInt64} {dependencies : List (Dependency KeyID)} {i : ℕ}
    (h : (db.setDependencies delegate i raws dependencies).1 = none) :
  ∀ raw ∈ raws, db.IsKnown (raw >>> 2).toNat
  := by
  induction raws generalizing i dependencies db with
  | nil => exact forall_mem_nil _
  | cons raw raws ih =>
    rw [setDependencies] at h
    cases hget : db.getKeyIDForID delegate (raw >>> 2).toNat with
    | mk result db₁ =>
      rw [hget] at h
      cases result with
      | error e => cases h
      | ok keyID =>
        refine forall_mem_cons.mpr ⟨getKeyIDForID_ok_iff.mp ⟨keyID, db₁, hget⟩, ?_⟩
        intro raw' hraw'
        have hknown := ih h raw' hraw'
        rw [← show (db.getKeyIDForID delegate (raw >>> 2).toNat).2 = db₁ by rw [hget]] at hknown
        exact isKnown_getKeyIDForID.mp hknown

omit [Inhabited KeyID] in
/-- A row that can be read is read. -/
theorem Row.IsReadable.readRow
    {row : Row Time} (h : row.IsReadable db) (delegate : Delegate KeyID) (dbKeyID : ℕ) :
  ∃ r db', db.readRow delegate dbKeyID row = (.ok (some r), db')
  := by
  have hblob : row.dependencies.length = row.dependencies.length / 8 * 8 :=
    (Nat.div_mul_cancel h.length).symm
  obtain ⟨raws, rest, hraws, -⟩ := exists_run_readMany_read64 hblob.ge
  obtain ⟨decoded, db', hdecode⟩ := decodeDependencies_of_isKnown (h.known raws rest hraws)
  rw [SQLiteBuildDB.readRow, if_neg (not_not.mpr hblob), hraws]
  dsimp only
  rw [hdecode]
  exact ⟨_, db', rfl⟩

/-- A row is found only if it can be read. -/
theorem Row.isReadable_of_found {row : Row Time} {dbKeyID : ℕ}
    (h : (db.readRowInto delegate dbKeyID row result_out).found = true) :
  row.IsReadable db
  := by
  rw [readRowInto] at h
  dsimp only at h
  split_ifs at h with hblob
  have hblob := not_not.mp hblob
  refine ⟨Dvd.intro_left _ hblob.symm, ?_⟩
  intro raws rest hraws
  rw [hraws] at h
  exact isKnown_of_setDependencies (Option.isNone_iff_eq_none.mp h)

/-- The value of a row is written in any case. -/
theorem value_readRowInto (delegate : Delegate KeyID) (db : SQLiteBuildDB F KeyID Time)
    (dbKeyID : ℕ) (row : Row Time) (result_out : Result KeyID Time) :
  (db.readRowInto delegate dbKeyID row result_out).result_out.value = row.value
  := by
  rw [readRowInto]
  dsimp only
  split_ifs with hblob
  · rfl
  · split <;> rfl

/-- **A failed lookup is invisible** exactly if the row of the key, if there is one, has
dependencies that can be read: then a lookup that returns false leaves every result object that
was never built as it was. -/
theorem result_out_of_not_found_iff
    (delegate : Delegate KeyID) (db : SQLiteBuildDB F KeyID Time) (keyID : KeyID) (key : Bytes)
    (unbuilt : Result KeyID Time) :
  (∀ result_out : Result KeyID Time, result_out.builtAt = 0 →
    (db.lookupRuleResultInto delegate keyID key result_out).found = false →
    (db.lookupRuleResultInto delegate keyID key result_out).result_out = result_out)
  ↔ ∀ dbKeyID row, db.findRow keyID key = some (dbKeyID, row) →
    row.IsReadable (db.cacheRow keyID dbKeyID)
  := by
  constructor
  · intro hunchanged dbKeyID row hrow
    -- An object with another value than the one of the row would be changed.
    obtain ⟨other, hother, hbuiltAt⟩ : ∃ other : Result KeyID Time,
        other.value = 0 :: row.value ∧ other.builtAt = 0 :=
      ⟨{ unbuilt with builtAt := 0, value := 0 :: row.value }, rfl, rfl⟩
    have hunchanged := hunchanged other hbuiltAt
    rw [lookupRuleResultInto_eq, hrow] at hunchanged
    by_contra hreadable
    have hfound : ((db.cacheRow keyID dbKeyID).readRowInto delegate dbKeyID row other).found
        = false := Bool.of_not_eq_true (mt Row.isReadable_of_found hreadable)
    have hvalue := congrArg Result.value (hunchanged hfound)
    rw [value_readRowInto, hother] at hvalue
    exact cons_ne_self _ _ hvalue.symm
  · intro hreadable result_out _ hfound
    rw [lookupRuleResultInto_eq] at hfound ⊢
    cases hrow : db.findRow keyID key with
    | none => rfl
    | some found =>
      obtain ⟨dbKeyID, row⟩ := found
      obtain ⟨r, db', hread⟩ := (hreadable dbKeyID row hrow).readRow delegate dbKeyID
      rw [hrow] at hfound
      dsimp only at hfound
      rw [readRowInto_of_ok hread] at hfound
      cases hfound

open StoreSamples

namespace LookupSamples

/-- The result object that the engine passes in. -/
def unbuilt : Result Bytes Unit where
  value := []
  signature := 0
  computedAt := 0
  builtAt := 0
  start := ()
  finish := ()
  dependencies := []

/-- A lookup of the key `a` in a database that has a row for it. -/
def lookupRow (dependencies : Bytes) : Lookup written Bytes Unit :=
  lookupRuleResultInto engine [97] [97] unbuilt
    { key_names := [.text [97]]
      rule_results := AList.singleton 1 ⟨[7], 1, 2, 2, (), (), dependencies⟩ }

end LookupSamples

open LookupSamples

/-- The dependencies of a row are three bytes, or the id of a key that has no name.  The lookup
returns false, but the result object says that the rule was built. -/
theorem result_out_written :
  ((lookupRow [1, 2, 3]).found = false
      ∧ (lookupRow [1, 2, 3]).error_out = some (.unexpectedContents 1)
      ∧ (lookupRow [1, 2, 3]).result_out.builtAt = 2
      ∧ (lookupRow [1, 2, 3]).result_out.value = [7])
    ∧ (lookupRow (write64 20)).found = false
      ∧ (lookupRow (write64 20)).error_out = some (.noKeyName 5)
      ∧ (lookupRow (write64 20)).result_out.builtAt = 2
      ∧ (lookupRow (write64 20)).result_out.dependencies = [⟨[], false, false⟩]
  := ⟨⟨rfl, rfl, rfl, rfl⟩, rfl, rfl, rfl, rfl⟩

end SQLiteBuildDB

end LLBuild

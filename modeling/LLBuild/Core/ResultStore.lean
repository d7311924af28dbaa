import LLBuild.Core.SQLiteBuildDB

/-!
# The result store

After any history of calls a lookup finds the result that was set last for the key, if the
keys of the history are preserved by the conversions of the key column.  The invariant is
that the rows of `key_names` are the names of different keys, that every row of
`rule_results` stores the result that was set last for the key its id names, and that the
cached ids name the keys they are cached for.
-/

namespace LLBuild

open Function

open Option

open List

open BinaryCoding SQLite

namespace SQLiteBuildDB

/-! ### Row ids -/

/-- The row with the id is the row of the key. -/
def Named (names : List Bytes) (id : ℕ) (key : Bytes) : Prop :=
  ∃ i, id = i + 1 ∧ names[i]? = some key

namespace Named

variable {names names' : List Bytes} {id id' : ℕ} {key key' : Bytes}

theorem key_eq (h : Named names id key) (h' : Named names id key') :
  key = key'
  := by
  obtain ⟨i, rfl, hi⟩ := h
  obtain ⟨j, hj, hj'⟩ := h'
  obtain rfl := Nat.succ.inj hj
  exact some.inj (hi.symm.trans hj')

theorem id_eq (hnodup : names.Nodup) (h : Named names id key) (h' : Named names id' key) :
  id = id'
  := by
  obtain ⟨i, rfl, hi⟩ := h
  obtain ⟨j, rfl, hj⟩ := h'
  obtain ⟨hlen, -⟩ := List.getElem?_eq_some_iff.mp hi
  rw [(List.getElem?_inj hlen hnodup).mp (hi.trans hj.symm)]

theorem mono (h : Named names id key) (hnames : names <+: names') :
  Named names' id key
  := by
  obtain ⟨i, rfl, hi⟩ := h
  obtain ⟨suffix, rfl⟩ := hnames
  obtain ⟨hlen, -⟩ := List.getElem?_eq_some_iff.mp hi
  refine ⟨i, rfl, ?_⟩
  rw [List.getElem?_append_left hlen, hi]

theorem le_length (h : Named names id key) :
  id ≤ names.length
  := by
  obtain ⟨i, rfl, hi⟩ := h
  obtain ⟨hlen, -⟩ := List.getElem?_eq_some_iff.mp hi
  exact hlen

theorem last :
  Named (names ++ [key]) (names.length + 1) key
  := ⟨names.length, rfl, by simp⟩

end Named

/-! ### Numbers for dependencies -/

theorem toNat_pack {id : ℕ} (orderOnly singleUse : Bool) (h : id < 2 ^ 62) :
  (pack id orderOnly singleUse).toNat = 4 * id + 2 * singleUse.toNat + orderOnly.toNat
  := by
  have hid : (UInt64.ofNat id <<< 2).toNat = 4 * id := by
    simp [Nat.shiftLeft_eq]
    omega
  have hsingle : (singleUse.toUInt64 <<< 1).toNat = 2 * singleUse.toNat := by
    cases singleUse <;> rfl
  have horder : orderOnly.toUInt64.toNat = orderOnly.toNat := by
    cases orderOnly <;> rfl
  have hs := Bool.toNat_le singleUse
  have ho := Bool.toNat_le orderOnly
  rw [pack, UInt64.toNat_add, UInt64.toNat_add, hid]
  omega

/-- The number stands for the dependency. -/
structure Unpacks (names : List Bytes) (raw : UInt64) (d : Dependency Bytes) : Prop where
  named : Named names (raw >>> 2).toNat d.keyID
  orderOnly : decide (raw &&& 1 = 1) = d.orderOnly
  singleUse : decide (raw >>> 1 &&& 1 = 1) = d.singleUse

theorem decide_and_one (raw : UInt64) (b : Bool) (h : raw.toNat % 2 = b.toNat) :
  decide (raw &&& 1 = 1) = b
  := by
  have hand : (raw &&& 1).toNat = b.toNat := by
    rw [← h]
    exact Nat.and_one_is_mod raw.toNat
  cases b with
  | true => exact decide_eq_true (UInt64.toNat_inj.mp hand)
  | false =>
    apply decide_eq_false
    intro heq
    rw [heq] at hand
    cases hand

variable {names names' : List Bytes} {d : Dependency Bytes}

theorem unpacks_pack {id : ℕ} (h : Named names id d.keyID) (hlt : names.length < 2 ^ 62) :
  Unpacks names (pack id d.orderOnly d.singleUse) d
  := by
  have hpack := toNat_pack d.orderOnly d.singleUse (lt_of_le_of_lt h.le_length hlt)
  have hsingle := Bool.toNat_le d.singleUse
  have horder := Bool.toNat_le d.orderOnly
  constructor
  · have hid : (pack id d.orderOnly d.singleUse >>> 2).toNat = id := by
      simp
      omega
    rwa [hid]
  · apply decide_and_one
    omega
  · apply decide_and_one
    simp
    omega

theorem length_flatMap_write64 (raws : List UInt64) :
  (raws.flatMap write64).length = raws.length * 8
  := by
  induction raws with
  | nil => rfl
  | cons raw raws ih =>
    rw [flatMap_cons, length_append, ih, length_cons, Nat.succ_mul, Nat.add_comm]
    rfl

theorem Unpacks.mono {raw : UInt64} (h : Unpacks names raw d) (hnames : names <+: names') :
  Unpacks names' raw d
  := ⟨h.named.mono hnames, h.orderOnly, h.singleUse⟩

/-! ### The invariant -/

section Store

variable {F : RealFormat} {KeyID Time : Type} [DecidableEq KeyID]

/-- The row stores the result. -/
structure Row.Stores (names : List Bytes) (row : Row Time) (r : Result Bytes Time) : Prop where
  value : row.value = r.value
  signature : row.signature.toUInt64 = r.signature
  computedAt : row.computed_at.toUInt64 = r.computedAt
  builtAt : row.built_at.toUInt64 = r.builtAt
  start : row.start = r.start
  finish : row.finish = r.finish
  dependencies : ∃ raws, row.dependencies = raws.flatMap write64
    ∧ List.Forall₂ (Unpacks names) raws r.dependencies

variable {r : Result Bytes Time} {row : Row Time}

theorem Row.Stores.mono (h : row.Stores names r) (hnames : names <+: names') :
  row.Stores names' r
  := by
  obtain ⟨raws, hraws, hunpacks⟩ := h.dependencies
  exact { h with dependencies := ⟨raws, hraws, hunpacks.imp (fun _ _ hu => hu.mono hnames)⟩ }

theorem Row.Stores.rel_mono {row? : Option (Row Time)} {r? : Option (Result Bytes Time)}
    (h : Option.Rel (Row.Stores names) row? r?) (hnames : names <+: names') :
  Option.Rel (Row.Stores names') row? r?
  := by
  cases h with
  | some hstores => exact .some (hstores.mono hnames)
  | none => exact .none

/-- The database stores the results `m` under the names of some of the keys. -/
structure Holds (keys : List Bytes) (delegate : Delegate KeyID)
    (m : Bytes → Option (Result Bytes Time)) (db : SQLiteBuildDB F KeyID Time)
    (names : List Bytes) : Prop where
  key_names : db.key_names = names.map (numericAffinity F)
  nodup : names.Nodup
  subset : names ⊆ keys
  known : ∀ key r, m key = some r → key ∈ names
  rows : ∀ id key, Named names id key →
    Option.Rel (Row.Stores names) (db.rule_results.lookup id) (m key)
  fresh : ∀ id, names.length < id → db.rule_results.lookup id = none
  dbKeyIDs : ∀ keyID id, db.dbKeyIDs.lookup keyID = some id →
    Named names id (delegate.getKeyForID keyID)
  engineKeyIDs : ∀ id keyID, db.engineKeyIDs.lookup id = some keyID →
    ∃ key, Named names id key ∧ keyID = delegate.getKeyID key

namespace Holds

variable {keys names : List Bytes} {delegate : Delegate KeyID}
  {m : Bytes → Option (Result Bytes Time)} {db : SQLiteBuildDB F KeyID Time} {key : Bytes}

section

variable (h : Holds keys delegate m db names)
include h

/-- Of the keys there are fewer than the row ids that can be packed. -/
theorem length_lt (hcount : keys.dedup.length < 2 ^ 62) :
  names.length < 2 ^ 62
  := by
  have hsub : names ⊆ keys.dedup := fun key hkey => mem_dedup.mpr (h.subset hkey)
  exact lt_of_le_of_lt (h.nodup.subperm hsub).length_le hcount

/-- A row with the key is found exactly if the key has a name. -/
theorem findKeyIDForKey (hkeys : ∀ k ∈ keys, Preserved k) (hkey : key ∈ keys) :
  match db.findKeyIDForKey key with
  | some id => Named names id key
  | none => key ∉ names
  := by
  have heq : ∀ k ∈ names, numericAffinity F k = numericAffinity F key ↔ k = key :=
    fun k hk => numericAffinity_inj F (hkeys k (h.subset hk)) (hkeys key hkey)
  rw [SQLiteBuildDB.findKeyIDForKey, h.key_names, findIdx?_map]
  cases hfind : names.findIdx? ((fun v => decide (v = numericAffinity F key)) ∘ numericAffinity F)
    with
  | some i =>
    obtain ⟨hlen, hi, -⟩ := findIdx?_eq_some_iff_getElem.mp hfind
    have hname := (heq _ (getElem_mem hlen)).mp (of_decide_eq_true hi)
    exact ⟨i, rfl, by rw [getElem?_eq_getElem hlen, hname]⟩
  | none =>
    intro hmem
    have hnot := findIdx?_eq_none_iff.mp hfind key hmem
    simp at hnot

theorem cache {id : ℕ} (hnamed : Named names id key) :
  Holds keys delegate m (db.cache id (delegate.getKeyID key)) names
  := { h with
    dbKeyIDs := by
      intro keyID id' hlookup
      rw [SQLiteBuildDB.cache, Table.lookup_insert] at hlookup
      split_ifs at hlookup with heq
      · cases hlookup
        rwa [heq, delegate.getKeyForID_getKeyID]
      · exact h.dbKeyIDs keyID id' hlookup
    engineKeyIDs := by
      intro id' keyID hlookup
      rw [SQLiteBuildDB.cache, Table.lookup_insert] at hlookup
      split_ifs at hlookup with heq
      · exact ⟨key, heq ▸ hnamed, (some.inj hlookup).symm⟩
      · exact h.engineKeyIDs id' keyID hlookup }

section

variable (hkeys : ∀ k ∈ keys, Preserved k)
include hkeys

theorem insertIntoKeys (hkey : key ∈ keys) (hnot : key ∉ names) :
  (db.insertIntoKeys key).last_insert_rowid = names.length + 1
    ∧ Holds keys delegate m (db.insertIntoKeys key) (names ++ [key])
  := by
  have hinsert : numericAffinity F key ∉ db.key_names := by
    rw [h.key_names]
    intro hmem
    obtain ⟨k, hk, heq⟩ := mem_map.mp hmem
    have hkk := (numericAffinity_inj F (hkeys k (h.subset hk)) (hkeys key hkey)).mp heq
    exact hnot (hkk ▸ hk)
  have hnames : names <+: names ++ [key] := prefix_append names [key]
  rw [SQLiteBuildDB.insertIntoKeys, if_neg hinsert]
  refine ⟨by simp [h.key_names], ?_⟩
  constructor
  case key_names => simp [h.key_names]
  case nodup => exact nodup_append.mpr ⟨h.nodup, nodup_singleton key, by
    rintro k hk k' hk' rfl
    exact hnot (mem_singleton.mp hk' ▸ hk)⟩
  case subset =>
    intro k hk
    rcases mem_append.mp hk with hk | hk
    · exact h.subset hk
    · exact mem_singleton.mp hk ▸ hkey
  case known => exact fun k r hr => hnames.subset (h.known k r hr)
  case rows =>
    rintro id k ⟨i, rfl, hi⟩
    by_cases hlen : i < names.length
    · rw [getElem?_append_left hlen] at hi
      exact Row.Stores.rel_mono (h.rows (i + 1) k ⟨i, rfl, hi⟩) hnames
    · -- The new row has no result, and none was set for its key.
      rw [getElem?_append_right (Nat.not_lt.mp hlen)] at hi
      obtain rfl := mem_singleton.mp (mem_of_getElem? hi)
      have hnone : m k = none := by
        by_contra hsome
        obtain ⟨r, hr⟩ := ne_none_iff_exists'.mp hsome
        exact hnot (h.known k r hr)
      have hrow : db.rule_results.lookup (i + 1) = none := h.fresh (i + 1) (by omega)
      rw [hnone, hrow]
      exact .none
  case fresh =>
    intro id hid
    rw [length_append] at hid
    exact h.fresh id (by omega)
  case dbKeyIDs => exact fun keyID id hid => (h.dbKeyIDs keyID id hid).mono hnames
  case engineKeyIDs =>
    intro id keyID hid
    obtain ⟨k, hk, heq⟩ := h.engineKeyIDs id keyID hid
    exact ⟨k, hk.mono hnames, heq⟩

/-- The row id of a key that is there, or is inserted. -/
theorem getKeyID (hkey : key ∈ keys) :
  ∃ names', names <+: names'
    ∧ Named names' (db.getKeyID delegate (delegate.getKeyID key)).1 key
    ∧ Holds keys delegate m (db.getKeyID delegate (delegate.getKeyID key)).2 names'
  := by
  rw [SQLiteBuildDB.getKeyID]
  cases hcached : db.dbKeyIDs.lookup (delegate.getKeyID key) with
  | some id =>
    have hnamed := h.dbKeyIDs _ id hcached
    rw [delegate.getKeyForID_getKeyID] at hnamed
    exact ⟨names, prefix_rfl, hnamed, h⟩
  | none =>
    have hfind := h.findKeyIDForKey hkeys hkey
    simp only [getKeyIDFromDB, delegate.getKeyForID_getKeyID]
    cases hid : db.findKeyIDForKey key with
    | some id =>
      rw [hid] at hfind
      have hne : id ≠ 0 := by
        obtain ⟨i, rfl, -⟩ := hfind
        exact Nat.succ_ne_zero i
      refine ⟨names, prefix_rfl, hfind, ?_⟩
      simp only [if_pos hne]
      exact h.cache hfind
    | none =>
      rw [hid] at hfind
      obtain ⟨hrowid, hinsert⟩ := h.insertIntoKeys hkeys hkey hfind
      refine ⟨names ++ [key], prefix_append names [key], ?_, ?_⟩
      · simp only [hrowid]
        exact Named.last
      · simp only [hrowid]
        exact hinsert.cache Named.last

/-- The dependencies of a result are packed with the row ids of their keys. -/
theorem encodeDependencies
    (hcount : keys.dedup.length < 2 ^ 62)
    (ds : List (Dependency Bytes)) (hds : ∀ d ∈ ds, d.keyID ∈ keys) :
  ∃ names', names <+: names'
    ∧ List.Forall₂ (Unpacks names')
      (db.encodeDependencies delegate (ds.map (Dependency.map delegate.getKeyID))).1 ds
    ∧ Holds keys delegate m
      (db.encodeDependencies delegate (ds.map (Dependency.map delegate.getKeyID))).2 names'
  := by
  induction ds generalizing db names with
  | nil => exact ⟨names, prefix_rfl, .nil, h⟩
  | cons d ds ih =>
    obtain ⟨names₁, hnames₁, hnamed, h₁⟩ := h.getKeyID hkeys (hds d mem_cons_self)
    obtain ⟨names₂, hnames₂, hunpacks, h₂⟩ :=
      ih h₁ (fun d' hd' => hds d' (mem_cons_of_mem d hd'))
    refine ⟨names₂, hnames₁.trans hnames₂, ?_, h₂⟩
    exact .cons (unpacks_pack (hnamed.mono hnames₂) (h₂.length_lt hcount)) hunpacks

end

theorem insertIntoRuleResults {id : ℕ} (hnamed : Named names id key) (hrow : row.Stores names r) :
  Holds keys delegate (update m key (some r)) (db.insertIntoRuleResults id row) names
  := { h with
    known := by
      intro k r' hr'
      by_cases hk : k = key
      · obtain ⟨i, -, hi⟩ := hnamed
        exact hk ▸ mem_of_getElem? hi
      · rw [update_of_ne hk] at hr'
        exact h.known k r' hr'
    rows := by
      intro id' k hk
      rw [SQLiteBuildDB.insertIntoRuleResults, Table.lookup_insert]
      by_cases hid : id' = id
      · subst hid
        rw [if_pos rfl, hk.key_eq hnamed, update_self]
        exact .some hrow
      · have hne : k ≠ key := by
          rintro rfl
          exact hid (Named.id_eq h.nodup hk hnamed)
        rw [if_neg hid, update_of_ne hne]
        exact h.rows id' k hk
    fresh := by
      intro id' hid'
      have hne : id' ≠ id := (lt_of_le_of_lt hnamed.le_length hid').ne'
      rw [SQLiteBuildDB.insertIntoRuleResults, Table.lookup_insert, if_neg hne]
      exact h.fresh id' hid' }

section

variable (hkeys : ∀ k ∈ keys, Preserved k)
include hkeys

theorem setRuleResult
    (hcount : keys.dedup.length < 2 ^ 62)
    (r : Result Bytes Time) (hkey : key ∈ keys) (hds : ∀ d ∈ r.dependencies, d.keyID ∈ keys) :
  ∃ names', Holds keys delegate (update m key (some r))
    (db.setRuleResult delegate (delegate.getKeyID key) (r.map delegate.getKeyID)) names'
  := by
  obtain ⟨names₁, -, hnamed, h₁⟩ := h.getKeyID hkeys hkey
  obtain ⟨names₂, hnames, hunpacks, h₂⟩ := h₁.encodeDependencies hkeys hcount r.dependencies hds
  refine ⟨names₂, h₂.insertIntoRuleResults (hnamed.mono hnames) ?_⟩
  exact ⟨rfl, UInt64.toUInt64_toInt64 _, UInt64.toUInt64_toInt64 _, UInt64.toUInt64_toInt64 _, rfl,
    rfl, _, rfl, hunpacks⟩

/-- The id of the engine for a row id that names a key. -/
theorem getKeyIDForID {id : ℕ} (hnamed : Named names id key) :
  (db.getKeyIDForID delegate id).1 = .ok (delegate.getKeyID key)
    ∧ Holds keys delegate m (db.getKeyIDForID delegate id).2 names
  := by
  rw [SQLiteBuildDB.getKeyIDForID]
  cases hcached : db.engineKeyIDs.lookup id with
  | some keyID =>
    obtain ⟨k, hk, rfl⟩ := h.engineKeyIDs id keyID hcached
    exact ⟨by rw [hk.key_eq hnamed], h⟩
  | none =>
    have hname : db.findKeyNameForKeyID id = some key := by
      obtain ⟨i, rfl, hi⟩ := hnamed
      have hkey : key ∈ keys := h.subset (mem_of_getElem? hi)
      rw [findKeyNameForKeyID, h.key_names, getElem?_map, hi, map_some,
        map_some, columnText_numericAffinity F (hkeys key hkey)]
    rw [hname]
    exact ⟨rfl, h.cache hnamed⟩

theorem decodeDependencies
    {raws : List UInt64} {ds : List (Dependency Bytes)}
    (hunpacks : List.Forall₂ (Unpacks names) raws ds) :
  (db.decodeDependencies delegate raws).1 = .ok (ds.map (Dependency.map delegate.getKeyID))
    ∧ Holds keys delegate m (db.decodeDependencies delegate raws).2 names
  := by
  induction hunpacks generalizing db with
  | nil => exact ⟨rfl, h⟩
  | cons hu _ ih =>
    obtain ⟨hid, h₁⟩ := h.getKeyIDForID hkeys hu.named
    obtain ⟨hds, h₂⟩ := ih h₁
    rw [SQLiteBuildDB.decodeDependencies]
    split
    · next heq =>
        rw [heq] at hid
        cases hid
    · next keyID db₁ heq =>
        rw [heq] at hid hds h₂
        cases hid
        split
        · next heq' =>
            rw [heq'] at hds
            cases hds
        · next dependencies db₂ heq' =>
            rw [heq'] at hds h₂
            cases hds
            refine ⟨?_, h₂⟩
            rw [hu.orderOnly, hu.singleUse]
            rfl

theorem readRow {id : ℕ} (hrow : row.Stores names r) :
  (db.readRow delegate id row).1 = .ok (some (r.map delegate.getKeyID))
    ∧ Holds keys delegate m (db.readRow delegate id row).2 names
  := by
  obtain ⟨raws, hraws, hunpacks⟩ := hrow.dependencies
  have hlen : row.dependencies.length = raws.length * 8 := by
    rw [hraws, length_flatMap_write64]
  have hread := reads_readMany reads_read64 raws []
  rw [append_nil, ← hraws] at hread
  obtain ⟨hds, h₁⟩ := h.decodeDependencies hkeys hunpacks
  rw [SQLiteBuildDB.readRow, hlen, Nat.mul_div_cancel _ (by decide)]
  simp only [ne_eq, not_true_eq_false, if_false, hread]
  split
  · next heq =>
      rw [heq] at hds
      cases hds
  · next dependencies db₁ heq =>
      rw [heq] at hds h₁
      cases hds
      refine ⟨?_, h₁⟩
      rw [hrow.value, hrow.signature, hrow.computedAt, hrow.builtAt, hrow.start, hrow.finish]
      rfl

end

/-- There is a row for the id of a key exactly if there is a result for the key. -/
theorem row_cases {id : ℕ} (hnamed : Named names id key) :
  (db.rule_results.lookup id = none ∧ m key = none)
    ∨ ∃ row r, db.rule_results.lookup id = some row ∧ m key = some r ∧ row.Stores names r
  := by
  have hrel := h.rows id key hnamed
  generalize db.rule_results.lookup id = row? at hrel ⊢
  generalize m key = r? at hrel ⊢
  cases hrel with
  | none => exact .inl ⟨rfl, rfl⟩
  | some hstores => exact .inr ⟨_, _, rfl, rfl, hstores⟩

/-- A lookup finds the result that is stored for the key. -/
theorem lookupRuleResult (hkeys : ∀ k ∈ keys, Preserved k) (hkey : key ∈ keys) :
  (db.lookupRuleResult delegate (delegate.getKeyID key) key).1
      = .ok ((m key).map (Result.map delegate.getKeyID))
    ∧ Holds keys delegate m (db.lookupRuleResult delegate (delegate.getKeyID key) key).2 names
  := by
  rw [SQLiteBuildDB.lookupRuleResult]
  cases hcached : db.dbKeyIDs.lookup (delegate.getKeyID key) with
  | some id =>
    have hnamed := h.dbKeyIDs _ id hcached
    rw [delegate.getKeyForID_getKeyID] at hnamed
    simp only [fastFindRuleResult]
    rcases h.row_cases hnamed with ⟨hlookup, hm⟩ | ⟨row, r, hlookup, hm, hstores⟩
    · rw [hlookup, hm]
      exact ⟨rfl, h⟩
    · rw [hlookup, hm]
      exact h.readRow hkeys hstores
  | none =>
    have hfind := h.findKeyIDForKey hkeys hkey
    simp only [findRuleResult]
    cases hid : db.findKeyIDForKey key with
    | none =>
      rw [hid] at hfind
      have hm : m key = none := by
        by_contra hsome
        obtain ⟨r, hr⟩ := ne_none_iff_exists'.mp hsome
        exact hfind (h.known key r hr)
      rw [hm]
      exact ⟨rfl, h⟩
    | some id =>
      rw [hid] at hfind
      rcases h.row_cases hfind with ⟨hlookup, hm⟩ | ⟨row, r, hlookup, hm, hstores⟩
      · simp only [bind_eq_bind, bind_some, hlookup, hm]
        exact ⟨rfl, h⟩
      · simp only [bind_eq_bind, bind_some, hlookup, hm]
        exact (h.cache hfind).readRow hkeys hstores

/-- Another build database starts without cached ids. -/
theorem reopen (delegate' : Delegate KeyID) :
  Holds keys delegate' m db.reopen names
  := { h with
    dbKeyIDs := fun _ _ hlookup => nomatch hlookup
    engineKeyIDs := fun _ _ hlookup => nomatch hlookup }

end

end Holds

/-! ### Histories -/

omit [DecidableEq KeyID] in
/-- The last call sets the result for its key. -/
theorem lastSet_append (calls : List (Call KeyID Time)) (c : Call KeyID Time) (key : Bytes) :
  lastSet (calls ++ [c]) key = (c.sets key).or (lastSet calls key)
  := by
  rw [lastSet, filterMap_append]
  cases hsets : c.sets key with
  | none => simp [hsets, lastSet]
  | some r => simp [hsets]

/-- The store of a session holds the results that were set last. -/
theorem holds_run {keys : List Bytes} (hkeys : ∀ k ∈ keys, Preserved k)
    (hcount : keys.dedup.length < 2 ^ 62) (delegate : Delegate KeyID)
    (calls : List (Call KeyID Time)) (hcalls : ∀ c ∈ calls, c.keys ⊆ keys) :
  let s : Session F KeyID Time := Session.run { delegate := delegate } calls
  ∃ names, Holds keys s.delegate (lastSet calls) s.db names
  := by
  induction calls using reverseRecOn with
  | nil =>
    refine ⟨[], rfl, nodup_nil, nil_subset keys, ?_, ?_, ?_, ?_, ?_⟩
    · exact fun _ _ hr => nomatch hr
    · rintro id key ⟨i, -, hi⟩
      cases hi
    · exact fun _ _ => rfl
    · exact fun _ _ hlookup => nomatch hlookup
    · exact fun _ _ hlookup => nomatch hlookup
  | append_singleton calls c ih =>
    obtain ⟨names, h⟩ := ih (fun c' hc' => hcalls c' (mem_append_left [c] hc'))
    have hc := hcalls c (by simp)
    simp only [Session.run, foldl_append]
    have hset : lastSet (calls ++ [c]) = fun key => (c.sets key).or (lastSet calls key) :=
      funext (lastSet_append calls c)
    rw [hset]
    cases c with
    | setRuleResult key r =>
      have hupdate : (fun k => ((.setRuleResult key r : Call KeyID Time).sets k).or
            (lastSet calls k))
          = update (lastSet calls) key (some r) := by
        funext k
        by_cases hk : key = k
        · subst hk
          simp [Call.sets]
        · simp [Call.sets, hk, Ne.symm hk]
      rw [hupdate]
      apply h.setRuleResult hkeys hcount r (hc mem_cons_self)
      intro d hd
      exact hc (mem_cons_of_mem key (mem_map_of_mem hd))
    | lookupRuleResult key =>
      exact ⟨names, (h.lookupRuleResult hkeys (hc mem_cons_self)).2⟩
    | buildComplete => exact ⟨names, { h with }⟩
    | reopen delegate' => exact ⟨names, h.reopen delegate'⟩

variable (F) in
/-- **The result store is a map.**  After every history of calls whose keys are preserved by
the key column, and are fewer than the row ids that can be packed, a lookup finds a result
exactly if one was set for the key, and it is the one that was set last. -/
theorem lookup_eq_lastSet (delegate : Delegate KeyID) (calls : List (Call KeyID Time))
    (key : Bytes) (hkeys : ∀ k ∈ key :: calls.flatMap Call.keys, Preserved k)
    (hcount : (key :: calls.flatMap Call.keys).dedup.length < 2 ^ 62) :
  let s : Session F KeyID Time := Session.run { delegate := delegate } calls
  (s.lookup key).1 = .ok ((lastSet calls key).map (Result.map s.delegate.getKeyID))
  := by
  have hcalls : ∀ c ∈ calls, c.keys ⊆ key :: calls.flatMap Call.keys := by
    intro c hc k hk
    exact mem_cons_of_mem key (mem_flatMap.mpr ⟨c, hc, hk⟩)
  obtain ⟨names, h⟩ := holds_run hkeys hcount delegate calls hcalls
  exact (h.lookupRuleResult hkeys mem_cons_self).1

/-- **The caches agree with the table.**  After every such history the id that is cached for a
key, and the key that is cached for an id, are what the statements would find. -/
theorem caches_agree (delegate : Delegate KeyID) (calls : List (Call KeyID Time))
    (hkeys : ∀ k ∈ calls.flatMap Call.keys, Preserved k)
    (hcount : (calls.flatMap Call.keys).dedup.length < 2 ^ 62) :
  let s : Session F KeyID Time := Session.run { delegate := delegate } calls
  (∀ keyID id, s.db.dbKeyIDs.lookup keyID = some id →
      s.db.findKeyIDForKey (s.delegate.getKeyForID keyID) = some id)
    ∧ ∀ id keyID, s.db.engineKeyIDs.lookup id = some keyID →
      (s.db.findKeyNameForKeyID id).map s.delegate.getKeyID = some keyID
  := by
  intro s
  obtain ⟨names, h⟩ := holds_run hkeys hcount delegate calls
    (fun c hc _ hk => mem_flatMap.mpr ⟨c, hc, hk⟩)
  constructor
  · intro keyID id hlookup
    have hnamed := h.dbKeyIDs keyID id hlookup
    have hmem : s.delegate.getKeyForID keyID ∈ names := by
      obtain ⟨i, -, hi⟩ := hnamed
      apply mem_of_getElem? hi
    have hfind := h.findKeyIDForKey hkeys (h.subset hmem)
    cases hid : s.db.findKeyIDForKey (s.delegate.getKeyForID keyID) with
    | some id' =>
      rw [hid] at hfind
      rw [hnamed.id_eq h.nodup hfind]
    | none =>
      rw [hid] at hfind
      contradiction
  · intro id keyID hlookup
    obtain ⟨key, ⟨i, rfl, hi⟩, rfl⟩ := h.engineKeyIDs id keyID hlookup
    have hkey := hkeys key (h.subset (mem_of_getElem? hi))
    rw [findKeyNameForKeyID, h.key_names, getElem?_map, hi, map_some, map_some,
      columnText_numericAffinity F hkey, map_some]

end Store

namespace StoreSamples

/-- Floating point numbers that are kept as they are written. -/
def written : RealFormat where
  Real := ℤ × ℤ
  ofDecimal mantissa exponent := (mantissa, exponent)
  toInt64? r := if r.2 = 0 then some r.1 else none
  text r := decimal r.1

/-- An engine whose ids are the keys themselves. -/
def engine : Delegate Bytes where
  getKeyID := id
  getKeyForID := id
  getKeyForID_getKeyID := fun _ => rfl

/-- The result of a rule with one dependency. -/
def built (dependency : Bytes) : Result Bytes Unit where
  value := [7]
  signature := 1
  computedAt := 1
  builtAt := 1
  start := ()
  finish := ()
  dependencies := [⟨dependency, true, false⟩]

end StoreSamples

open StoreSamples

/-- The result of the rule `a` with the dependency `b` is found after the file was opened
again. -/
theorem lookup_eq_lastSet_reopened :
  ((Session.run { delegate := engine }
      [.setRuleResult [97] (built [98]), .buildComplete, .reopen engine] :
        Session written Bytes Unit).lookup [97]).1 = .ok (some (built [98]))
  := by
  apply lookup_eq_lastSet written engine
    [.setRuleResult [97] (built [98]), .buildComplete, .reopen engine] [97]
  · have ha : Preserved [97] := .inl (by decide)
    have hb : Preserved [98] := .inl (by decide)
    simp [Call.keys, built, ha, hb]
  · decide

theorem caches_agree_built :
  (Session.run { delegate := engine } [.setRuleResult [97] (built [98])] :
    Session written Bytes Unit).db.findKeyIDForKey [98] = some 2
  := by
  apply (caches_agree engine [.setRuleResult [97] (built [98])] ?_ ?_).1 [98]
  · rfl
  · have ha : Preserved [97] := .inl (by decide)
    have hb : Preserved [98] := .inl (by decide)
    simp [Call.keys, built, ha, hb]
  · decide

/-- A result was set for the key `1`.  It is found for the key `01`, for which none was
set. -/
theorem lookup_finds_other_key :
  lastSet [(.setRuleResult [49] (built [98]) : Call Bytes Unit)] [48, 49] = none
    ∧ ((Session.run { delegate := engine } [.setRuleResult [49] (built [98])] :
        Session written Bytes Unit).lookup [48, 49]).1 = .ok (some (built [98]))
  := by
  constructor
  · rfl
  · rfl

end SQLiteBuildDB

end LLBuild

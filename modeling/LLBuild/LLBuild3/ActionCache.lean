import LLBuild.LLBuild3.CAS
import LLBuild.LLBuild3.Label
import Mathlib.Logic.Function.Basic

/-!
# The in-memory action cache

The engine records task transitions and the executor action results in one cache.  A
key has a label (the name of the task, the function of the action), a type and the id of
the serialised key data.  What the two rely on is a map on whole keys, `KeyMap`; the
cache looks at the bytes of the id alone.  The cache refines the map along every
history of calls whose keys are told apart by their data.
-/

open BinaryCoding

namespace LLBuild3

/-- What a key is for. -/
inductive CacheKeyType where
  | task
  | action
deriving DecidableEq

/-- A key of the cache. -/
structure CacheKey where
  label : Label
  type : CacheKeyType
  data : CASID
deriving DecidableEq

/-- A value of the cache: the id of the object with the result, absent in the value that
stands for no entry. -/
structure CacheValue where
  data : Option CASID := none
deriving DecidableEq

/-- A call of the cache. -/
inductive CacheCall where
  | get (key : CacheKey)
  | update (key : CacheKey) (value : CacheValue)
deriving DecidableEq

namespace CacheCall

/-- The key of a call. -/
def key : CacheCall → CacheKey
  | get key => key
  | update key _ => key

/-- The value a call records for the key. -/
def recorded (key : CacheKey) : CacheCall → Option CacheValue
  | get _ => none
  | update key' value => if key' = key then some value else none

theorem recorded_eq_some {key : CacheKey} {e : CacheCall} {value : CacheValue} :
  e.recorded key = some value ↔ e = update key value
  := by
  cases e with
  | get | update => simp [recorded]

/-- The value of the last update with the key in a history of calls. -/
def lastUpdate (calls : List CacheCall) (key : CacheKey) : Option CacheValue :=
  calls.reverse.findSome? (recorded key)

/-- The value of the last update is the value of an update with the key. -/
theorem mem_of_lastUpdate
    {calls : List CacheCall} {key : CacheKey} {value : CacheValue}
    (h : lastUpdate calls key = some value) :
  update key value ∈ calls
  := by
  obtain ⟨e, he, hvalue⟩ := List.exists_of_findSome?_eq_some h
  rw [recorded_eq_some.mp hvalue] at he
  exact List.mem_reverse.mp he

end CacheCall

/-- The cache: the values by the bytes of the ids of the keys. -/
structure InMemoryActionCache where
  cache : Table Bytes CacheValue := ∅

namespace InMemoryActionCache

variable (c : InMemoryActionCache)

/-- The value for a key, and the value without data if there is none. -/
def get (key : CacheKey) : CacheValue :=
  match c.cache.lookup key.data.bytes with
  | some entry => entry
  | none => {}

/-- Record a value for a key, in the place of what is there. -/
def update (key : CacheKey) (value : CacheValue) :
    InMemoryActionCache :=
  { c with cache := c.cache.insert key.data.bytes value }

/-- The cache after a call. -/
def call : CacheCall → InMemoryActionCache
  | .get _ => c
  | .update key value => c.update key value

theorem get_update (key key' : CacheKey) (value : CacheValue) :
  (c.update key value).get key' = if key'.data.bytes = key.data.bytes then value else c.get key'
  := by
  rw [get, update, Table.lookup_insert]
  split_ifs <;> rfl

end InMemoryActionCache

/-- A map on whole keys, which is what the users of the cache take it for. -/
abbrev KeyMap : Type := CacheKey → CacheValue

namespace KeyMap

/-- The map without entries. -/
def empty : KeyMap := fun _ => {}

/-- The map after a call. -/
def call (m : KeyMap) : CacheCall → KeyMap
  | .get _ => m
  | .update key value => Function.update m key value

/-- The map after a history of calls has the value of the last update with the key, and
what it had before without one. -/
theorem calls_eq (m : KeyMap) (calls : List CacheCall) (key : CacheKey) :
  (calls.foldl call m) key = (CacheCall.lastUpdate calls key).getD (m key)
  := by
  induction calls using List.reverseRecOn with
  | nil => rfl
  | append_singleton calls e ih =>
    rw [List.foldl_concat, CacheCall.lastUpdate, List.reverse_concat, List.findSome?_cons]
    cases e with
    | get key' => exact ih
    | update key' value =>
      rw [call, CacheCall.recorded]
      by_cases h : key' = key
      · simp [h]
      · simpa [h, Ne.symm h, CacheCall.lastUpdate] using ih

end KeyMap

/-- The keys of which the cache cannot tell two apart agree in label and type. -/
def Separated (keys : List CacheKey) : Prop :=
  ∀ key ∈ keys, ∀ key' ∈ keys, key.data = key'.data →
    key.label = key'.label ∧ key.type = key'.type

instance (keys : List CacheKey) : Decidable (Separated keys) :=
  inferInstanceAs (Decidable (∀ key ∈ keys, ∀ key' ∈ keys, _))

variable {keys : List CacheKey}

/-- Separated keys with the same bytes are the same key. -/
theorem Separated.eq
    (h : Separated keys) {key key' : CacheKey}
    (hkey : key ∈ keys) (hkey' : key' ∈ keys) (hbytes : key.data.bytes = key'.data.bytes) :
  key = key'
  := by
  have hdata : key.data = key'.data := by rwa [← CASID.mk.injEq] at hbytes
  obtain ⟨hlabel, htype⟩ := h key hkey key' hkey' hdata
  cases key
  simp_all only

namespace InMemoryActionCache

/-- The cache agrees with the map on the keys of the list. -/
def Refines (keys : List CacheKey) (c : InMemoryActionCache) (m : KeyMap) : Prop :=
  ∀ key ∈ keys, c.get key = m key

/-- A call with one of several separated keys keeps the agreement on them. -/
theorem Refines.call
    (hkeys : Separated keys) {c : InMemoryActionCache} {m : KeyMap}
    (h : Refines keys c m) {e : CacheCall} (he : e.key ∈ keys) :
  Refines keys (c.call e) (m.call e)
  := by
  cases e with
  | get key => exact h
  | update key value =>
    intro key' hkey'
    rw [InMemoryActionCache.call, get_update, KeyMap.call, Function.update_apply]
    by_cases heq : key' = key
    · simp [heq]
    · have hbytes : key'.data.bytes ≠ key.data.bytes :=
        fun hbytes => heq (hkeys.eq hkey' he hbytes)
      rw [if_neg hbytes, if_neg heq, h key' hkey']

/-- A history of calls with separated keys keeps the agreement on them. -/
theorem Refines.calls
    (hkeys : Separated keys) {c : InMemoryActionCache} {m : KeyMap}
    (h : Refines keys c m) {calls : List CacheCall} (hcalls : ∀ e ∈ calls, e.key ∈ keys) :
  Refines keys (calls.foldl InMemoryActionCache.call c) (calls.foldl KeyMap.call m)
  := by
  induction calls generalizing c m with
  | nil => exact h
  | cons e calls ih =>
    obtain ⟨he, hcalls⟩ := List.forall_mem_cons.mp hcalls
    exact ih (h.call hkeys he) hcalls

/-- **The cache is a map on whole keys.**  After a history of calls on an empty cache,
with keys that are told apart by their data, a lookup returns the value of the last
update with the same label, type and data, and a value without data if there was none;
so what it returns was recorded for the name and the type asked for. -/
theorem get_last_update
    (calls : List CacheCall) (key : CacheKey) (hkeys : Separated (key :: calls.map CacheCall.key)) :
  (calls.foldl call {}).get key = (CacheCall.lastUpdate calls key).getD {}
    ∧ ∀ id, ((calls.foldl call {}).get key).data = some id →
        ∃ key' value, CacheCall.update key' value ∈ calls ∧ value.data = some id
          ∧ key'.label = key.label ∧ key'.type = key.type
  := by
  have hget : (calls.foldl call {}).get key
      = (CacheCall.lastUpdate calls key).getD (KeyMap.empty key) := by
    rw [← KeyMap.calls_eq KeyMap.empty calls key]
    apply Refines.calls hkeys (fun _ _ => rfl)
    · intro e he
      exact .tail _ (List.mem_map_of_mem he)
    · exact .head _
  rw [hget]
  refine ⟨rfl, ?_⟩
  intro id hid
  cases hlast : CacheCall.lastUpdate calls key with
  | none =>
    rw [hlast] at hid
    cases hid
  | some value =>
    rw [hlast] at hid
    exact ⟨key, value, CacheCall.mem_of_lastUpdate hlast, hid, rfl, rfl⟩

/-- Two tasks with different transition keys: each finds what was recorded for it. -/
theorem get_last_update_names :
  ([.update ⟨{ name := "a" }, .task, ⟨[1]⟩⟩ ⟨some ⟨[7]⟩⟩,
      .update ⟨{ name := "b" }, .task, ⟨[2]⟩⟩ ⟨some ⟨[8]⟩⟩].foldl call {}).get
      ⟨{ name := "a" }, .task, ⟨[1]⟩⟩ = ⟨some ⟨[7]⟩⟩
  := (get_last_update _ _ (by decide)).1

/-- A transition recorded for one task is returned for another one with the same
transition key, and for an action. -/
theorem get_other_name :
  let calls := [CacheCall.update ⟨{ name := "a" }, .task, ⟨[1]⟩⟩ ⟨some ⟨[7]⟩⟩]
  let key : CacheKey := ⟨{ name := "b" }, .task, ⟨[1]⟩⟩
  let key' : CacheKey := ⟨{ name := "a" }, .action, ⟨[1]⟩⟩
  CacheCall.lastUpdate calls key = none ∧ CacheCall.lastUpdate calls key' = none
    ∧ (calls.foldl call {}).get key = ⟨some ⟨[7]⟩⟩
    ∧ (calls.foldl call {}).get key' = ⟨some ⟨[7]⟩⟩
  := by decide

end InMemoryActionCache

end LLBuild3

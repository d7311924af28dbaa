import Mathlib.Data.List.Nodup
import Mathlib.Tactic.Common

/-!
# Bindings of which the first one counts

A list of bindings in which a key is bound at most once.  A binding is added unless its key is
bound already, so of several bindings of a key that are added one after another the first one
counts: a lookup finds what it finds in the list of all bindings that were added.
-/

namespace LLBuild

open List

variable {κ α β : Type} [BEq κ] [LawfulBEq κ]

/-! ### Lookups in lists -/

theorem lookup_mapValue (f : κ → α → β) (entries : List (κ × α)) (key : κ) :
  (entries.map (fun entry => (entry.1, f entry.1 entry.2))).lookup key
    = (entries.lookup key).map (f key)
  := by
  induction entries with
  | nil => rfl
  | cons entry entries ih =>
    rw [map_cons, lookup_cons, lookup_cons, ih]
    by_cases h : key = entry.1
    · simp [h]
    · rw [beq_false_of_ne h]

theorem lookup_filterKey (p : κ → Bool) (entries : List (κ × α)) (key : κ) :
  (entries.filter (p ·.1)).lookup key
    = if p key then entries.lookup key else none
  := by
  induction entries with
  | nil => simp
  | cons entry entries ih =>
    rw [filter_cons, lookup_cons]
    by_cases h : key = entry.1
    · subst h
      split_ifs with hp
      · rw [lookup_cons, beq_self_eq_true]
      · rw [ih, if_neg hp]
    · rw [beq_false_of_ne h, ← ih]
      split_ifs
      · rw [lookup_cons, beq_false_of_ne h]
      · rfl

theorem lookup_eq_find? [DecidableEq κ] (entries : List (κ × α)) (key : κ) :
  entries.lookup key = (entries.find? (·.1 = key)).map Prod.snd
  := by
  induction entries with
  | nil => rfl
  | cons entry entries ih =>
    rw [lookup_cons, find?_cons, ih]
    by_cases h : key = entry.1
    · simp [h]
    · rw [beq_false_of_ne h, decide_eq_false (Ne.symm h)]

/-! ### First bindings -/

/-- Bindings of different keys, in the order in which they were added. -/
structure FirstBindings (κ α : Type) where
  entries : List (κ × α)
  nodup : (entries.map Prod.fst).Nodup

namespace FirstBindings

omit [BEq κ] [LawfulBEq κ] in
/-- No bindings. -/
def empty : FirstBindings κ α := ⟨[], nodup_nil⟩

/-- Bind a key that is not bound. -/
def setIfMissing (key : κ) (value : α) (bindings : FirstBindings κ α) : FirstBindings κ α :=
  if h : (bindings.entries.map Prod.fst).contains key then bindings
  else
    { entries := bindings.entries ++ [(key, value)]
      nodup := by
        rw [map_append, map_singleton, nodup_append_comm, singleton_append]
        rw [contains_iff_mem] at h
        apply nodup_cons.mpr ⟨h, bindings.nodup⟩ }

/-- Bind the keys of a list that are not bound. -/
def setAllIfMissing (entries : List (κ × α)) (bindings : FirstBindings κ α) :
    FirstBindings κ α :=
  entries.foldl (fun bindings entry => bindings.setIfMissing entry.1 entry.2) bindings

variable (bindings : FirstBindings κ α)

/-- The value of a key. -/
def lookup (key : κ) : Option α := bindings.entries.lookup key

omit [LawfulBEq κ] in
@[simp]
theorem lookup_empty (key : κ) :
  (empty : FirstBindings κ α).lookup key = none
  := rfl

theorem lookup_isSome_iff (key : κ) :
  (bindings.lookup key).isSome ↔ key ∈ bindings.entries.map Prod.fst
  := by
  rw [lookup]
  induction bindings.entries with
  | nil => simp
  | cons entry entries ih =>
    rw [lookup_cons, map_cons, mem_cons]
    by_cases h : key = entry.1
    · simp [h]
    · rw [beq_false_of_ne h, ih, or_iff_right h]

/-- A key that is bound keeps its value. -/
theorem lookup_setIfMissing (key k : κ) (value : α) :
  (bindings.setIfMissing key value).lookup k
    = (bindings.lookup k).or (if k == key then some value else none)
  := by
  rw [setIfMissing]
  split_ifs with hmem heq heq
  · rw [contains_iff_mem, ← eq_of_beq heq] at hmem
    obtain ⟨v, hv⟩ := Option.isSome_iff_exists.mp ((lookup_isSome_iff _ _).mpr hmem)
    rw [hv, Option.some_or]
  · rw [Option.or_none]
  · rw [lookup, lookup_append, lookup_cons, heq, lookup]
  · rw [lookup, lookup_append, lookup_cons, eq_false_of_ne_true heq, lookup_nil, lookup]

/-- The first binding of a key counts. -/
theorem lookup_setAllIfMissing (entries : List (κ × α)) (k : κ) :
  (bindings.setAllIfMissing entries).lookup k = (bindings.lookup k).or (entries.lookup k)
  := by
  induction entries generalizing bindings with
  | nil => rw [setAllIfMissing, foldl_nil, lookup_nil, Option.or_none]
  | cons entry entries ih =>
    apply (ih _).trans
    rw [lookup_setIfMissing, Option.or_assoc, lookup_cons]
    by_cases h : k = entry.1
    · simp [h]
    · simp only [beq_false_of_ne h, Bool.false_eq_true, if_false, Option.none_or]

theorem mem_entries_iff (key : κ) (value : α) :
  (key, value) ∈ bindings.entries ↔ bindings.lookup key = some value
  := by
  obtain ⟨entries, hnodup⟩ := bindings
  rw [lookup]
  induction entries with
  | nil => simp
  | cons entry entries ih =>
    rw [map_cons, nodup_cons] at hnodup
    rw [mem_cons, lookup_cons]
    by_cases h : key = entry.1
    · subst h
      have hnotin : (entry.1, value) ∉ entries := by
        intro hmem
        apply hnodup.1
        apply mem_map_of_mem (f := Prod.fst) hmem
      rw [or_iff_left hnotin, beq_self_eq_true]
      constructor
      · intro heq
        rw [← heq]
      · intro heq
        rw [← Option.some.inj heq]
    · rw [beq_false_of_ne h, or_iff_right, ih hnodup.2]
      rintro rfl
      apply h rfl

end FirstBindings

end LLBuild

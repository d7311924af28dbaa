import Mathlib.Algebra.BigOperators.Group.Multiset.Basic
import Mathlib.Algebra.Order.BigOperators.Group.List
import Mathlib.Algebra.Order.Ring.Nat
import Mathlib.Data.List.AList
import Mathlib.Tactic.Abel

/-!
# Tables

A table is a finite map from keys to entries.  `flat f t` lists what `f` lists for the
entries of `t`, and `total g t` adds up what `g` assigns to them, in any commutative
monoid.  The lemmas say what a lookup finds, and what the total is, after an entry was
inserted or replaced, and what a lookup finds after a whole history of insertions.
-/

/-- A finite map from `κ` to `α`. -/
abbrev Table (κ α : Type) : Type := AList (fun _ : κ => α)

namespace Table

open List

variable {κ α β : Type}

/-- Apply a function to every entry. -/
def map (f : α → β) (t : Table κ α) : Table κ β where
  entries := t.entries.map (fun e => ⟨e.1, f e.2⟩)
  nodupKeys := by
    have h := t.nodupKeys
    rw [List.NodupKeys, keys, map_map]
    exact h

/-- The elements `f` lists for the entries, one entry after the other. -/
def flat (f : κ → α → List β) (t : Table κ α) : List β :=
  t.entries.flatMap (fun e => f e.1 e.2)

/-- The sum of what `g` assigns to the entries. -/
def total {M : Type} [AddCommMonoid M] (g : α → M) (t : Table κ α) : M :=
  (t.entries.map (fun e => g e.2)).sum

variable [DecidableEq κ] (t : Table κ α)

theorem lookup_insert (k k' : κ) (a : α) :
  (t.insert k a).lookup k' = if k' = k then some a else t.lookup k'
  := by
  split_ifs with h
  · subst h
    apply AList.lookup_insert
  · apply AList.lookup_insert_ne h

variable (t : Table κ α)

/-- Insert an entry unless there is one for the key. -/
def emplace (k : κ) (a : α) : Table κ α :=
  if k ∈ t then t else t.insert k a

theorem lookup_emplace (k k' : κ) (a : α) :
  (t.emplace k a).lookup k' = if k' = k then some ((t.lookup k).getD a) else t.lookup k'
  := by
  rw [emplace]
  by_cases hk : k ∈ t
  · obtain ⟨b, hb⟩ := Option.isSome_iff_exists.mp (AList.lookup_isSome.mpr hk)
    split_ifs with h
    · rw [h, hb]
      rfl
    · rfl
  · rw [if_neg hk, lookup_insert, AList.lookup_eq_none.mpr hk]
    rfl

/-- Replace the entry for a key, if there is one. -/
def modify (k : κ) (f : α → α) : Table κ α :=
  match t.lookup k with
  | some a => t.insert k (f a)
  | none => t

theorem lookup_modify (k k' : κ) (f : α → α) :
  (t.modify k f).lookup k' = if k' = k then (t.lookup k).map f else t.lookup k'
  := by
  rw [modify]
  cases h : t.lookup k with
  | some a =>
    rw [lookup_insert]
    rfl
  | none =>
    split_ifs with hk
    · rw [hk, h]
      rfl
    · rfl

theorem lookup_erase (k k' : κ) :
  (t.erase k).lookup k' = if k' = k then none else t.lookup k'
  := by
  split_ifs with h
  · subst h
    apply AList.lookup_erase
  · apply AList.lookup_erase_ne h

/-- Insert entries one after the other. -/
def inserts (l : List (κ × α)) : Table κ α :=
  l.foldl (fun t e => t.insert e.1 e.2) t

/-- After a history of insertions a lookup finds the last entry inserted for the key,
or what was there before. -/
theorem lookup_inserts (l : List (κ × α)) (k : κ) :
  (t.inserts l).lookup k
    = ((l.filter (·.1 = k)).getLast?.map Prod.snd).or (t.lookup k)
  := by
  induction l using reverseRecOn with
  | nil => rfl
  | append_singleton l e ih =>
    rw [inserts, foldl_concat, ← inserts, lookup_insert, ih]
    by_cases h : e.1 = k
    · simp [h]
    · simp [h, Ne.symm h]

/-- A key for which an entry was inserted is found, with one of those entries. -/
theorem lookup_inserts_of_mem {l : List (κ × α)} {e : κ × α} (he : e ∈ l) :
  ∃ e' ∈ l, e'.1 = e.1 ∧ (t.inserts l).lookup e.1 = some e'.2
  := by
  have hmem : e ∈ l.filter (·.1 = e.1) := by simpa using he
  obtain ⟨e', hlast⟩ := Option.isSome_iff_exists.mp
    (getLast?_isSome.mpr (ne_nil_of_mem hmem))
  obtain ⟨hl, hkey⟩ := mem_filter.mp (mem_of_getLast? hlast)
  refine ⟨e', hl, by simpa using hkey, ?_⟩
  rw [lookup_inserts, hlast]
  rfl

theorem lookup_map (f : α → β) (t : Table κ α) (k : κ) :
  (map f t).lookup k = (t.lookup k).map f
  := by
  apply dlookup_map₂ (f := fun _ => f)

theorem mem_entries {t : Table κ α} {e : Σ _ : κ, α} :
  e ∈ t.entries ↔ t.lookup e.1 = some e.2
  := by
  rw [← Option.mem_def, AList.mem_lookup_iff]

section Total

variable {M : Type} [AddCommMonoid M]

/-- An entry's share of a total can be split off. -/
theorem total_erase (g : α → M) {t : Table κ α} {k : κ} {a : α} (h : t.lookup k = some a) :
  g a + total g (t.erase k) = total g t
  := by
  have hmem : k ∈ t.entries.keys := dlookup_isSome.mp (by rw [← AList.lookup, h]; rfl)
  obtain ⟨b, l₁, l₂, -, hl, hkerase⟩ := exists_of_kerase hmem
  have hb : t.lookup k = some b := mem_entries (e := ⟨k, b⟩).mp (by rw [hl]; simp)
  obtain rfl : a = b := by simpa [h] using hb
  have herase : (t.erase k).entries = l₁ ++ l₂ := hkerase
  rw [total, total, herase, hl]
  simp only [map_append, map_cons, sum_append, sum_cons]
  rw [add_left_comm]

/-- Inserting an entry puts its share in the place of the share of the entry it replaces. -/
theorem total_insert (g : α → M) (t : Table κ α) (k : κ) (a : α) :
  total g (t.insert k a) + (t.lookup k).elim 0 g = total g t + g a
  := by
  have hinsert : total g (t.insert k a) = g a + total g (t.erase k) := by
    rfl
  rw [hinsert]
  cases h : t.lookup k with
  | some b =>
    rw [← total_erase g h]
    abel
  | none =>
    have hnone : t.erase k = t := by
      apply AList.ext
      apply kerase_of_notMem_keys
      apply dlookup_eq_none.mp h
    rw [hnone, Option.elim_none]
    abel

theorem total_of_eq_zero {g : α → M} {t : Table κ α} (h : ∀ k a, t.lookup k = some a → g a = 0) :
  total g t = 0
  := by
  apply sum_eq_zero
  intro n hn
  obtain ⟨e, he, rfl⟩ := mem_map.mp hn
  exact h e.1 e.2 (mem_entries.mp he)

end Total

theorem total_eq_zero {g : α → ℕ} {t : Table κ α} :
  total g t = 0 ↔ ∀ k a, t.lookup k = some a → g a = 0
  := by
  constructor
  · intro h k a ha
    rw [total, sum_eq_zero_iff] at h
    exact h (g a) (mem_map.mpr ⟨⟨k, a⟩, mem_entries.mpr ha, rfl⟩)
  · exact total_of_eq_zero

end Table

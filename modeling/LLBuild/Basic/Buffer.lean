import Mathlib.Data.List.Basic

/-!
# Buffers

A program that reads a buffer keeps a cursor, which is a position of the buffer or its end.
A read outside of the buffer, a cursor that moves past the end, an assertion that fails and
a loop that does not end are faults, and a program has no result after one.

`At data cur rest` says that `rest` is what follows the cursor.  It connects a program with
a cursor to a function on lists: what the one reads at the cursor is the head of the list,
and to move the cursor on is to take the tail.
-/

namespace Buffer

open List

/-- What a program that reads a buffer must not do. -/
inductive Fault
  | outOfBounds (position : ℕ)
  | pastTheEnd (position : ℕ)
  | assertionFailed
  | unterminated
  deriving DecidableEq

variable {α : Type} (data : List α)

/-- Read the buffer. -/
def read (position : ℕ) : Except Fault α :=
  match data[position]? with
  | none => .error (.outOfBounds position)
  | some c => .ok c

/-- Write to the buffer. -/
def write (position : ℕ) (c : α) : Except Fault (List α) :=
  if position < data.length then .ok (data.set position c) else .error (.outOfBounds position)

/-- Move the cursor on. -/
def advance (cur n : ℕ) : Except Fault ℕ :=
  if cur + n ≤ data.length then .ok (cur + n) else .error (.pastTheEnd (cur + n))

/-- Check a condition, if assertions are enabled. -/
def assert (enabled : Bool) (p : Prop) [Decidable p] : Except Fault Unit :=
  if enabled ∧ ¬ p then .error .assertionFailed else .ok ()

/-- The part of the buffer between two positions. -/
def slice (start stop : ℕ) : List α := (data.drop start).take (stop - start)

theorem assert_of {enabled : Bool} {p : Prop} [Decidable p] (h : p) :
  assert enabled p = .ok ()
  := by
  rw [assert, if_neg]
  exact fun hp => hp.2 h

/-! ### Postconditions -/

section

variable {β γ : Type}

/-- A program comes to its end without a fault, and its result has a property. -/
def Returns (result : Except Fault β) (p : β → Prop) : Prop := ∃ b, result = .ok b ∧ p b

variable {p : β → Prop}

theorem Returns.ok {b : β} (h : p b) :
  Returns (.ok b) p
  := ⟨b, rfl, h⟩

variable {result : Except Fault β} {next : β → Except Fault γ}

theorem Returns.bind {q : γ → Prop} (h : Returns result p) (hnext : ∀ b, p b → Returns (next b) q) :
  Returns (result >>= next) q
  := by
  obtain ⟨b, rfl, hb⟩ := h
  exact hnext b hb

theorem Returns.imp {q : β → Prop} (h : Returns result p) (himp : ∀ b, p b → q b) :
  Returns result q
  := by
  obtain ⟨b, hb, hp⟩ := h
  exact ⟨b, hb, himp b hp⟩

/-- A program comes to its end with a result that has a property, or with a fault of a kind. -/
def Ends (q : Fault → Prop) (result : Except Fault β) (p : β → Prop) : Prop :=
  match result with
  | .ok b => p b
  | .error fault => q fault

variable {q : Fault → Prop}

theorem Returns.ends (h : Returns result p) :
  Ends q result p
  := by
  obtain ⟨b, rfl, hb⟩ := h
  exact hb

theorem Ends.returns (h : Ends q result p) (hq : ∀ fault, ¬ q fault) :
  Returns result p
  := by
  cases result with
  | ok b => exact ⟨b, rfl, h⟩
  | error fault => exact absurd h (hq fault)

theorem Ends.of_eq {b : β} (h : Ends q result p) (hb : result = .ok b) :
  p b
  := by
  rw [hb] at h
  exact h

theorem Ends.bind {r : γ → Prop} (h : Ends q result p) (hnext : ∀ b, p b → Ends q (next b) r) :
  Ends q (result >>= next) r
  := by
  cases result with
  | ok b => exact hnext b h
  | error fault => exact h

theorem Ends.bind_of_eq {b : β} {r : γ → Prop} (hb : result = .ok b) (h : Ends q (next b) r) :
  Ends q (result >>= next) r
  := by
  rw [hb]
  exact h

theorem Ends.imp {r : β → Prop} (h : Ends q result p) (himp : ∀ b, p b → r b) :
  Ends q result r
  := by
  cases result with
  | ok b => exact himp b h
  | error fault => exact h

end

theorem read_returns {data : List α} {position : ℕ} (h : position < data.length) :
  Returns (read data position) fun c => data[position]? = some c
  := by
  refine ⟨data[position], ?_, getElem?_eq_getElem h⟩
  rw [read, getElem?_eq_getElem h]

theorem advance_returns {data : List α} {cur n : ℕ} (h : cur + n ≤ data.length) :
  Returns (advance data cur n) (· = cur + n)
  := ⟨cur + n, if_pos h, rfl⟩

/-- What follows the cursor. -/
structure At (data : List α) (cur : ℕ) (rest : List α) : Prop where
  le : cur ≤ data.length
  drop : data.drop cur = rest

namespace At

variable {data rest : List α} {cur : ℕ} {c : α}

theorem zero (data : List α) : At data 0 data := ⟨Nat.zero_le _, rfl⟩

theorem add_length (h : At data cur rest) :
  cur + rest.length = data.length
  := by
  rw [← h.drop, length_drop]
  exact Nat.add_sub_cancel' h.le

theorem eq_length_iff (h : At data cur rest) :
  cur = data.length ↔ rest = []
  := by
  rw [← h.add_length, ← length_eq_zero_iff]
  omega

theorem lt_length (h : At data cur (c :: rest)) :
  cur < data.length
  := by
  have hlength := h.add_length
  rw [length_cons] at hlength
  omega

theorem read_eq (h : At data cur (c :: rest)) :
  read data cur = .ok c
  := by
  rw [read, ← head?_drop, h.drop]
  rfl

theorem read_nil (h : At data cur []) :
  read data cur = .error (.outOfBounds data.length)
  := by
  obtain rfl := h.eq_length_iff.mpr rfl
  rw [read, getElem?_eq_none (Nat.le_refl _)]

theorem tail (h : At data cur (c :: rest)) :
  At data (cur + 1) rest
  := by
  refine ⟨h.lt_length, ?_⟩
  rw [← tail_drop, h.drop]
  rfl

theorem append {part : List α} (h : At data cur (part ++ rest)) :
  At data (cur + part.length) rest
  := by
  have hlength := h.add_length
  rw [length_append] at hlength
  refine ⟨by omega, ?_⟩
  rw [← drop_drop, h.drop]
  apply drop_left

theorem advance_eq (h : At data cur (c :: rest)) :
  advance data cur 1 = .ok (cur + 1)
  := if_pos h.lt_length

theorem slice_eq {part : List α} (h : At data cur (part ++ rest)) :
  slice data cur (cur + part.length) = part
  := by
  rw [slice, h.drop, Nat.add_sub_cancel_left]
  apply take_left

end At

end Buffer

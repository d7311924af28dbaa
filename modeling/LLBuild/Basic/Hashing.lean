import LLBuild.Basic.BinaryCoding
import Mathlib.Data.List.Basic
import Mathlib.Data.List.Induction
import Mathlib.Tactic.Common

/-!
# Signatures

A signature starts from a string and takes in values one after another.  `Combiner`
is what is assumed of the operation: a signature determines the one before it and
the value it took in, and is not the null one.  Two signatures that took in the
same number of values are equal only if the values are.

The values are strings and truth values.  There is no other way to take in a number
than as a truth value: `combine` has no overload for integers, and the conversion to
`bool` is the one that applies.
-/

namespace LLBuild

open List

open BinaryCoding

/-- What a signature takes in. -/
inductive HashedValue
  | string (value : Bytes)
  | bool (value : Bool)
  deriving DecidableEq

/-- The value that is taken in for an integer. -/
def HashedValue.int (value : ℕ) : HashedValue := .bool (value ≠ 0)

theorem HashedValue.map_string_injective :
  Function.Injective (map HashedValue.string)
  := map_injective_iff.mpr fun _ _ h => HashedValue.string.inj h

/-- Signatures with an operation without collisions. -/
structure Combiner where
  Signature : Type
  /-- The signature of a string alone. -/
  ofString : Bytes → Signature
  combine : Signature → HashedValue → Signature
  null : Signature
  one : Signature
  [decidableEq : DecidableEq Signature]
  combine_injective : ∀ {s t : Signature} {v w : HashedValue},
    combine s v = combine t w → s = t ∧ v = w
  /-- How many values a signature has taken in. -/
  taken : Signature → ℕ
  taken_combine : ∀ s v, taken (combine s v) = taken s + 1
  taken_ofString : ∀ value other, taken (ofString value) = taken (ofString other)
  taken_null : taken null = 0
  one_ne_null : one ≠ null

namespace Combiner

variable (H : Combiner)

instance : DecidableEq H.Signature := H.decidableEq

variable (code : H.Signature)

/-- Take in a list of values. -/
def combineAll (values : List HashedValue) : H.Signature :=
  values.foldl H.combine code

variable {H}

theorem combineAll_append (values rest : List HashedValue) :
  H.combineAll code (values ++ rest) = H.combineAll (H.combineAll code values) rest
  := foldl_append

variable {others values : List HashedValue}

theorem taken_combineAll :
  H.taken (H.combineAll code values) = H.taken code + values.length
  := by
  induction values generalizing code with
  | nil => rfl
  | cons v values ih =>
    rw [length_cons, Nat.add_left_comm, Nat.add_comm, ← H.taken_combine code v]
    apply ih

/-- Signatures that took in equally many values determine where they started and what they
took in. -/
theorem combineAll_injective
    {s t : H.Signature} (hlength : values.length = others.length)
    (h : H.combineAll s values = H.combineAll t others) :
  s = t ∧ values = others
  := by
  induction values generalizing s t others with
  | nil =>
    obtain rfl := eq_nil_of_length_eq_zero hlength.symm
    exact ⟨h, rfl⟩
  | cons v values ih =>
    cases others with
    | nil => cases hlength
    | cons w others =>
      rw [length_cons, length_cons, Nat.add_right_cancel_iff] at hlength
      obtain ⟨hfirst, rfl⟩ := ih hlength h
      obtain ⟨rfl, rfl⟩ := H.combine_injective hfirst
      exact ⟨rfl, rfl⟩

/-- Signatures that started with equally many values determine what they took in. -/
theorem combineAll_eq_iff {s t : H.Signature} (htaken : H.taken s = H.taken t) :
  H.combineAll s values = H.combineAll t others ↔ s = t ∧ values = others
  := by
  refine ⟨fun h => combineAll_injective ?_ h, fun ⟨hs, hvalues⟩ => by rw [hs, hvalues]⟩
  have hcount := congrArg H.taken h
  rwa [taken_combineAll, taken_combineAll, htaken, Nat.add_left_cancel_iff] at hcount

theorem combineAll_ne_null (hne : values ≠ []) :
  H.combineAll code values ≠ H.null
  := by
  intro h
  have hcount := congrArg H.taken h
  rw [taken_combineAll, H.taken_null, Nat.add_eq_zero_iff, length_eq_zero_iff] at hcount
  exact hne hcount.2

/-- The signature that is the history of what it took in, the last value first. -/
def history : Combiner where
  Signature := List HashedValue
  ofString value := [.string value]
  combine code value := value :: code
  null := []
  one := [.bool true]
  combine_injective h := by
    obtain ⟨rfl, rfl⟩ := cons.inj h
    exact ⟨rfl, rfl⟩
  taken := length
  taken_combine _ _ := rfl
  taken_ofString _ _ := rfl
  taken_null := rfl
  one_ne_null := cons_ne_nil _ _

theorem history_ofString_injective :
  Function.Injective history.ofString
  := by
  intro value other h
  exact HashedValue.string.inj (cons.inj h).1

end Combiner

end LLBuild

import Mathlib.Data.Nat.Bitwise
import Mathlib.Tactic.Common

/-!
# Binary coding

A decoder consumes a prefix of a byte sequence and yields a value, or fails when it
runs past the end.  `Decoder.Reads d b a` says that `d` reads the value `a` from the
bytes `b` and leaves whatever follows them untouched; it composes along `bind`.

The fixed-width integers are coded in little-endian order, each width as two values of
half the width (`write16`, `write32`, `write64` and `read16`, `read32`, `read64`).
-/

namespace BinaryCoding

/-- A byte sequence. -/
abbrev Bytes : Type := List UInt8

instance : LawfulBEq Bytes := inferInstance

/-- The bytes of a text of ASCII characters. -/
def ascii (text : String) : Bytes := text.toList.map Char.toUInt8

/-- A decoder of values of type `α`: a partial function on the bytes still to be read. -/
abbrev Decoder (α : Type) : Type := StateT Bytes Option α

namespace Decoder

variable {α β : Type}

/-- `Reads d b a`: on the bytes `b` followed by any others, `d` yields `a` and stops
after `b`. -/
def Reads (d : Decoder α) (b : Bytes) (a : α) : Prop :=
  ∀ rest, d.run (b ++ rest) = some (a, rest)

theorem reads_pure (a : α) :
  Reads (pure a) [] a
  := by
  intro rest
  rfl

theorem Reads.bind
    {d : Decoder α} {f : α → Decoder β} {b b' : Bytes} {a : α} {c : β}
    (hd : Reads d b a) (hf : Reads (f a) b' c) :
  Reads (d >>= f) (b ++ b') c
  := by
  intro rest
  rw [StateT.run_bind, List.append_assoc, hd]
  apply hf

/-- Reading two values in sequence and combining them. -/
theorem Reads.pair
    {γ : Type} {d : Decoder α} {d' : Decoder β} {b b' : Bytes} {a : α} {a' : β}
    (hd : Reads d b a) (hd' : Reads d' b' a') (f : α → β → γ) :
  Reads (do let x ← d; let y ← d'; return f x y) (b ++ b') (f a a')
  := by
  apply hd.bind
  intro rest
  rw [StateT.run_bind, hd']
  rfl

/-- Read a part that is present under a condition, and has a default otherwise. -/
def optional (c : Bool) (d : Decoder α) (default : α) : Decoder α :=
  if c then d else pure default

theorem Reads.optional
    {c : Bool} {d : Decoder α} {b : Bytes} {a a₀ : α}
    (hd : c = true → Reads d b a) (ha : c = false → a = a₀) :
  Reads (optional c d a₀) (if c then b else []) a
  := by
  cases c with
  | true => apply hd rfl
  | false =>
    obtain rfl := ha rfl
    apply reads_pure

/-- Read one byte. -/
def read8 : Decoder UInt8 :=
  fun data => match data with
    | [] => none
    | byte :: rest => some (byte, rest)

/-- Read a 16-bit value. -/
def read16 : Decoder UInt16 := do
  let low ← read8
  let high ← read8
  return low.toUInt16 ||| (high.toUInt16 <<< 8)

/-- Read a 32-bit value. -/
def read32 : Decoder UInt32 := do
  let low ← read16
  let high ← read16
  return low.toUInt32 ||| (high.toUInt32 <<< 16)

/-- Read a 64-bit value. -/
def read64 : Decoder UInt64 := do
  let low ← read32
  let high ← read32
  return low.toUInt64 ||| (high.toUInt64 <<< 32)

/-- Read `count` bytes. -/
def readBytes (count : ℕ) : Decoder Bytes :=
  fun data => if count ≤ data.length then some (data.take count, data.drop count) else none

/-- Read `count` values, one after the other. -/
def readMany (d : Decoder α) : ℕ → Decoder (List α)
  | 0 => pure []
  | count + 1 => do
      let a ← d
      let rest ← readMany d count
      return a :: rest

end Decoder

open Decoder

/-- The byte of an 8-bit value. -/
def write8 (value : UInt8) : Bytes := [value]

/-- The bytes of a 16-bit value, low byte first. -/
def write16 (value : UInt16) : Bytes :=
  write8 value.toUInt8 ++ write8 (value >>> 8).toUInt8

/-- The bytes of a 32-bit value, low half first. -/
def write32 (value : UInt32) : Bytes :=
  write16 value.toUInt16 ++ write16 (value >>> 16).toUInt16

/-- The bytes of a 64-bit value, low half first. -/
def write64 (value : UInt64) : Bytes :=
  write32 value.toUInt32 ++ write32 (value >>> 32).toUInt32

/-- A number of `2 * w` bits is put together from its two halves. -/
theorem halves_or (w n : ℕ) (h : n < 2 ^ (2 * w)) :
  n % 2 ^ w ||| ((n >>> w % 2 ^ w) <<< w) % 2 ^ (2 * w) = n
  := by
  apply Nat.eq_of_testBit_eq
  intro i
  by_cases hi : i < w
  · have hw : i < 2 * w := by omega
    simp [hi]
  · by_cases hi' : i < 2 * w
    · have hsub : i - w < w := by omega
      have heq : w + (i - w) = i := by omega
      simp [hi', hsub, Nat.not_lt.mp hi]
    · have hbit : n.testBit i = false := by
        apply Nat.testBit_eq_false_of_lt
        apply lt_of_lt_of_le h
        apply Nat.pow_le_pow_right (by decide) (Nat.not_lt.mp hi')
      simp [hi', hbit]

theorem reads_read8 (value : UInt8) :
  Reads read8 (write8 value) value
  := by
  intro rest
  rfl

theorem reads_read16 (value : UInt16) :
  Reads read16 (write16 value) value
  := by
  have h : value.toUInt8.toUInt16 ||| ((value >>> 8).toUInt8.toUInt16 <<< 8) = value := by
    apply UInt16.toNat_inj.mp
    simpa using halves_or 8 value.toNat value.toNat_lt
  have hread := (reads_read8 value.toUInt8).pair (reads_read8 (value >>> 8).toUInt8)
    (fun low high => low.toUInt16 ||| (high.toUInt16 <<< 8))
  rw [h] at hread
  apply hread

theorem reads_read32 (value : UInt32) :
  Reads read32 (write32 value) value
  := by
  have h : value.toUInt16.toUInt32 ||| ((value >>> 16).toUInt16.toUInt32 <<< 16) = value := by
    apply UInt32.toNat_inj.mp
    simpa using halves_or 16 value.toNat value.toNat_lt
  have hread := (reads_read16 value.toUInt16).pair (reads_read16 (value >>> 16).toUInt16)
    (fun low high => low.toUInt32 ||| (high.toUInt32 <<< 16))
  rw [h] at hread
  apply hread

theorem reads_read64 (value : UInt64) :
  Reads read64 (write64 value) value
  := by
  have h : value.toUInt32.toUInt64 ||| ((value >>> 32).toUInt32.toUInt64 <<< 32) = value := by
    apply UInt64.toNat_inj.mp
    simpa using halves_or 32 value.toNat value.toNat_lt
  have hread := (reads_read32 value.toUInt32).pair (reads_read32 (value >>> 32).toUInt32)
    (fun low high => low.toUInt64 ||| (high.toUInt64 <<< 32))
  rw [h] at hread
  apply hread

theorem reads_readBytes (b : Bytes) :
  Reads (readBytes b.length) b b
  := by
  intro rest
  simp [readBytes, StateT.run]

/-- A list of values coded one after the other is read back by reading as many values. -/
theorem reads_readMany
    {α : Type} {d : Decoder α} {write : α → Bytes} (hd : ∀ a, Reads d (write a) a) (as : List α) :
  Reads (readMany d as.length) (as.flatMap write) as
  := by
  induction as with
  | nil => apply reads_pure
  | cons a as ih => apply (hd a).pair ih List.cons

theorem exists_run_read64 {data : Bytes} (h : 8 ≤ data.length) :
  ∃ value, read64.run data = some (value, data.drop 8)
  := by
  match data, h with
  | b₀ :: b₁ :: b₂ :: b₃ :: b₄ :: b₅ :: b₆ :: b₇ :: rest, _ => exact ⟨_, rfl⟩

/-- A list of 64-bit values is read from enough bytes. -/
theorem exists_run_readMany_read64 {n : ℕ} {data : Bytes} (h : n * 8 ≤ data.length) :
  ∃ values rest, (readMany read64 n).run data = some (values, rest) ∧ values.length = n
  := by
  induction n generalizing data with
  | zero => exact ⟨[], data, rfl, rfl⟩
  | succ n ih =>
    obtain ⟨value, hvalue⟩ := exists_run_read64 (show 8 ≤ data.length by omega)
    obtain ⟨values, rest, hvalues, hlength⟩ := ih (show n * 8 ≤ (data.drop 8).length by
      rw [List.length_drop]
      omega)
    refine ⟨value :: values, rest, ?_, by rw [List.length_cons, hlength]⟩
    rw [readMany]
    simp only [StateT.run_bind, hvalue, hvalues, Option.bind_eq_bind, Option.bind_some]
    rfl

end BinaryCoding

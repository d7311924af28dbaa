import LLBuild.Basic.BinaryCoding
import Mathlib.Data.Int.Basic
import Mathlib.Data.List.DropRight

/-!
# Numeric affinity

A column of a SQLite table that is declared with a type name without a meaning has numeric
affinity.  A text that is a well-formed integer or real literal is stored in such a column as
the number it denotes, and a text a column value is compared with is converted in the same
way.  A number is read back as the text SQLite prints for it, so that only the texts that are
no literals, and the numerals SQLite prints, are kept as they are (`Preserved`).

The 64-bit floating point numbers are a parameter (`RealFormat`).
-/

namespace SQLite

open List

open BinaryCoding

/-! ### Literals -/

/-- A numeric literal: an integer, or a mantissa and an exponent of ten. -/
inductive Literal where
  | integer (value : ℤ)
  | real (mantissa exponent : ℤ)
  deriving DecidableEq

/-- White space. -/
def isSpace (c : UInt8) : Bool := c = 32 || (9 ≤ c && c ≤ 13)

/-- The digits. -/
def isDigit (c : UInt8) : Bool := 48 ≤ c && c ≤ 57

/-- The number a sequence of digits denotes. -/
def digitsValue (digits : Bytes) : ℕ :=
  digits.foldl (fun n c => 10 * n + (c.toNat - 48)) 0

variable (text : Bytes)

/-- Leave out the white space around a text. -/
def trim : Bytes :=
  (text.dropWhile isSpace).rdropWhile isSpace

/-- Split off a sign. -/
def splitSign : Bytes → ℤ × Bytes
  | 45 :: rest => (-1, rest)
  | 43 :: rest => (1, rest)
  | text => (1, text)

/-- Split off a decimal point and the digits after it. -/
def splitFraction : Bytes → Option Bytes × Bytes
  | 46 :: rest => (some (rest.takeWhile isDigit), rest.dropWhile isDigit)
  | text => (none, text)

/-- What follows the digits is nothing, or an exponent. -/
def exponent : Bytes → Option (Option ℤ)
  | [] => some none
  | c :: rest =>
      let (sign, digits) := splitSign rest
      if (c = 101 ∨ c = 69) ∧ digits ≠ [] ∧ digits.all isDigit then
        some (some (sign * digitsValue digits))
      else
        none

/-- The literal a text is, if it is one. -/
def literal : Option Literal :=
  let (sign, body) := splitSign (trim text)
  let whole := body.takeWhile isDigit
  let (fraction, rest) := splitFraction (body.dropWhile isDigit)
  let digits := whole ++ fraction.getD []
  if digits = [] then
    none
  else
    match exponent rest, fraction with
    | none, _ => none
    | some none, none => some (.integer (sign * digitsValue whole))
    | some e, _ => some (.real (sign * digitsValue digits)
        (e.getD 0 - (fraction.getD []).length))

/-! ### Values -/

/-- The floating point numbers. -/
structure RealFormat where
  Real : Type
  [decEq : DecidableEq Real]
  /-- The number closest to a mantissa times a power of ten. -/
  ofDecimal : ℤ → ℤ → Real
  /-- The 64-bit integer a number is equal to. -/
  toInt64? : Real → Option ℤ
  /-- The text that is printed for a number. -/
  text : Real → Bytes

attribute [instance] RealFormat.decEq

/-- What is stored in a column. -/
inductive Value (Real : Type) where
  | text (bytes : Bytes)
  | integer (value : ℤ)
  | real (value : Real)
  deriving DecidableEq

/-- The range of the integers that are stored. -/
def IsInt64 (i : ℤ) : Prop := -2 ^ 63 ≤ i ∧ i < 2 ^ 63

instance (i : ℤ) : Decidable (IsInt64 i) := by
  unfold IsInt64
  infer_instance

/-- The value a text is converted to. -/
def numericAffinity (F : RealFormat) (text : Bytes) : Value F.Real :=
  match literal text with
  | none => .text text
  | some (.integer i) => if IsInt64 i then .integer i else .real (F.ofDecimal i 0)
  | some (.real mantissa exponent) =>
      match F.toInt64? (F.ofDecimal mantissa exponent) with
      | some i => .integer i
      | none => .real (F.ofDecimal mantissa exponent)

/-- The digits of a number. -/
def numeral (n : ℕ) : Bytes := (Nat.toDigits 10 n).map (fun c => c.toNat.toUInt8)

/-- The text that is printed for an integer. -/
def decimal : ℤ → Bytes
  | .ofNat n => numeral n
  | .negSucc n => 45 :: numeral (n + 1)

/-- The text that is read back. -/
def columnText (F : RealFormat) : Value F.Real → Bytes
  | .text bytes => bytes
  | .integer i => decimal i
  | .real r => F.text r

/-- The text is not a literal, or it is the text that is printed for an integer. -/
def Preserved : Prop :=
  literal text = none ∨ ∃ i, IsInt64 i ∧ text = decimal i

/-! ### Numerals -/

theorem numeral_of_lt {d : ℕ} (hd : d < 10) :
  numeral d = [(48 + d).toUInt8]
  := by
  rw [numeral, Nat.toDigits_of_lt_base hd, map_singleton, Nat.toNat_digitChar_of_lt_ten hd]

theorem numeral_append {n d : ℕ} (hn : 0 < n) (hd : d < 10) :
  numeral (10 * n + d) = numeral n ++ [(48 + d).toUInt8]
  := by
  rw [numeral, ← Nat.toDigits_append_toDigits (by decide) hn hd, map_append, ← numeral,
    ← numeral, numeral_of_lt hd]

/-- A property of the numerals of one digit that is kept when a digit is appended. -/
theorem numeral_induction {P : ℕ → Bytes → Prop} (hdigit : ∀ d, d < 10 → P d [(48 + d).toUInt8])
    (happend : ∀ n d b, d < 10 → P n b → P (10 * n + d) (b ++ [(48 + d).toUInt8])) (n : ℕ) :
  P n (numeral n)
  := by
  induction n using Nat.strongRecOn with
  | ind n ih =>
    by_cases hn : n < 10
    · rw [numeral_of_lt hn]
      apply hdigit n hn
    · have hpos : 0 < n / 10 := Nat.div_pos (Nat.not_lt.mp hn) (by decide)
      have hlt : n % 10 < 10 := Nat.mod_lt n (by decide)
      have happ := happend (n / 10) (n % 10) _ hlt (ih (n / 10) (by omega))
      rwa [← numeral_append hpos hlt, Nat.div_add_mod] at happ

theorem toNat_digit {d : ℕ} (hd : d < 10) :
  (48 + d).toUInt8.toNat = 48 + d
  := by
  rw [UInt8.toNat_ofNat']
  omega

theorem isDigit_digit {d : ℕ} (hd : d < 10) :
  isDigit (48 + d).toUInt8 = true
  := by
  have h := toNat_digit hd
  simp only [isDigit, UInt8.le_iff_toNat_le]
  simp
  omega

theorem isDigit_of_mem_numeral (n : ℕ) :
  numeral n ≠ [] ∧ ∀ c ∈ numeral n, isDigit c = true
  := by
  apply numeral_induction (P := fun _ b => b ≠ [] ∧ ∀ c ∈ b, isDigit c = true)
  · intro d hd
    simpa using isDigit_digit hd
  · intro n d b hd hb
    simp only [mem_append, mem_singleton]
    refine ⟨by simp, ?_⟩
    rintro c (hc | rfl)
    · apply hb.2 c hc
    · apply isDigit_digit hd

theorem digitsValue_numeral (n : ℕ) :
  digitsValue (numeral n) = n
  := by
  apply numeral_induction (P := fun n b => digitsValue b = n)
  · intro d hd
    rw [digitsValue, foldl_cons, foldl_nil, toNat_digit hd]
    omega
  · intro n d b hd hb
    rw [digitsValue, foldl_append, ← digitsValue, foldl_cons, foldl_nil, toNat_digit hd]
    omega

theorem isSpace_of_isDigit {c : UInt8} (h : isDigit c = true) :
  isSpace c = false
  := by
  simp only [isDigit, Bool.and_eq_true, decide_eq_true_eq] at h
  have hlow : 48 ≤ c.toNat := h.1
  rw [isSpace, Bool.or_eq_false_iff, Bool.and_eq_false_iff]
  constructor
  · apply decide_eq_false
    rintro rfl
    exact absurd hlow (by decide)
  · right
    apply decide_eq_false
    apply Nat.not_le.mpr (lt_of_lt_of_le (by decide) hlow)

variable {text b : Bytes}

theorem trim_eq_self (h : ∀ c ∈ text, isSpace c = false) :
  trim text = text
  := by
  have hdrop : text.dropWhile isSpace = text := by
    rw [dropWhile_eq_self_iff]
    intro hlen
    simp [h _ (getElem_mem hlen)]
  rw [trim, hdrop, rdropWhile_eq_self_iff]
  intro hne
  simp [h _ (getLast_mem hne)]

theorem splitSign_of_isDigit (h : ∀ c ∈ b, isDigit c = true) :
  splitSign b = (1, b)
  := by
  unfold splitSign
  split
  · exact absurd (h 45 mem_cons_self) (by decide)
  · exact absurd (h 43 mem_cons_self) (by decide)
  · rfl

/-- A sign and digits are an integer literal. -/
theorem literal_of_digits {sign : ℤ} (htext : splitSign (trim text) = (sign, b))
    (hne : b ≠ []) (hb : ∀ c ∈ b, isDigit c = true) :
  literal text = some (.integer (sign * digitsValue b))
  := by
  have htake : b.takeWhile isDigit = b := takeWhile_eq_self_iff.mpr hb
  have hdrop : b.dropWhile isDigit = [] := dropWhile_eq_nil_iff.mpr hb
  simp [literal, htext, htake, hdrop, splitFraction, exponent, hne]

theorem literal_decimal (i : ℤ) :
  literal (decimal i) = some (.integer i)
  := by
  have hspace : ∀ n, ∀ c ∈ numeral n, isSpace c = false :=
    fun n c hc => isSpace_of_isDigit ((isDigit_of_mem_numeral n).2 c hc)
  cases i with
  | ofNat n =>
    obtain ⟨hne, hdigits⟩ := isDigit_of_mem_numeral n
    have htext : splitSign (trim (numeral n)) = (1, numeral n) := by
      rw [trim_eq_self (hspace n), splitSign_of_isDigit hdigits]
    rw [decimal, literal_of_digits htext hne hdigits, digitsValue_numeral, one_mul]
    rfl
  | negSucc n =>
    obtain ⟨hne, hdigits⟩ := isDigit_of_mem_numeral (n + 1)
    have htext : splitSign (trim (45 :: numeral (n + 1))) = (-1, numeral (n + 1)) := by
      rw [trim_eq_self]
      · rfl
      · intro c hc
        rcases mem_cons.mp hc with rfl | hc
        · rfl
        · apply hspace (n + 1) c hc
    have hvalue : -1 * ((n + 1 : ℕ) : ℤ) = Int.negSucc n := by
      omega
    rw [decimal, literal_of_digits htext hne hdigits, digitsValue_numeral, hvalue]

/-! ### The texts that are preserved -/

variable (F : RealFormat)

theorem columnText_numericAffinity (h : Preserved text) :
  columnText F (numericAffinity F text) = text
  := by
  rcases h with h | ⟨i, hi, rfl⟩
  · rw [numericAffinity, h]
    rfl
  · rw [numericAffinity, literal_decimal]
    simp only [if_pos hi]
    rfl

/-- Preserved texts are equal if they are stored as equal values. -/
theorem numericAffinity_inj {text text' : Bytes} (h : Preserved text) (h' : Preserved text') :
  numericAffinity F text = numericAffinity F text' ↔ text = text'
  := by
  constructor
  · intro heq
    rw [← columnText_numericAffinity F h, heq, columnText_numericAffinity F h']
  · rintro rfl
    rfl

end SQLite

import LLBuild.Basic.BinaryCoding
import Mathlib.Data.List.Basic
import Mathlib.Data.List.Forall2

/-!
# Words of a shell line

How a POSIX shell cuts a line into words and removes the quotes, before any
expansion.  A line on which more than that would happen (an operator, an expansion,
a pattern, a second line, a quotation that is not closed) has no list of words
here.  A text *spells* a word when reading it at the start of a word leaves exactly
that word; texts that spell their words can be joined with blanks.
-/

open BinaryCoding List

namespace Shell

/-- What the shell is inside of when it reads the next byte. -/
inductive Quoting
  | plain
  | escaped
  | single
  | double
  | doubleEscaped
  | comment
  deriving DecidableEq

/-- The bytes that separate words. -/
def isBlank (c : UInt8) : Bool := c ∈ ascii " \t"

/-- The bytes that, unquoted, are operators, end the line or start an expansion. -/
def isActive (c : UInt8) : Bool := c ∈ ascii "\n;&|<>()$`*?[~"

/-- The bytes that keep their meaning between double quotes. -/
def isExpansion (c : UInt8) : Bool := c ∈ ascii "$`"

/-- The bytes that a backslash quotes between double quotes. -/
def isDoubleEscapable (c : UInt8) : Bool := c ∈ ascii "$`\"\\"

variable (word : Option Bytes)

/-- The word read so far with one more byte. -/
def extend (c : UInt8) : Option Bytes :=
  some (word.getD [] ++ [c])

/-- Read the rest of a line; `word` is what has been read of the current word, if
one has been started. -/
def read : Quoting → Option Bytes → Bytes → Option (List Bytes)
  | .plain, word, [] => some word.toList
  | .comment, word, [] => some word.toList
  -- A quotation has to be closed on its line.
  | _, _, [] => none
  | .plain, word, c :: rest =>
    if isBlank c then (read .plain none rest).map (word.toList ++ ·)
    -- Only at the start of a token does a number sign open a comment.
    else if c = '#'.toUInt8 ∧ word = none then read .comment none rest
    else if c = '\\'.toUInt8 then read .escaped word rest
    else if c = '\''.toUInt8 then read .single (some (word.getD [])) rest
    else if c = '"'.toUInt8 then read .double (some (word.getD [])) rest
    else if isActive c then none
    else read .plain (extend word c) rest
  | .escaped, word, c :: rest =>
    -- An escaped newline joins two lines and leaves nothing behind.
    if c = '\n'.toUInt8 then read .plain word rest
    else read .plain (extend word c) rest
  | .single, word, c :: rest =>
    if c = '\''.toUInt8 then read .plain word rest
    else read .single (extend word c) rest
  | .double, word, c :: rest =>
    if c = '"'.toUInt8 then read .plain word rest
    else if c = '\\'.toUInt8 then read .doubleEscaped word rest
    else if isExpansion c then none
    else read .double (extend word c) rest
  | .doubleEscaped, word, c :: rest =>
    if c = '\n'.toUInt8 then read .double word rest
    else if isDoubleEscapable c then read .double (extend word c) rest
    else read .double (extend (extend word '\\'.toUInt8) c) rest
  | .comment, word, c :: rest =>
    if c = '\n'.toUInt8 then none else read .comment word rest

/-- The words of a line, without their quotes. -/
def words (line : Bytes) : Option (List Bytes) := read .plain none line

/-- The bytes that stand for themselves inside of a word. -/
def IsOrdinary (c : UInt8) : Prop :=
  ¬ isBlank c ∧ ¬ isActive c ∧ c ∉ ascii "\\'\""

instance (c : UInt8) : Decidable (IsOrdinary c) := inferInstanceAs (Decidable (_ ∧ _ ∧ _))

/-- An ordinary byte that is not read as a comment is added to the word. -/
theorem read_ordinary
    {c : UInt8} (hc : IsOrdinary c) {word : Option Bytes}
    (hcomment : ¬ (c = '#'.toUInt8 ∧ word = none)) (rest : Bytes) :
  read .plain word (c :: rest) = read .plain (extend word c) rest
  := by
  obtain ⟨hblank, hactive, hquote⟩ := hc
  have hbackslash : c ≠ '\\'.toUInt8 := by
    rintro rfl
    apply hquote
    decide
  have hsingle : c ≠ '\''.toUInt8 := by
    rintro rfl
    apply hquote
    decide
  have hdouble : c ≠ '"'.toUInt8 := by
    rintro rfl
    apply hquote
    decide
  rw [read, if_neg hblank, if_neg hcomment, if_neg hbackslash, if_neg hsingle,
    if_neg hdouble, if_neg hactive]

/-- Ordinary bytes inside of a word are added to it. -/
theorem read_ordinary_append {text : Bytes} (htext : ∀ c ∈ text, IsOrdinary c) (word rest : Bytes) :
  read .plain (some word) (text ++ rest) = read .plain (some (word ++ text)) rest
  := by
  induction text generalizing word with
  | nil => rw [nil_append, append_nil]
  | cons c text ih =>
    have hc : IsOrdinary c := htext c mem_cons_self
    have hword : ¬ (c = '#'.toUInt8 ∧ some word = none) := by simp
    rw [cons_append, read_ordinary hc hword]
    rw [extend, Option.getD_some, ih (fun b hb => htext b (mem_cons_of_mem c hb))]
    rw [append_assoc, singleton_append]

variable (rest : Bytes)

/-- A single quote opens a quotation and starts a word if none has been started. -/
theorem read_open_single :
  read .plain word ('\''.toUInt8 :: rest) = read .single (some (word.getD [])) rest
  := by
  have hcomment : ¬ ('\''.toUInt8 = '#'.toUInt8 ∧ word = none) := by
    rintro ⟨h, -⟩
    revert h
    decide
  rw [read, if_neg (by decide), if_neg hcomment, if_neg (by decide), if_pos rfl]

theorem read_close_single :
  read .single word ('\''.toUInt8 :: rest) = read .plain word rest
  := by
  rw [read, if_pos rfl]

/-- Between single quotes every other byte stands for itself. -/
theorem read_single {c : UInt8} (hc : c ≠ '\''.toUInt8) (word : Option Bytes) (rest : Bytes) :
  read .single word (c :: rest) = read .single (extend word c) rest
  := by
  rw [read, if_neg hc]

/-- An escaped single quote outside of quotations is a byte of the word. -/
theorem read_escaped_quote :
  read .plain word ('\\'.toUInt8 :: '\''.toUInt8 :: rest)
    = read .plain (extend word '\''.toUInt8) rest
  := by
  have hcomment : ¬ ('\\'.toUInt8 = '#'.toUInt8 ∧ word = none) := by
    rintro ⟨h, -⟩
    revert h
    decide
  rw [read, if_neg (by decide), if_neg hcomment, if_pos rfl, read, if_neg (by decide)]

theorem read_space (word rest : Bytes) :
  read .plain (some word) (' '.toUInt8 :: rest) = (words rest).map (word :: ·)
  := by
  rfl

theorem words_space (rest : Bytes) :
  words (' '.toUInt8 :: rest) = words rest
  := by
  rw [words, read, if_pos (by decide), ← words, Option.toList_none]
  exact Option.map_id'

/-- There is no word in a comment. -/
theorem eq_nil_of_read_comment {text : Bytes} {ws : List Bytes}
    (h : read .comment none text = some ws) :
  ws = []
  := by
  induction text with
  | nil => exact (Option.some.inj h).symm
  | cons c text ih =>
    rw [read] at h
    split_ifs at h
    exact ih h

/-- Reading `text` at the start of a word leaves the shell inside of the word `word`,
whatever follows. -/
def Spells (text word : Bytes) : Prop :=
  ∀ rest, read .plain none (text ++ rest) = read .plain (some word) rest

/-- A word of ordinary bytes that does not start with a number sign spells itself. -/
theorem spells_ordinary
    {word : Bytes} (hword : ∀ c ∈ word, IsOrdinary c) (hne : word ≠ [])
    (hstart : word.head? ≠ some '#'.toUInt8) :
  Spells word word
  := by
  intro rest
  cases word with
  | nil => exact absurd rfl hne
  | cons c word =>
    have hc : ¬ (c = '#'.toUInt8 ∧ (none : Option Bytes) = none) := by
      rintro ⟨rfl, -⟩
      apply hstart
      rfl
    rw [cons_append, read_ordinary (hword c mem_cons_self) hc]
    apply read_ordinary_append
    intro b hb
    apply hword b (mem_cons_of_mem c hb)

/-- Texts that spell their words and are joined with single spaces are read as those
words. -/
theorem words_intercalate {texts ws : List Bytes} (h : List.Forall₂ Spells texts ws) :
  words (intercalate [' '.toUInt8] texts) = some ws
  := by
  induction h with
  | nil => rfl
  | @cons text word texts ws hspells htexts ih =>
    cases htexts with
    | nil =>
      have hread : read .plain none (text ++ []) = read .plain (some word) [] := hspells []
      rw [append_nil] at hread
      rw [intercalate_singleton, words, hread]
      rfl
    | @cons next _ texts =>
      rw [intercalate_cons_cons, append_assoc, words, hspells, singleton_append, read_space, ih]
      rfl

end Shell

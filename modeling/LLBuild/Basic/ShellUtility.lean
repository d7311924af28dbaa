import LLBuild.Basic.BinaryCoding
import LLBuild.Basic.ShellWords

/-!
# Escaping for the shell

`appendShellEscapedString` writes an argument so that a POSIX shell reads it back.
A string that needs quotes is read back byte for byte, whatever its bytes are.  Of
the strings that are written without quotes two kinds are not: the empty string
leaves no word at all, and a string that starts with a number sign leaves a comment.
-/

namespace LLBuild

open List

open BinaryCoding
open Shell (Spells IsOrdinary words)

/-- The characters that need no escaping. -/
def whitelist : Bytes :=
  ascii "abcdefghijklmnopqrstuvwxyzABCDEFGHIJKLMNOPQRSTUVWXYZ1234567890-_/:@#%+=.,"

variable (string : Bytes)

/-- What the loop over the characters from the first single quote on writes. -/
def escapeSingleQuotes : Bytes :=
  string.flatMap (fun c => if c = '\''.toUInt8 then ascii "'\\''" else [c])

/-- Append `string` to the stream `os`, escaped. -/
def appendShellEscapedString (os string : Bytes) : Bytes :=
  match string.findIdx? (· ∉ whitelist) with
  -- No escaping is needed.
  | none => os ++ string
  | some pos =>
    match (string.drop pos).findIdx? (· = '\''.toUInt8) with
    | none => os ++ ['\''.toUInt8] ++ string ++ ['\''.toUInt8]
    | some offset =>
      let singleQuotePos := pos + offset
      os ++ ['\''.toUInt8] ++ string.take singleQuotePos
        ++ escapeSingleQuotes (string.drop singleQuotePos) ++ ['\''.toUInt8]

/-- A shell escaped string of the input. -/
def shellEscaped : Bytes := appendShellEscapedString [] string

/-- A string of which every character is on the whitelist. -/
def IsWhitelisted : Prop := ∀ c ∈ string, c ∈ whitelist

instance (string : Bytes) : Decidable (IsWhitelisted string) :=
  inferInstanceAs (Decidable (∀ _ ∈ _, _))

/-! ### What is written -/

/-- No character on the whitelist means anything to the shell inside of a word. -/
theorem isOrdinary_of_mem_whitelist {c : UInt8} (h : c ∈ whitelist) :
  IsOrdinary c
  := by
  revert c
  decide +kernel

variable {string : Bytes}

theorem escapeSingleQuotes_of_notMem (h : '\''.toUInt8 ∉ string) :
  escapeSingleQuotes string = string
  := by
  induction string with
  | nil => rfl
  | cons c string ih =>
    rw [mem_cons, not_or] at h
    rw [escapeSingleQuotes, flatMap_cons, if_neg (Ne.symm h.1)]
    apply congrArg (c :: ·) (ih h.2)

/-- Nothing before the first index of a search satisfies the condition searched for. -/
theorem not_of_mem_take_of_findIdx?
    {p : UInt8 → Bool} {string : Bytes} {pos : ℕ} (h : string.findIdx? p = some pos)
    {c : UInt8} (hc : c ∈ string.take pos) :
  ¬ p c
  := by
  obtain ⟨i, hi, rfl⟩ := mem_take_iff_getElem.mp hc
  obtain ⟨_, _, hbefore⟩ := findIdx?_eq_some_iff_getElem.mp h
  apply hbefore i (lt_of_lt_of_le hi (min_le_left _ _))

theorem IsWhitelisted.notMem_quote (h : IsWhitelisted string) :
  '\''.toUInt8 ∉ string
  := by
  intro hmem
  have hlisted := h _ hmem
  revert hlisted
  decide

/-- A string with a character off the whitelist is written between single quotes, with
every single quote of its own escaped. -/
theorem shellEscaped_of_not_isWhitelisted (h : ¬ IsWhitelisted string) :
  shellEscaped string
    = '\''.toUInt8 :: (escapeSingleQuotes string ++ ['\''.toUInt8])
  := by
  rw [shellEscaped, appendShellEscapedString]
  cases hpos : string.findIdx? (· ∉ whitelist) with
  | none =>
    exfalso
    apply h
    intro c hc
    simpa using findIdx?_eq_none_iff.mp hpos c hc
  | some pos =>
    have hlisted : IsWhitelisted (string.take pos) := by
      intro c hc
      simpa using not_of_mem_take_of_findIdx? hpos hc
    -- The string has no quote before `pos`, so the second search misses none.
    cases hquote : (string.drop pos).findIdx? (· = '\''.toUInt8) with
    | none =>
      have hnone : '\''.toUInt8 ∉ string := by
        rw [← take_append_drop pos string, mem_append, not_or]
        constructor
        · apply hlisted.notMem_quote
        · intro hmem
          simpa using findIdx?_eq_none_iff.mp hquote _ hmem
      rw [escapeSingleQuotes_of_notMem hnone]
      simp only [hquote]
      rfl
    | some offset =>
      have hnone : '\''.toUInt8 ∉ string.take (pos + offset) := by
        rw [take_add, mem_append, not_or]
        constructor
        · apply hlisted.notMem_quote
        · intro hmem
          simpa using not_of_mem_take_of_findIdx? hquote hmem
      have hsplit : escapeSingleQuotes string
          = string.take (pos + offset) ++ escapeSingleQuotes (string.drop (pos + offset)) := by
        nth_rewrite 1 [← take_append_drop (pos + offset) string]
        rw [escapeSingleQuotes, flatMap_append]
        apply congrArg (· ++ _) (escapeSingleQuotes_of_notMem hnone)
      simp only [hquote]
      rw [hsplit]
      simp

theorem shellEscaped_of_isWhitelisted (h : IsWhitelisted string) :
  shellEscaped string = string
  := by
  have hpos : string.findIdx? (· ∉ whitelist) = none := by
    rw [findIdx?_eq_none_iff]
    intro c hc
    simpa using h c hc
  rw [shellEscaped, appendShellEscapedString, hpos, nil_append]

/-! ### What is read back -/

/-- Escaped text inside of a quotation is read back byte for byte. -/
theorem read_escapeSingleQuotes (string word rest : Bytes) :
  Shell.read .single (some word) (escapeSingleQuotes string ++ '\''.toUInt8 :: rest)
    = Shell.read .plain (some (word ++ string)) rest
  := by
  induction string generalizing word with
  | nil => rw [append_nil]; apply Shell.read_close_single
  | cons c string ih =>
    rw [escapeSingleQuotes, flatMap_cons, ← escapeSingleQuotes, append_assoc]
    split
    next hc =>
      subst hc
      -- The quotation is closed, a quote is written outside of it, and it is opened again.
      have htext : ascii "'\\''" = ['\''.toUInt8, '\\'.toUInt8, '\''.toUInt8, '\''.toUInt8] :=
        rfl
      rw [htext, cons_append, cons_append, cons_append, cons_append,
        nil_append, Shell.read_close_single, Shell.read_escaped_quote,
        Shell.read_open_single]
      rw [Shell.extend, Option.getD_some, Option.getD_some, ih, append_assoc, singleton_append]
    next hc =>
      rw [singleton_append, Shell.read_single hc, Shell.extend, Option.getD_some, ih,
        append_assoc, singleton_append]

/-- The shell reads an escaped string as one word, the string itself, when it is neither
empty nor an unquoted one that starts with a number sign. -/
theorem spells_shellEscaped
    (hne : string ≠ []) (hstart : IsWhitelisted string → string.head? ≠ some '#'.toUInt8) :
  Spells (shellEscaped string) string
  := by
  by_cases h : IsWhitelisted string
  · rw [shellEscaped_of_isWhitelisted h]
    apply Shell.spells_ordinary _ hne (hstart h)
    intro c hc
    apply isOrdinary_of_mem_whitelist (h c hc)
  · intro rest
    rw [shellEscaped_of_not_isWhitelisted h, cons_append, append_assoc]
    apply read_escapeSingleQuotes

/-- The line of a command: its arguments escaped and joined with single spaces. -/
def commandLine (args : List Bytes) : Bytes :=
  intercalate [' '.toUInt8] (args.map shellEscaped)

/-- An empty argument, or one that needs no escaping and starts with a number sign, leaves no word
to be read, and a comment takes the rest of the line. -/
theorem words_of_lost {arg : Bytes} {rest : Bytes} {ws : List Bytes}
    (hlost : arg = [] ∨ IsWhitelisted arg ∧ arg.head? = some '#'.toUInt8)
    (hwords : words (shellEscaped arg ++ rest) = some ws) :
  ws = [] ∨ words rest = some ws
  := by
  obtain rfl | ⟨hlisted, hhead⟩ := hlost
  · exact .inr hwords
  · left
    rw [shellEscaped_of_isWhitelisted hlisted] at hwords
    obtain ⟨tail, rfl⟩ := head?_eq_some_iff.mp hhead
    rw [words, cons_append, Shell.read, if_neg (by decide), if_pos ⟨rfl, rfl⟩] at hwords
    exact Shell.eq_nil_of_read_comment hwords

/-- There are no more words than arguments, and fewer if an argument is lost. -/
theorem length_words_commandLine {args ws : List Bytes} (h : words (commandLine args) = some ws) :
  ws.length ≤ args.length ∧ (ws.length = args.length → ∀ arg ∈ args, arg ≠ []
    ∧ (IsWhitelisted arg → arg.head? ≠ some '#'.toUInt8))
  := by
  induction args generalizing ws with
  | nil =>
    cases h
    exact ⟨Nat.le_refl 0, fun _ => forall_mem_nil _⟩
  | cons arg args ih =>
    by_cases hlost : arg = [] ∨ IsWhitelisted arg ∧ arg.head? = some '#'.toUInt8
    · have hlength : ws.length ≤ args.length := by
        cases args with
        | nil =>
          rw [commandLine, map_singleton, intercalate_singleton,
            ← append_nil (shellEscaped arg)] at h
          obtain rfl | h := words_of_lost hlost h
          · exact Nat.le_refl 0
          · cases h
            exact Nat.le_refl 0
        | cons next args =>
          rw [commandLine, map_cons, map_cons, intercalate_cons_cons, append_assoc, ← map_cons,
            ← commandLine] at h
          obtain rfl | h := words_of_lost hlost h
          · exact Nat.zero_le _
          · rw [singleton_append, Shell.words_space] at h
            exact (ih h).1
      rw [length_cons]
      exact ⟨Nat.le_succ_of_le hlength, fun heq => absurd heq (by omega)⟩
    · rw [not_or, not_and] at hlost
      have hspells := spells_shellEscaped hlost.1 hlost.2
      cases args with
      | nil =>
        have hread : words (shellEscaped arg ++ []) = some [arg] := hspells []
        rw [append_nil] at hread
        rw [commandLine, map_singleton, intercalate_singleton, hread] at h
        cases h
        exact ⟨Nat.le_refl 1, fun _ => forall_mem_singleton.mpr hlost⟩
      | cons next args =>
        rw [commandLine, map_cons, map_cons, intercalate_cons_cons, append_assoc, ← map_cons,
          ← commandLine, words, hspells, singleton_append, Shell.read_space] at h
        obtain ⟨rest, hrest, rfl⟩ := Option.map_eq_some_iff.mp h
        obtain ⟨hle, hgood⟩ := ih hrest
        rw [length_cons, length_cons]
        refine ⟨Nat.succ_le_succ hle, fun heq => forall_mem_cons.mpr ⟨hlost, ?_⟩⟩
        exact hgood (Nat.succ.inj heq)

/-- The shell reads the line of a command as its arguments exactly if none of them is empty and
none that needs no escaping starts with a number sign. -/
theorem words_commandLine_iff (args : List Bytes) :
  words (commandLine args) = some args ↔ ∀ arg ∈ args, arg ≠ []
    ∧ (IsWhitelisted arg → arg.head? ≠ some '#'.toUInt8)
  := by
  constructor
  · intro h
    exact (length_words_commandLine h).2 rfl
  · intro h
    apply Shell.words_intercalate
    rw [forall₂_map_left_iff, forall₂_same]
    intro arg harg
    exact spells_shellEscaped (h arg harg).1 (h arg harg).2

/-- An empty argument disappears, and an argument that starts with a number sign takes the
rest of the line with it. -/
theorem words_commandLine_lost :
  words (commandLine [ascii "a", ascii "", ascii "b"]) = some [ascii "a", ascii "b"]
    ∧ words (commandLine [ascii "a", ascii "#b", ascii "c"]) = some [ascii "a"]
  := by
  decide

end LLBuild

import LLBuild.Basic.BinaryCoding
import Mathlib.Data.List.Basic

/-!
# Dependencies in the format of a makefile

`parse` reads what compilers write about the dependencies of their outputs, a subset
of the syntax of makefiles, and reports the rules it finds.  The position in the
input is the list of the bytes still to be read.  A backslash that is the last byte
of the input makes the scanner read past the end; the parser has no result then.

`write` is the other direction: one line for each rule, with the characters escaped
that mean something else to the parser.  What is written is read back.
-/

namespace LLBuild

open Option

open List

open BinaryCoding

namespace MakefileDepsParser

/-- What the parser reports. -/
inductive Action
  | error (message : String) (position : ℕ)
  | actOnRuleStart (name unescapedWord : Bytes)
  | actOnRuleDependency (dependency unescapedWord : Bytes)
  | actOnRuleEnd
  deriving DecidableEq

variable (c : UInt8)

/-- The characters of a word other than escape sequences. -/
def isWordChar : Bool := c ∉ ascii "\x00\t\r\n $:"

/-- Skip blanks, ends of lines and comments; `comment` says whether the position is
inside of a comment, which ends before the next newline. -/
def skipWhitespaceAndComments : (comment : Bool) → Bytes → Bytes
  | _, [] => []
  | true, c :: cur =>
    if c = '\n'.toUInt8 then skipWhitespaceAndComments false cur
    else skipWhitespaceAndComments true cur
  | false, c :: cur =>
    if c = '#'.toUInt8 then skipWhitespaceAndComments true cur
    else if c ∈ ascii " \t\n\r" then skipWhitespaceAndComments false cur
    else c :: cur

/-- Skip blanks and escaped ends of lines. -/
def skipNonNewlineWhitespace : Bytes → Bytes
  | [] => []
  | c :: cur =>
    if c ∈ ascii " \t\r" then skipNonNewlineWhitespace cur
    else if c = '\\'.toUInt8 then
      match cur with
      | [] => [c]
      | d :: cur =>
        if d = '\n'.toUInt8 then skipNonNewlineWhitespace cur
        else if d = '\r'.toUInt8 then
          match cur with
          | [] => [c, d]
          | e :: cur =>
            if e = '\n'.toUInt8 then skipNonNewlineWhitespace cur
            else c :: d :: e :: cur
        else c :: d :: cur
    else c :: cur

/-- Skip the rest of the line with its newline. -/
def skipToEndOfLine : Bytes → Bytes
  | [] => []
  | c :: cur => if c = '\n'.toUInt8 then cur else skipToEndOfLine cur

/-- What an escape sequence stands for, given the character after the backslash.  The
rules are those of the compilers that write such files. -/
def unescape : Bytes :=
  if c ∈ ascii " #\\" then [c] else ['\\'.toUInt8, c]

/-- Add the word at the position to `unescapedWord`, and return the position after it. -/
def lexWord : (unescapedWord : Bytes) → Bytes → Option (Bytes × Bytes)
  | word, [] => some (word, [])
  | word, [c] =>
    -- The character after the backslash would be read past the end.
    if c = '\\'.toUInt8 then none
    else if ¬ isWordChar c then some (word, [c])
    else some (word ++ [c], [])
  | word, c :: d :: cur =>
    if c = '\\'.toUInt8 then
      -- A line continuation ends the word.
      if d = '\n'.toUInt8 then some (word, c :: d :: cur)
      else lexWord (word ++ unescape d) cur
    else if c = '$'.toUInt8 ∧ d = '$'.toUInt8 then lexWord (word ++ [c]) cur
    else if ¬ isWordChar c then some (word, c :: d :: cur)
    else lexWord (word ++ [c]) (d :: cur)

/-! ### No scanner moves backwards -/

theorem length_skipWhitespaceAndComments_le (comment : Bool) (cur : Bytes) :
  (skipWhitespaceAndComments comment cur).length ≤ cur.length
  := by
  fun_induction skipWhitespaceAndComments comment cur <;> grind

variable (cur : Bytes)

theorem length_skipNonNewlineWhitespace_le :
  (skipNonNewlineWhitespace cur).length ≤ cur.length
  := by
  fun_induction skipNonNewlineWhitespace cur <;> grind

theorem length_skipToEndOfLine_le :
  (skipToEndOfLine cur).length ≤ cur.length
  := by
  fun_induction skipToEndOfLine cur <;> grind

variable {cur : Bytes}

theorem length_skipToEndOfLine_lt (h : cur ≠ []) :
  (skipToEndOfLine cur).length < cur.length
  := by
  cases cur with
  | nil => contradiction
  | cons c cur =>
    have hle := length_skipToEndOfLine_le cur
    rw [skipToEndOfLine]
    split <;> grind

variable {word : Bytes} {cur' word' rest : Bytes}

theorem length_le_of_lexWord (h : lexWord word cur = some (word', cur')) :
  cur'.length ≤ cur.length
  := by
  fun_induction lexWord word cur <;> grind

/-- Read on while the word of a dependency has stopped at a colon, which compilers do
not escape. -/
def lexColons (word cur : Bytes) : Option (Bytes × Bytes) :=
  match cur with
  | [] => some (word, [])
  | c :: rest =>
    if c = ':'.toUInt8 then
      match _hlex : lexWord (word ++ [c]) rest with
      | none => none
      | some (word, cur) => lexColons word cur
    else some (word, c :: rest)
termination_by cur.length
decreasing_by
  have hle := length_le_of_lexWord _hlex
  simp only [length_cons]
  omega

theorem length_le_of_lexColons (h : lexColons word cur = some (word', cur')) :
  cur'.length ≤ cur.length
  := by
  fun_induction lexColons word cur with
  | case1 | case4 => grind
  | case2 word rest hlex => cases h
  | case3 word rest word₁ cur₁ hlex ih =>
    have hle := length_le_of_lexWord hlex
    grind

/-- The text between two positions. -/
def textBetween (start cur : Bytes) : Bytes := start.take (start.length - cur.length)

/-- Consume dependency words up to the end of the line; `size` is the size of the whole
input. -/
def parseDependencies (size : ℕ) (cur : Bytes) : Option (List Action × Bytes) :=
  if cur = [] then some ([], [])
  else
    let start := skipNonNewlineWhitespace cur
    if start = [] ∨ start.head? = some '\n'.toUInt8 then some ([], start)
    else
      match _hlex : lexWord [] start with
      | none => none
      | some (word, stop) =>
        if stop.length = start.length then
          (parseDependencies size (skipToEndOfLine stop)).map fun parsed =>
            (.error "unexpected character in prerequisites" (size - stop.length) :: parsed.1,
              parsed.2)
        else
          match _hcolons : lexColons word stop with
          | none => none
          | some (word, stop) =>
            (parseDependencies size stop).map fun parsed =>
              (.actOnRuleDependency (textBetween start stop) word :: parsed.1, parsed.2)
termination_by cur.length
decreasing_by
  · have hskip := length_skipNonNewlineWhitespace_le cur
    have hlt : (skipToEndOfLine stop).length < stop.length := by
      apply length_skipToEndOfLine_lt
      grind
    grind
  · have hskip := length_skipNonNewlineWhitespace_le cur
    have hword := length_le_of_lexWord _hlex
    have hcolon := length_le_of_lexColons _hcolons
    grind

theorem length_le_of_parseDependencies
    {size : ℕ} {actions : List Action} (h : parseDependencies size cur = some (actions, rest)) :
  rest.length ≤ cur.length
  := by
  fun_induction parseDependencies size cur generalizing actions rest with
  | case1 => grind
  | case2 cur start hend =>
    have hskip := length_skipNonNewlineWhitespace_le cur
    grind
  | case3 | case5 => cases h
  | case4 cur hne start hend word stop hlex hstop =>
    rename_i ih
    have hskip := length_skipNonNewlineWhitespace_le cur
    have hline := length_skipToEndOfLine_le stop
    obtain ⟨parsed, hparsed, hrest⟩ := map_eq_some_iff.mp h
    grind
  | case6 cur hne start hend word stop hlex hstop word' stop' hcolons =>
    rename_i ih
    have hskip := length_skipNonNewlineWhitespace_le cur
    have hword := length_le_of_lexWord hlex
    have hcolon := length_le_of_lexColons hcolons
    obtain ⟨parsed, hparsed, hrest⟩ := map_eq_some_iff.mp h
    grind

/-- Parse from a position of an input of the given size. -/
def parseFrom (ignoreSubsequentOutputs : Bool) (size : ℕ) (cur : Bytes) :
    Option (List Action) :=
  let start := skipWhitespaceAndComments false cur
  if start = [] then some []
  else
    match _hlex : lexWord [] start with
    | none => none
    | some (word, stop) =>
      if stop.length = start.length then
        (parseFrom ignoreSubsequentOutputs size (skipToEndOfLine stop)).map fun actions =>
          .error "unexpected character in file" (size - stop.length) :: actions
      else
        let colon := skipNonNewlineWhitespace stop
        if colon.head? ≠ some ':'.toUInt8 then
          (parseFrom ignoreSubsequentOutputs size (skipToEndOfLine colon)).map fun actions =>
            .actOnRuleStart (textBetween start stop) word
              :: .error "missing ':' following rule" (size - colon.length)
              :: .actOnRuleEnd :: actions
        else
          match _hdeps : parseDependencies size colon.tail with
          | none => none
          | some (deps, rest) =>
            (if ignoreSubsequentOutputs then some []
              else parseFrom ignoreSubsequentOutputs size rest).map fun actions =>
              .actOnRuleStart (textBetween start stop) word
                :: deps ++ .actOnRuleEnd :: actions
termination_by cur.length
decreasing_by
  · have hskip := length_skipWhitespaceAndComments_le false cur
    have hlt : (skipToEndOfLine stop).length < stop.length := by
      apply length_skipToEndOfLine_lt
      grind
    grind
  · have hskip := length_skipWhitespaceAndComments_le false cur
    have hword := length_le_of_lexWord _hlex
    have hblank := length_skipNonNewlineWhitespace_le stop
    have hline := length_skipToEndOfLine_le (skipNonNewlineWhitespace stop)
    grind
  · have hskip := length_skipWhitespaceAndComments_le false cur
    have hword := length_le_of_lexWord _hlex
    have hblank := length_skipNonNewlineWhitespace_le stop
    have hrest := length_le_of_parseDependencies _hdeps
    grind

/-- Parse an input. -/
def parse (data : Bytes) (ignoreSubsequentOutputs : Bool) : Option (List Action) :=
  parseFrom ignoreSubsequentOutputs data.length data

/-! ### The equations of the parser -/

variable (size : ℕ)

theorem parseDependencies_eq :
  parseDependencies size cur
    = if cur = [] then some ([], [])
      else
        let start := skipNonNewlineWhitespace cur
        if start = [] ∨ start.head? = some '\n'.toUInt8 then some ([], start)
        else
          (lexWord [] start).bind fun lexed =>
          if lexed.2.length = start.length then
            (parseDependencies size (skipToEndOfLine lexed.2)).map fun parsed =>
              (.error "unexpected character in prerequisites" (size - lexed.2.length) :: parsed.1,
                parsed.2)
          else
            (lexColons lexed.1 lexed.2).bind fun lexed =>
            (parseDependencies size lexed.2).map fun parsed =>
              (.actOnRuleDependency (textBetween start lexed.2) lexed.1 :: parsed.1, parsed.2)
  := by
  rw [parseDependencies]
  split_ifs
  · rfl
  · dsimp only
    split_ifs
    · rfl
    · split
      · rename_i hlex
        rw [hlex]
        rfl
      · rename_i hlex
        rw [hlex, bind_some]
        split_ifs
        · rfl
        · split <;> rename_i hcolons <;> rw [hcolons] <;> rfl

variable (ignoreSubsequentOutputs : Bool)

theorem parseFrom_eq (size : ℕ) (cur : Bytes) :
  parseFrom ignoreSubsequentOutputs size cur
    = let start := skipWhitespaceAndComments false cur
      if start = [] then some []
      else
        (lexWord [] start).bind fun lexed =>
        if lexed.2.length = start.length then
          (parseFrom ignoreSubsequentOutputs size (skipToEndOfLine lexed.2)).map fun actions =>
            .error "unexpected character in file" (size - lexed.2.length) :: actions
        else
          let colon := skipNonNewlineWhitespace lexed.2
          if colon.head? ≠ some ':'.toUInt8 then
            (parseFrom ignoreSubsequentOutputs size (skipToEndOfLine colon)).map fun actions =>
              .actOnRuleStart (textBetween start lexed.2) lexed.1
                :: .error "missing ':' following rule" (size - colon.length)
                :: .actOnRuleEnd :: actions
          else
            (parseDependencies size colon.tail).bind fun deps =>
            (if ignoreSubsequentOutputs then some []
              else parseFrom ignoreSubsequentOutputs size deps.2).map fun actions =>
              .actOnRuleStart (textBetween start lexed.2) lexed.1
                :: deps.1 ++ .actOnRuleEnd :: actions
  := by
  rw [parseFrom]
  by_cases hstart : skipWhitespaceAndComments false cur = []
  · rw [if_pos hstart, if_pos hstart]
  rw [if_neg hstart, if_neg hstart]
  split
  · rename_i hlex
    rw [hlex]
    rfl
  · rename_i word stop hlex
    rw [hlex, bind_some]
    by_cases hword : stop.length = (skipWhitespaceAndComments false cur).length
    · rw [if_pos hword, if_pos hword]
    rw [if_neg hword, if_neg hword]
    by_cases hcolon : (skipNonNewlineWhitespace stop).head? ≠ some ':'.toUInt8
    · rw [if_pos hcolon, if_pos hcolon]
    rw [if_neg hcolon, if_neg hcolon]
    split <;> rename_i hdeps <;> rw [hdeps] <;> rfl

/-! ### Writing rules -/

/-- A rule: its target and its dependencies. -/
structure Rule where
  target : Bytes
  dependencies : List Bytes
  deriving DecidableEq

/-- A character of a word, escaped. -/
def escapeChar : Bytes :=
  if c ∈ ascii " #\\" then ['\\'.toUInt8, c]
  else if c = '$'.toUInt8 then [c, c]
  else [c]

/-- A word, escaped. -/
def escapeWord (word : Bytes) : Bytes := word.flatMap escapeChar

variable (spaces : ℕ)

/-- The line of a rule, with the given number of spaces after the colon. -/
def writeRule (rule : Rule) : Bytes :=
  escapeWord rule.target ++ ':'.toUInt8 :: replicate spaces ' '.toUInt8
    ++ intercalate [' '.toUInt8] (rule.dependencies.map escapeWord) ++ ['\n'.toUInt8]

/-- The lines of a list of rules. -/
def write (rules : List Rule) : Bytes := rules.flatMap (writeRule spaces)

/-- The reports about a rule. -/
def Rule.actions (rule : Rule) : List Action :=
  .actOnRuleStart (escapeWord rule.target) rule.target
    :: rule.dependencies.map (fun word => .actOnRuleDependency (escapeWord word) word)
    ++ [.actOnRuleEnd]

/-- The words that can be written: they are not empty and have no character that ends a
word and cannot be escaped. -/
structure IsWord (word : Bytes) : Prop where
  ne_nil : word ≠ []
  chars : ∀ c ∈ word, c ∉ ascii "\x00\t\r\n"

/-- The rules that can be written: a colon in the target or at the start of a dependency
would be read as the one between target and dependencies. -/
structure Rule.IsWritable (rule : Rule) : Prop where
  target : IsWord rule.target
  target_colon : ':'.toUInt8 ∉ rule.target
  dependencies : ∀ word ∈ rule.dependencies, IsWord word
  dependencies_colon : ∀ word ∈ rule.dependencies, word.head? ≠ some ':'.toUInt8

/-! ### Reading a word back -/

variable {c : UInt8}

theorem lexWord_wordChar (hc : isWordChar c) (hescape : c ≠ '\\'.toUInt8) (word cur : Bytes) :
  lexWord word (c :: cur) = lexWord (word ++ [c]) cur
  := by
  have hdollar : c ≠ '$'.toUInt8 := by
    rintro rfl
    revert hc
    decide
  cases cur with
  | nil => rw [lexWord, lexWord, if_neg hescape, if_neg (not_not.mpr hc)]
  | cons d cur =>
    rw [lexWord, if_neg hescape, if_neg (hdollar ·.1), if_neg (not_not.mpr hc)]

theorem lexWord_stop (hc : ¬ isWordChar c) (hdollar : c ≠ '$'.toUInt8) (word cur : Bytes) :
  lexWord word (c :: cur) = some (word, c :: cur)
  := by
  have hescape : c ≠ '\\'.toUInt8 := by
    rintro rfl
    apply hc
    decide
  cases cur with
  | nil => rw [lexWord, if_neg hescape, if_pos hc]
  | cons d cur =>
    rw [lexWord, if_neg hescape, if_neg (hdollar ·.1), if_pos hc]

/-- An escaped character other than a colon is read as the character. -/
theorem lexWord_escapeChar
    (hc : c ∉ ascii "\x00\t\r\n") (hcolon : c ≠ ':'.toUInt8) (word cur : Bytes) :
  lexWord word (escapeChar c ++ cur) = lexWord (word ++ [c]) cur
  := by
  by_cases hspecial : c ∈ ascii " #\\"
  · have hnewline : c ≠ '\n'.toUInt8 := by
      rintro rfl
      apply hc
      decide
    rw [escapeChar, if_pos hspecial, cons_append, singleton_append, lexWord,
      if_pos rfl, if_neg hnewline, unescape, if_pos hspecial]
  · by_cases hdollar : c = '$'.toUInt8
    · subst hdollar
      rw [escapeChar, if_neg hspecial, if_pos rfl, cons_append, singleton_append,
        lexWord, if_neg (by decide), if_pos ⟨rfl, rfl⟩]
    · rw [escapeChar, if_neg hspecial, if_neg hdollar, singleton_append]
      apply lexWord_wordChar
      · simp only [isWordChar, ascii] at hc hcolon hspecial hdollar ⊢
        grind
      · rintro rfl
        apply hspecial
        decide

variable {text : Bytes}

/-- An escaped word without colons is read as the word. -/
theorem lexWord_escapeWord
    (htext : ∀ c ∈ text, c ∉ ascii "\x00\t\r\n") (hcolon : ':'.toUInt8 ∉ text) (word cur : Bytes) :
  lexWord word (escapeWord text ++ cur) = lexWord (word ++ text) cur
  := by
  induction text generalizing word with
  | nil => rw [append_nil]; rfl
  | cons c text ih =>
    rw [mem_cons, not_or] at hcolon
    rw [escapeWord, flatMap_cons, append_assoc,
      lexWord_escapeChar (htext c mem_cons_self) (Ne.symm hcolon.1)]
    rw [← escapeWord, ih (fun b hb => htext b (mem_cons_of_mem c hb)) hcolon.2,
      append_assoc, singleton_append]

/-- The first character of an escaped word moves the scanner on. -/
theorem length_lt_of_lexWord_escapeChar
    (hc : c ∉ ascii "\x00\t\r\n") (hcolon : c ≠ ':'.toUInt8)
    {stop : Bytes} (h : lexWord [] (escapeChar c ++ cur) = some (word, stop)) :
  stop.length < (escapeChar c ++ cur).length
  := by
  rw [lexWord_escapeChar hc hcolon] at h
  have hle := length_le_of_lexWord h
  have hpos : 0 < (escapeChar c).length := by
    rw [escapeChar]
    split_ifs <;> simp
  rw [length_append]
  omega

/-- The word of a dependency: up to the first colon, and on from there. -/
def lexDependency (word cur : Bytes) : Option (Bytes × Bytes) :=
  (lexWord word cur).bind (fun lexed => lexColons lexed.1 lexed.2)

theorem lexDependency_colon (word cur : Bytes) :
  lexDependency word (':'.toUInt8 :: cur) = lexDependency (word ++ [':'.toUInt8]) cur
  := by
  rw [lexDependency, lexWord_stop (by decide) (by decide), bind_some, lexColons, lexDependency]
  cases lexWord (word ++ [':'.toUInt8]) cur <;> rfl

/-- A character that is neither part of a word nor a colon ends the word. -/
theorem lexDependency_stop
    (hc : ¬ isWordChar c) (hdollar : c ≠ '$'.toUInt8) (hcolon : c ≠ ':'.toUInt8)
    (word cur : Bytes) :
  lexDependency word (c :: cur) = some (word, c :: cur)
  := by
  rw [lexDependency, lexWord_stop hc hdollar, bind_some, lexColons, if_neg hcolon]

/-- An escaped word is read as the word of a dependency, with all its colons. -/
theorem lexDependency_escapeWord (htext : ∀ c ∈ text, c ∉ ascii "\x00\t\r\n") (word cur : Bytes) :
  lexDependency word (escapeWord text ++ cur) = lexDependency (word ++ text) cur
  := by
  induction text generalizing word with
  | nil => rw [append_nil]; rfl
  | cons c text ih =>
    have hrest := ih (fun b hb => htext b (mem_cons_of_mem c hb)) (word ++ [c])
    rw [append_assoc, singleton_append] at hrest
    rw [← hrest, escapeWord, flatMap_cons, append_assoc, ← escapeWord]
    by_cases hcolon : c = ':'.toUInt8
    · subst hcolon
      apply lexDependency_colon
    · rw [lexDependency, lexWord_escapeChar (htext c mem_cons_self) hcolon, ← lexDependency]

theorem skipNonNewlineWhitespace_space :
  skipNonNewlineWhitespace (' '.toUInt8 :: cur) = skipNonNewlineWhitespace cur
  := by
  rw [skipNonNewlineWhitespace.eq_def]
  apply if_pos
  decide

theorem skipNonNewlineWhitespace_stop
    (hblank : c ∉ ascii " \t\r") (hescape : c ≠ '\\'.toUInt8) (cur : Bytes) :
  skipNonNewlineWhitespace (c :: cur) = c :: cur
  := by
  rw [skipNonNewlineWhitespace.eq_def]
  simp only [if_neg hblank, if_neg hescape]

/-- A backslash is not skipped unless it continues the line. -/
theorem skipNonNewlineWhitespace_escape
    (hnewline : c ≠ '\n'.toUInt8) (hreturn : c ≠ '\r'.toUInt8) (cur : Bytes) :
  skipNonNewlineWhitespace ('\\'.toUInt8 :: c :: cur) = '\\'.toUInt8 :: c :: cur
  := by
  have hblank : '\\'.toUInt8 ∉ ascii " \t\r" := by decide
  rw [skipNonNewlineWhitespace.eq_def]
  simp only [if_neg hblank, if_true, if_neg hnewline, if_neg hreturn]

/-- No blank is skipped where a word starts. -/
theorem skipNonNewlineWhitespace_escapeWord (htext : IsWord text) (cur : Bytes) :
  skipNonNewlineWhitespace (escapeWord text ++ cur) = escapeWord text ++ cur
  := by
  cases text with
  | nil => exact absurd rfl htext.ne_nil
  | cons c text =>
    have hc := htext.chars c mem_cons_self
    rw [escapeWord, flatMap_cons, escapeChar]
    split_ifs with hspecial hdollar
    · -- The backslash is not followed by the end of a line.
      have hnewline : c ≠ '\n'.toUInt8 := by
        rintro rfl
        apply hc
        decide
      have hreturn : c ≠ '\r'.toUInt8 := by
        rintro rfl
        apply hc
        decide
      apply skipNonNewlineWhitespace_escape hnewline hreturn
    · subst hdollar
      apply skipNonNewlineWhitespace_stop <;> decide
    · have hblank : c ∉ ascii " \t\r" := by
        simp only [ascii] at hc hspecial ⊢
        grind
      have hescape : c ≠ '\\'.toUInt8 := by
        rintro rfl
        apply hspecial
        decide
      apply skipNonNewlineWhitespace_stop hblank hescape

/-- No blank and no comment is skipped where a word starts. -/
theorem skipWhitespaceAndComments_escapeWord (htext : IsWord text) (cur : Bytes) :
  skipWhitespaceAndComments false (escapeWord text ++ cur) = escapeWord text ++ cur
  := by
  cases text with
  | nil => exact absurd rfl htext.ne_nil
  | cons c text =>
    have hc := htext.chars c mem_cons_self
    rw [escapeWord, flatMap_cons, append_assoc, escapeChar]
    split_ifs with hspecial hdollar
    · rw [cons_append, skipWhitespaceAndComments, if_neg (by decide), if_neg (by decide)]
    · subst hdollar
      rw [cons_append, skipWhitespaceAndComments, if_neg (by decide), if_neg (by decide)]
    · have hblank : c ∉ ascii " \t\n\r" := by
        simp only [ascii] at hc hspecial ⊢
        grind
      have hcomment : c ≠ '#'.toUInt8 := by
        rintro rfl
        apply hspecial
        decide
      rw [singleton_append, skipWhitespaceAndComments, if_neg hcomment, if_neg hblank]

/-! ### Reading a line back -/

theorem textBetween_append (text cur : Bytes) :
  textBetween (text ++ cur) cur = text
  := by
  rw [textBetween, length_append, Nat.add_sub_cancel, take_left]

theorem parseDependencies_space (hne : cur ≠ []) :
  parseDependencies size (' '.toUInt8 :: cur) = parseDependencies size cur
  := by
  rw [parseDependencies, parseDependencies.eq_def size cur, if_neg (cons_ne_nil _ _),
    if_neg hne, skipNonNewlineWhitespace_space]

theorem parseDependencies_newline :
  parseDependencies size ('\n'.toUInt8 :: cur) = some ([], '\n'.toUInt8 :: cur)
  := by
  have hskip : skipNonNewlineWhitespace ('\n'.toUInt8 :: cur) = '\n'.toUInt8 :: cur := by
    apply skipNonNewlineWhitespace_stop <;> decide
  rw [parseDependencies, if_neg (cons_ne_nil _ _)]
  simp only [hskip, head?_cons, or_true, if_true]

/-- A written dependency is reported, when a space or the end of the line follows. -/
theorem parseDependencies_escapeWord
    (hword : IsWord word) (hcolon : word.head? ≠ some ':'.toUInt8)
    (hc : c ∈ ascii " \n") (cur : Bytes) :
  parseDependencies size (escapeWord word ++ c :: cur)
    = (parseDependencies size (c :: cur)).map fun parsed =>
        (.actOnRuleDependency (escapeWord word) word :: parsed.1, parsed.2)
  := by
  have hend : ¬ isWordChar c ∧ c ≠ '$'.toUInt8 ∧ c ≠ ':'.toUInt8 := by
    revert c
    decide +kernel
  have hread : lexDependency [] (escapeWord word ++ c :: cur) = some (word, c :: cur) := by
    rw [lexDependency_escapeWord hword.chars, nil_append,
      lexDependency_stop hend.1 hend.2.1 hend.2.2]
  obtain ⟨⟨lexed, stop⟩, hlexed, hcolons⟩ := bind_eq_some_iff.mp hread
  have hskip := skipNonNewlineWhitespace_escapeWord hword (c :: cur)
  obtain ⟨b, text, rfl⟩ := exists_cons_of_ne_nil hword.ne_nil
  have hb : b ≠ ':'.toUInt8 := by
    rintro rfl
    apply hcolon
    rfl
  -- The scanner has moved, so the text at the position is not the end of a line either.
  have hmoved : stop.length < (escapeWord (b :: text) ++ c :: cur).length := by
    rw [escapeWord, flatMap_cons, append_assoc] at hlexed ⊢
    apply length_lt_of_lexWord_escapeChar (hword.chars b mem_cons_self) hb hlexed
  have hline : (escapeWord (b :: text) ++ c :: cur).head? ≠ some '\n'.toUInt8 := by
    intro hhead
    obtain ⟨tail, htail⟩ := head?_eq_some_iff.mp hhead
    rw [htail, lexWord_stop (by decide) (by decide)] at hlexed
    cases hlexed
    rw [htail] at hmoved
    apply lt_irrefl _ hmoved
  have hne : escapeWord (b :: text) ++ c :: cur ≠ [] := by simp
  rw [parseDependencies, if_neg hne]
  simp only [hskip, if_neg (not_or.mpr ⟨hne, hline⟩)]
  split
  next h => rw [hskip, hlexed] at h; cases h
  next lexed' stop' h =>
    rw [hskip] at h
    rw [h] at hlexed
    cases hlexed
    rw [if_neg (ne_of_lt hmoved)]
    split
    next h => rw [h] at hcolons; cases hcolons
    next word' stop' h =>
      rw [h] at hcolons
      cases hcolons
      rw [textBetween_append]

/-- The dependencies of a written line are reported in their order. -/
theorem parseDependencies_write
    {words : List Bytes} (hwords : ∀ word ∈ words, IsWord word)
    (hcolon : ∀ word ∈ words, word.head? ≠ some ':'.toUInt8) (cur : Bytes) :
  parseDependencies size
      (intercalate [' '.toUInt8] (words.map escapeWord) ++ '\n'.toUInt8 :: cur)
    = some (words.map (fun word => .actOnRuleDependency (escapeWord word) word),
        '\n'.toUInt8 :: cur)
  := by
  induction words with
  | nil => apply parseDependencies_newline
  | cons word words ih =>
    have hword := hwords word mem_cons_self
    have hstart := hcolon word mem_cons_self
    have hrest := ih (fun w hw => hwords w (mem_cons_of_mem word hw))
      (fun w hw => hcolon w (mem_cons_of_mem word hw))
    cases words with
    | nil =>
      rw [map_singleton, intercalate_singleton,
        parseDependencies_escapeWord size hword hstart (by decide), parseDependencies_newline]
      rfl
    | cons next words =>
      rw [map_cons, map_cons, intercalate_cons_cons, append_assoc, append_assoc, singleton_append,
        parseDependencies_escapeWord size hword hstart (by decide),
        parseDependencies_space size (by simp), ← map_cons, hrest]
      rfl

/-- Any number of spaces before the dependencies is skipped. -/
theorem parseDependencies_replicate (size spaces : ℕ) (hne : cur ≠ []) :
  parseDependencies size (replicate spaces ' '.toUInt8 ++ cur)
    = parseDependencies size cur
  := by
  induction spaces with
  | zero => rfl
  | succ spaces ih =>
    rw [replicate_succ, cons_append, parseDependencies_space size (by simp [hne]), ih]

theorem parseFrom_newline (size : ℕ) (cur : Bytes) :
  parseFrom ignoreSubsequentOutputs size ('\n'.toUInt8 :: cur)
    = parseFrom ignoreSubsequentOutputs size cur
  := by
  have hskip : skipWhitespaceAndComments false ('\n'.toUInt8 :: cur)
      = skipWhitespaceAndComments false cur := by
    rw [skipWhitespaceAndComments, if_neg (by decide), if_pos (by decide)]
  rw [parseFrom, parseFrom.eq_def _ _ cur, hskip]

/-- The line of a rule is reported as the rule. -/
theorem parseFrom_writeRule
    (size spaces : ℕ) {rule : Rule} (hrule : rule.IsWritable) (cur : Bytes) :
  parseFrom false size (writeRule spaces rule ++ cur)
    = (parseFrom false size cur).map (rule.actions ++ ·)
  := by
  have hline : writeRule spaces rule ++ cur = escapeWord rule.target ++ ':'.toUInt8
      :: (replicate spaces ' '.toUInt8
        ++ (intercalate [' '.toUInt8] (rule.dependencies.map escapeWord)
          ++ '\n'.toUInt8 :: cur)) := by
    simp [writeRule]
  have hdependencies := parseDependencies_write size hrule.dependencies
    hrule.dependencies_colon cur
  rw [← parseDependencies_replicate size spaces (by simp)] at hdependencies
  rw [hline]
  generalize replicate spaces ' '.toUInt8 ++ _ = dependencies at hdependencies ⊢
  have hlexed : lexWord [] (escapeWord rule.target ++ ':'.toUInt8 :: dependencies)
      = some (rule.target, ':'.toUInt8 :: dependencies) := by
    rw [lexWord_escapeWord hrule.target.chars hrule.target_colon, nil_append,
      lexWord_stop (by decide) (by decide)]
  have hcolon : skipNonNewlineWhitespace (':'.toUInt8 :: dependencies)
      = ':'.toUInt8 :: dependencies := by
    apply skipNonNewlineWhitespace_stop <;> decide
  have hskip := skipWhitespaceAndComments_escapeWord hrule.target
    (':'.toUInt8 :: dependencies)
  have htarget : escapeWord rule.target ≠ [] := by
    obtain ⟨c, text, htext⟩ := exists_cons_of_ne_nil hrule.target.ne_nil
    rw [htext, escapeWord, flatMap_cons, escapeChar]
    split_ifs <;> simp
  have hmoved : (':'.toUInt8 :: dependencies).length
      ≠ (escapeWord rule.target ++ ':'.toUInt8 :: dependencies).length := by
    have hpos := length_pos_of_ne_nil htarget
    rw [length_append]
    omega
  have hne : escapeWord rule.target ++ ':'.toUInt8 :: dependencies ≠ [] := by simp
  rw [parseFrom]
  simp only [hskip, if_neg hne]
  split
  next h => rw [hskip, hlexed] at h; cases h
  next word stop h =>
    rw [hskip, hlexed] at h
    cases h
    rw [if_neg hmoved]
    simp only [hcolon, head?_cons, ne_eq, not_true_eq_false, if_false]
    split
    next h => rw [hcolon, tail_cons, hdependencies] at h; cases h
    next actions rest h =>
      rw [hcolon, tail_cons, hdependencies] at h
      cases h
      rw [textBetween_append, parseFrom_newline]
      simp [Rule.actions]

/-- What is written for a list of rules is parsed without errors, and the rules are
reported, each with its dependencies in their order. -/
theorem parse_write (rules : List Rule) (hrules : ∀ rule ∈ rules, rule.IsWritable) :
  parse (write spaces rules) false = some (rules.flatMap Rule.actions)
  := by
  rw [parse]
  generalize (write spaces rules).length = size
  induction rules with
  | nil => rw [write, parseFrom]; rfl
  | cons rule rules ih =>
    rw [write, flatMap_cons, parseFrom_writeRule size spaces (hrules rule mem_cons_self),
      ← write, ih (fun r hr => hrules r (mem_cons_of_mem rule hr))]
    rfl

/-- The rule whose target is `a b` and whose dependencies are `c:d`, `$x` and `#\`. -/
theorem parse_write_escaped :
  parse (write 1 [⟨ascii "a b", [ascii "c:d", ascii "$x", ascii "#\\"]⟩]) false
    = some (Rule.actions ⟨ascii "a b", [ascii "c:d", ascii "$x", ascii "#\\"]⟩)
  := by
  have hwritable : Rule.IsWritable ⟨ascii "a b", [ascii "c:d", ascii "$x", ascii "#\\"]⟩ := by
    constructor
    · constructor <;> decide +kernel
    · decide
    · intro word hword
      constructor <;> revert word <;> decide +kernel
    · decide
  have hparse := parse_write 1 [⟨ascii "a b", [ascii "c:d", ascii "$x", ascii "#\\"]⟩]
    (by simpa using hwritable)
  rw [hparse, flatMap_singleton]

end MakefileDepsParser

end LLBuild

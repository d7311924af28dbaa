import LLBuild.Basic.Buffer
import LLBuild.Core.MakefileDepsEscapes

/-!
# The cursor of the parser of makefile dependencies

The functions of the parser share a cursor into the buffer, and look at the bytes at the
cursor and behind it.  Here every read and every move of the cursor is checked against the
bounds of the buffer, and a report says where in the buffer a name stands.

The functions refine those on the bytes still to be read: they report the same and end at the
same place, unless a backslash is the last byte of a word, behind which the one reads and the
other has no result.
-/

namespace LLBuild

open List

open BinaryCoding Buffer

namespace MakefileDepsParser

namespace Cursor

/-- What the parser reports.  Of a name in the buffer, the start and the end are given. -/
inductive Event
  | error (message : String) (position : ℕ)
  | actOnRuleStart (start stop : ℕ) (unescapedWord : Bytes)
  | actOnRuleDependency (start stop : ℕ) (unescapedWord : Bytes)
  | actOnRuleEnd
  deriving DecidableEq

/-- A report with the texts of the names. -/
def Event.toAction (data : Bytes) : Event → Action
  | .error message position => .error message position
  | .actOnRuleStart start stop word => .actOnRuleStart (slice data start stop) word
  | .actOnRuleDependency start stop word => .actOnRuleDependency (slice data start stop) word
  | .actOnRuleEnd => .actOnRuleEnd

/-- What a part of the parser has reported, and where the cursor is afterwards. -/
abbrev Run : Type := List Event × Except Fault ℕ

/-- Go on with a result, unless there was a fault. -/
def Run.bind {α : Type} (result : Except Fault α) (next : α → Run) : Run :=
  match result with
  | .error fault => ([], .error fault)
  | .ok a => next a

/-- Report something first. -/
def Run.report (events : List Event) (run : Run) : Run := (events ++ run.1, run.2)

variable (data : Bytes)

/-! ### The scanners -/

/-- Skip the rest of a comment, up to the byte before the newline. -/
def skipComment : (steps : ℕ) → (cur : ℕ) → Except Fault ℕ
  | 0, _ => .error .unterminated
  | steps + 1, cur =>
    if cur + 1 = data.length then return cur
    else do
      let c ← read data (cur + 1)
      if c = '\n'.toUInt8 then return cur
      else skipComment steps (← advance data cur 1)

def skipWhitespaceAndComments : (steps : ℕ) → (cur : ℕ) → Except Fault ℕ
  | 0, _ => .error .unterminated
  | steps + 1, cur =>
    if cur = data.length then return cur
    else do
      let c ← read data cur
      if c = '#'.toUInt8 then
        let cur ← skipComment data (data.length + 1) cur
        skipWhitespaceAndComments steps (← advance data cur 1)
      else if c ∈ ascii " \t\n\r" then skipWhitespaceAndComments steps (← advance data cur 1)
      else return cur

variable (cur : ℕ)

/-- Whether a newline follows the byte at the cursor. -/
def isBeforeNewline : Except Fault Bool :=
  if cur + 1 = data.length then return false
  else do
    let c ← read data (cur + 1)
    return c = '\n'.toUInt8

/-- Whether a newline of two bytes follows the byte at the cursor. -/
def isBeforeLongNewline : Except Fault Bool :=
  if data.length ≤ cur + 2 then return false
  else do
    let c ← read data (cur + 1)
    if c ≠ '\r'.toUInt8 then return false
    else
      let d ← read data (cur + 2)
      return d = '\n'.toUInt8

def skipNonNewlineWhitespace : (steps : ℕ) → (cur : ℕ) → Except Fault ℕ
  | 0, _ => .error .unterminated
  | steps + 1, cur =>
    if cur = data.length then return cur
    else do
      let c ← read data cur
      if c ∈ ascii " \t\r" then skipNonNewlineWhitespace steps (← advance data cur 1)
      else if c ≠ '\\'.toUInt8 then return cur
      else if ← isBeforeNewline data cur then
        skipNonNewlineWhitespace steps (← advance data cur 2)
      else if ← isBeforeLongNewline data cur then
        skipNonNewlineWhitespace steps (← advance data cur 3)
      else return cur

def skipToEndOfLine : (steps : ℕ) → (cur : ℕ) → Except Fault ℕ
  | 0, _ => .error .unterminated
  | steps + 1, cur =>
    if cur = data.length then return cur
    else do
      let c ← read data cur
      if c = '\n'.toUInt8 then advance data cur 1
      else skipToEndOfLine steps (← advance data cur 1)

/-- Whether `c`, the byte at the cursor, is the first of two dollar signs. -/
def isDoubleDollar (c : UInt8) (cur : ℕ) : Except Fault Bool :=
  if c ≠ '$'.toUInt8 ∨ cur + 1 = data.length then return false
  else do
    let d ← read data (cur + 1)
    return d = '$'.toUInt8

def lexWord : (steps : ℕ) → (unescapedWord : Bytes) → (cur : ℕ) → Except Fault (Bytes × ℕ)
  | 0, _, _ => .error .unterminated
  | steps + 1, word, cur =>
    if cur = data.length then return (word, cur)
    else do
      let c ← read data cur
      if c = '\\'.toUInt8 then
        -- A line continuation ends the word.
        if ← isBeforeNewline data cur then return (word, cur)
        else
          let cur ← advance data cur 1
          let c ← read data cur
          lexWord steps (word ++ unescape c) (← advance data cur 1)
      else if ← isDoubleDollar data c cur then
        lexWord steps (word ++ [c]) (← advance data cur 2)
      else if ¬ isWordChar c then return (word, cur)
      else lexWord steps (word ++ [c]) (← advance data cur 1)

/-- Read on while the word of a dependency has stopped at a colon. -/
def lexColons : (steps : ℕ) → (unescapedWord : Bytes) → (cur : ℕ) → Except Fault (Bytes × ℕ)
  | 0, _, _ => .error .unterminated
  | steps + 1, word, cur =>
    if cur = data.length then return (word, cur)
    else do
      let c ← read data cur
      if c = ':'.toUInt8 then
        let (word, cur) ← lexWord data (data.length + 1) (word ++ [c]) (← advance data cur 1)
        lexColons steps word cur
      else return (word, cur)

/-! ### The parser -/

/-- Whether the cursor is at the given byte. -/
def isAt (byte : UInt8) : Except Fault Bool :=
  if cur = data.length then return false
  else do
    let c ← read data cur
    return c = byte

/-- Consume dependency words up to the end of the line. -/
def parseDependencies : (steps : ℕ) → (cur : ℕ) → Run
  | 0, _ => ([], .error .unterminated)
  | steps + 1, cur =>
    if cur = data.length then ([], .ok cur)
    else
      Run.bind (skipNonNewlineWhitespace data (data.length + 1) cur) fun wordStart =>
      Run.bind (isAt data wordStart '\n'.toUInt8) fun isNewline =>
      if wordStart = data.length ∨ isNewline then ([], .ok wordStart)
      else
        Run.bind (lexWord data (data.length + 1) [] wordStart) fun (word, cur) =>
        if cur = wordStart then
          Run.report [.error "unexpected character in prerequisites" cur]
            (Run.bind (skipToEndOfLine data (data.length + 1) cur) fun cur =>
              parseDependencies steps cur)
        else
          Run.bind (lexColons data (data.length + 1) word cur) fun (word, cur) =>
          Run.report [.actOnRuleDependency wordStart cur word] (parseDependencies steps cur)

/-- Parse from the cursor on. -/
def parseFrom (ignoreSubsequentOutputs : Bool) : (steps : ℕ) → (cur : ℕ) → Run
  | 0, _ => ([], .error .unterminated)
  | steps + 1, cur =>
    if cur = data.length then ([], .ok cur)
    else
      Run.bind (skipWhitespaceAndComments data (data.length + 1) cur) fun wordStart =>
      if wordStart = data.length then ([], .ok wordStart)
      else
        Run.bind (lexWord data (data.length + 1) [] wordStart) fun (word, cur) =>
        if cur = wordStart then
          Run.report [.error "unexpected character in file" cur]
            (Run.bind (skipToEndOfLine data (data.length + 1) cur) fun cur =>
              parseFrom ignoreSubsequentOutputs steps cur)
        else
          Run.report [.actOnRuleStart wordStart cur word]
            (Run.bind (skipNonNewlineWhitespace data (data.length + 1) cur) fun cur =>
            Run.bind (isAt data cur ':'.toUInt8) fun isColon =>
            if ¬ isColon then
              Run.report [.error "missing ':' following rule" cur, .actOnRuleEnd]
                (Run.bind (skipToEndOfLine data (data.length + 1) cur) fun cur =>
                  parseFrom ignoreSubsequentOutputs steps cur)
            else
              Run.bind (advance data cur 1) fun cur =>
              let deps := parseDependencies data (data.length + 1) cur
              Run.report deps.1
                (Run.bind deps.2 fun cur =>
                  Run.report [.actOnRuleEnd]
                    (if ignoreSubsequentOutputs then ([], .ok cur)
                    else parseFrom ignoreSubsequentOutputs steps cur)))

/-- Parse a buffer. -/
def parse (ignoreSubsequentOutputs : Bool) : Run :=
  parseFrom data ignoreSubsequentOutputs (data.length + 1) 0

/-! ### The scanners refine those on lists -/

variable {data} {cur : ℕ} {rest : Bytes} {c : UInt8} {steps : ℕ}

theorem skipComment_at (h : At data cur (c :: rest)) (hsteps : rest.length < steps) :
  ∃ cur', skipComment data steps cur = .ok cur' ∧ cur' < data.length
    ∧ At data (cur' + 1) (rest.dropWhile (· ≠ '\n'.toUInt8))
  := by
  induction steps generalizing c cur rest with
  | zero => cases hsteps
  | succ steps ih =>
    rw [skipComment]
    cases rest with
    | nil =>
      rw [if_pos (h.tail.eq_length_iff.mpr rfl)]
      exact ⟨cur, rfl, h.lt_length, h.tail⟩
    | cons d rest =>
      rw [if_neg h.tail.lt_length.ne, h.tail.read_eq]
      simp only [bind, Except.bind]
      split_ifs with hd
      · refine ⟨cur, rfl, h.lt_length, ?_⟩
        rw [dropWhile_cons_of_neg (by simpa using hd)]
        exact h.tail
      · rw [h.advance_eq, dropWhile_cons_of_pos (by simpa using hd)]
        exact ih h.tail (Nat.lt_of_succ_lt_succ hsteps)

/-- A comment ends before its newline, which is blank. -/
theorem skipWhitespaceAndComments_true (rest : Bytes) :
  MakefileDepsParser.skipWhitespaceAndComments true rest
    = MakefileDepsParser.skipWhitespaceAndComments false (rest.dropWhile (· ≠ '\n'.toUInt8))
  := by
  induction rest with
  | nil => rfl
  | cons c rest ih =>
    rw [MakefileDepsParser.skipWhitespaceAndComments]
    split_ifs with hc
    · rw [hc]
      rfl
    · rw [dropWhile_cons_of_pos (by simpa using hc), ih]

theorem skipWhitespaceAndComments_at (h : At data cur rest) (hsteps : rest.length < steps) :
  ∃ cur', skipWhitespaceAndComments data steps cur = .ok cur'
    ∧ At data cur' (MakefileDepsParser.skipWhitespaceAndComments false rest)
  := by
  induction steps generalizing cur rest with
  | zero => cases hsteps
  | succ steps ih =>
    rw [skipWhitespaceAndComments]
    cases rest with
    | nil =>
      rw [if_pos (h.eq_length_iff.mpr rfl)]
      exact ⟨cur, rfl, h⟩
    | cons c rest =>
      rw [length_cons] at hsteps
      rw [if_neg h.lt_length.ne, h.read_eq, MakefileDepsParser.skipWhitespaceAndComments]
      simp only [bind, Except.bind]
      split_ifs
      · have hlength := h.tail.add_length
        obtain ⟨stop, hstop, hlt, hat⟩ := skipComment_at h
          (show rest.length < data.length + 1 by omega)
        have hle := (dropWhile_sublist (· ≠ '\n'.toUInt8) (l := rest)).length_le
        rw [hstop, skipWhitespaceAndComments_true]
        simp only [advance, Nat.succ_le_of_lt hlt]
        exact ih hat (by omega)
      · rw [h.advance_eq]
        exact ih h.tail (Nat.lt_of_succ_lt_succ hsteps)
      · exact ⟨cur, rfl, h⟩

theorem skipToEndOfLine_at (h : At data cur rest) (hsteps : rest.length < steps) :
  ∃ cur', skipToEndOfLine data steps cur = .ok cur'
    ∧ At data cur' (MakefileDepsParser.skipToEndOfLine rest)
  := by
  induction steps generalizing cur rest with
  | zero => cases hsteps
  | succ steps ih =>
    rw [skipToEndOfLine]
    cases rest with
    | nil =>
      rw [if_pos (h.eq_length_iff.mpr rfl)]
      exact ⟨cur, rfl, h⟩
    | cons c rest =>
      rw [if_neg h.lt_length.ne, h.read_eq, MakefileDepsParser.skipToEndOfLine]
      simp only [bind, Except.bind, h.advance_eq]
      split_ifs
      · exact ⟨cur + 1, rfl, h.tail⟩
      · exact ih h.tail (Nat.lt_of_succ_lt_succ hsteps)

theorem isBeforeNewline_at (h : At data cur (c :: rest)) :
  isBeforeNewline data cur = .ok (rest.head? = some '\n'.toUInt8)
  := by
  rw [isBeforeNewline]
  cases rest with
  | nil =>
    rw [if_pos (h.tail.eq_length_iff.mpr rfl)]
    rfl
  | cons d rest =>
    rw [if_neg h.tail.lt_length.ne, h.tail.read_eq]
    simp [bind, Except.bind, pure, Except.pure]

theorem isBeforeLongNewline_at (h : At data cur (c :: rest)) :
  isBeforeLongNewline data cur = .ok (rest.take 2 = ascii "\r\n")
  := by
  rw [isBeforeLongNewline]
  have hlength := h.add_length
  match rest with
  | [] =>
    rw [if_pos (by simp only [length_cons, length_nil] at hlength; omega)]
    rfl
  | [d] =>
    rw [if_pos (by simp only [length_cons, length_nil] at hlength; omega)]
    simp [pure, Except.pure, ascii]
  | d :: e :: rest =>
    rw [if_neg (by simp only [length_cons] at hlength; omega), h.tail.read_eq]
    simp only [bind, Except.bind, h.tail.tail.read_eq]
    by_cases hd : d = '\r'.toUInt8
    · simp [hd, pure, Except.pure, ascii]
    · simp [hd, pure, Except.pure, ascii]

/-- The scanner of blanks with its lookahead as conditions on what follows. -/
theorem skipNonNewlineWhitespace_cons (c : UInt8) (rest : Bytes) :
  MakefileDepsParser.skipNonNewlineWhitespace (c :: rest)
    = if c ∈ ascii " \t\r" then MakefileDepsParser.skipNonNewlineWhitespace rest
      else if c ≠ '\\'.toUInt8 then c :: rest
      else if rest.head? = some '\n'.toUInt8 then
        MakefileDepsParser.skipNonNewlineWhitespace (rest.drop 1)
      else if rest.take 2 = ascii "\r\n" then
        MakefileDepsParser.skipNonNewlineWhitespace (rest.drop 2)
      else c :: rest
  := by
  rw [MakefileDepsParser.skipNonNewlineWhitespace.eq_def]
  cases rest with
  | nil => simp [ascii]
  | cons d rest =>
    by_cases hd : d = '\n'.toUInt8
    · cases rest <;> simp [hd]
    · cases rest with
      | nil => simp [hd, ascii]
      | cons e rest =>
        by_cases hd' : d = '\r'.toUInt8
        · simp [hd', ascii]
        · simp [hd', ascii]

/-- The cursor moves on by several positions. -/
theorem advance_at {n : ℕ} (h : At data cur rest) (hn : n ≤ rest.length) :
  advance data cur n = .ok (cur + n) ∧ At data (cur + n) (rest.drop n)
  := by
  have hlength := h.add_length
  refine ⟨if_pos (by omega), by omega, ?_⟩
  rw [← h.drop, drop_drop]

theorem skipNonNewlineWhitespace_at (h : At data cur rest) (hsteps : rest.length < steps) :
  ∃ cur', skipNonNewlineWhitespace data steps cur = .ok cur'
    ∧ At data cur' (MakefileDepsParser.skipNonNewlineWhitespace rest)
  := by
  induction steps generalizing cur rest with
  | zero => cases hsteps
  | succ steps ih =>
    rw [skipNonNewlineWhitespace]
    cases rest with
    | nil =>
      rw [if_pos (h.eq_length_iff.mpr rfl)]
      exact ⟨cur, rfl, h⟩
    | cons c rest =>
      rw [length_cons] at hsteps
      rw [if_neg h.lt_length.ne, h.read_eq, skipNonNewlineWhitespace_cons]
      simp only [bind, Except.bind, isBeforeNewline_at h, isBeforeLongNewline_at h,
        decide_eq_true_eq]
      split_ifs with hblank hc hnewline hlong
      · rw [h.advance_eq]
        exact ih h.tail (Nat.lt_of_succ_lt_succ hsteps)
      · exact ⟨cur, rfl, h⟩
      · obtain ⟨tail, rfl⟩ := head?_eq_some_iff.mp hnewline
        obtain ⟨hadvance, hat⟩ := advance_at (n := 2) h (by simp)
        rw [hadvance]
        exact ih hat (by simp at hsteps ⊢; omega)
      · have hlen : 2 ≤ rest.length := by
          have htake := congrArg length hlong
          simp only [ascii] at htake
          simp at htake
          omega
        obtain ⟨hadvance, hat⟩ := advance_at (n := 3) h (by simp; omega)
        rw [hadvance]
        exact ih hat (by simp; omega)
      · exact ⟨cur, rfl, h⟩

theorem isDoubleDollar_at (h : At data cur (c :: rest)) :
  isDoubleDollar data c cur = .ok (c = '$'.toUInt8 ∧ rest.head? = some '$'.toUInt8)
  := by
  rw [isDoubleDollar]
  by_cases hc : c = '$'.toUInt8
  · cases rest with
    | nil =>
      rw [if_pos (Or.inr (h.tail.eq_length_iff.mpr rfl))]
      simp [pure, Except.pure]
    | cons d rest =>
      rw [if_neg (by simp [hc, h.tail.lt_length.ne]), h.tail.read_eq]
      simp [hc, bind, Except.bind, pure, Except.pure]
  · simp [hc, pure, Except.pure]

/-- A cursor and a word are what a scanner on lists has for a result, or the scanner has none
and the byte at the end was read. -/
def Matches (data : Bytes) (result : Except Fault (Bytes × ℕ)) : Option (Bytes × Bytes) → Prop
  | none => result = .error (.outOfBounds data.length)
  | some (word, rest) => ∃ cur, result = .ok (word, cur) ∧ At data cur rest

theorem lexWord_at (word : Bytes) (h : At data cur rest) (hsteps : rest.length < steps) :
  Matches data (lexWord data steps word cur) (MakefileDepsParser.lexWord word rest)
  := by
  induction steps generalizing word cur rest with
  | zero => cases hsteps
  | succ steps ih =>
    rw [lexWord]
    match rest with
    | [] =>
      rw [if_pos (h.eq_length_iff.mpr rfl)]
      exact ⟨cur, rfl, h⟩
    | [c] =>
      rw [if_neg h.lt_length.ne, h.read_eq, MakefileDepsParser.lexWord]
      simp only [bind, Except.bind, isBeforeNewline_at h, isDoubleDollar_at h, h.advance_eq,
        h.tail.read_nil]
      by_cases hc : c = '\\'.toUInt8
      · simp [hc, Matches]
      · rw [if_neg hc, if_neg hc]
        by_cases hword : isWordChar c
        · obtain ⟨steps, rfl⟩ := Nat.exists_eq_add_one_of_ne_zero
            (Nat.ne_zero_of_lt (Nat.lt_of_succ_lt_succ hsteps))
          simpa [hword, MakefileDepsParser.lexWord] using ih (word ++ [c]) h.tail
            (Nat.succ_pos _)
        · simpa [hword, Matches, pure, Except.pure] using h
    | c :: d :: rest =>
      rw [if_neg h.lt_length.ne, h.read_eq, MakefileDepsParser.lexWord]
      simp only [bind, Except.bind, isBeforeNewline_at h, isDoubleDollar_at h, h.advance_eq,
        h.tail.read_eq, h.tail.advance_eq, (advance_at (n := 2) h (by simp)).1,
        head?_cons, Option.some.injEq, decide_eq_true_eq]
      simp only [length_cons] at hsteps
      split_ifs with hc hd hdollar hword
      · exact ⟨cur, rfl, h⟩
      · exact ih _ h.tail.tail (by omega)
      · exact ih _ h.tail.tail (by omega)
      · exact ih _ h.tail (by simp only [length_cons]; omega)
      · exact ⟨cur, rfl, h⟩

theorem lexColons_at (word : Bytes) (h : At data cur rest) (hsteps : rest.length < steps) :
  Matches data (lexColons data steps word cur) (MakefileDepsParser.lexColons word rest)
  := by
  induction steps generalizing word cur rest with
  | zero => cases hsteps
  | succ steps ih =>
    rw [lexColons]
    cases rest with
    | nil =>
      rw [if_pos (h.eq_length_iff.mpr rfl), MakefileDepsParser.lexColons]
      exact ⟨cur, rfl, h⟩
    | cons c rest =>
      rw [if_neg h.lt_length.ne, h.read_eq, MakefileDepsParser.lexColons]
      simp only [bind, Except.bind, h.advance_eq]
      split_ifs with hc
      · have hlength := h.tail.add_length
        have hlex := lexWord_at (word ++ [c]) h.tail
          (show rest.length < data.length + 1 by omega)
        cases hlist : MakefileDepsParser.lexWord (word ++ [c]) rest with
        | none =>
          rw [hlist] at hlex
          rw [hlex]
          simp [Matches]
        | some stopped =>
          obtain ⟨word', rest'⟩ := stopped
          rw [hlist] at hlex
          obtain ⟨cur', hcur', hat⟩ := hlex
          rw [hcur']
          have hle := length_le_of_lexWord hlist
          rw [length_cons] at hsteps
          exact ih word' hat (by omega)
      · exact ⟨cur, rfl, h⟩

theorem isAt_at (h : At data cur rest) (byte : UInt8) :
  isAt data cur byte = .ok (rest.head? = some byte)
  := by
  rw [isAt]
  cases rest with
  | nil =>
    rw [if_pos (h.eq_length_iff.mpr rfl)]
    rfl
  | cons c rest =>
    rw [if_neg h.lt_length.ne, h.read_eq]
    simp [bind, Except.bind, pure, Except.pure]

/-! ### The parser refines the one on lists -/

/-- A run has reported what the parser on lists reports, and has come to a place in the
relation `R` to where that one is; or the parser on lists has no result, and the byte at the
end was read. -/
def Run.Matches {β : Type} (data : Bytes) (R : ℕ → β → Prop) (run : Run) :
    Option (List Action × β) → Prop
  | none => run.2 = .error (.outOfBounds data.length)
  | some (actions, b) =>
    run.1.map (Event.toAction data) = actions ∧ ∃ cur, run.2 = .ok cur ∧ R cur b

section

variable {β : Type} {R : ℕ → β → Prop}

/-- What is reported first on both sides. -/
theorem Run.Matches.report
    {run : Run} {parsed : Option (List Action × β)} (h : run.Matches data R parsed)
    (events : List Event) :
  (Run.report events run).Matches data R
    (parsed.map fun parsed => (events.map (Event.toAction data) ++ parsed.1, parsed.2))
  := by
  obtain - | ⟨actions, b⟩ := parsed
  · exact h
  · refine ⟨?_, h.2⟩
    rw [Run.report, map_append, h.1]

/-- What comes after a scanner on both sides. -/
theorem Matches.bind
    {result : Except Fault (Bytes × ℕ)} {lexed : Option (Bytes × Bytes)}
    {next : Bytes × ℕ → Run} {f : Bytes × Bytes → Option (List Action × β)}
    (h : Matches data result lexed)
    (hnext : ∀ word cur rest, lexed = some (word, rest) → At data cur rest →
      (next (word, cur)).Matches data R (f (word, rest))) :
  (Run.bind result next).Matches data R (lexed.bind f)
  := by
  obtain - | ⟨word, rest⟩ := lexed
  · rw [show result = _ from h]
    rfl
  · obtain ⟨cur, rfl, hat⟩ := h
    exact hnext word cur rest rfl hat

/-- What comes after a part of the parser on both sides. -/
theorem Run.Matches.bind
    {run : Run} {parsed : Option (List Action × Bytes)} {next : ℕ → Run}
    {f : Bytes → Option (List Action × β)}
    (h : run.Matches data (At data) parsed)
    (hnext : ∀ actions cur rest, parsed = some (actions, rest) → At data cur rest →
      (next cur).Matches data R (f rest)) :
  (Run.report run.1 (Run.bind run.2 next)).Matches data R
    (parsed.bind fun parsed => (f parsed.2).map fun more => (parsed.1 ++ more.1, more.2))
  := by
  obtain ⟨events, result⟩ := run
  obtain - | ⟨actions, rest⟩ := parsed
  · rw [show result = _ from h]
    rfl
  · obtain ⟨rfl, cur, rfl, hat⟩ := h
    exact (hnext _ cur rest rfl hat).report events

end

section

variable (h : At data cur rest)
include h

theorem slice_eq_textBetween {stop : ℕ} {rest' : Bytes} (h' : At data stop rest') :
  slice data cur stop = textBetween rest rest'
  := by
  have hlength := h.add_length
  have hlength' := h'.add_length
  rw [slice, h.drop]
  congr 1
  omega

theorem eq_iff_length {cur' : ℕ} {rest' : Bytes} (h' : At data cur' rest') :
  cur' = cur ↔ rest'.length = rest.length
  := by
  have hlength := h.add_length
  have hlength' := h'.add_length
  omega

/-- The position of an error on both sides. -/
theorem eq_sub_length :
  cur = data.length - rest.length
  := by
  have hlength := h.add_length
  omega

theorem length_lt_steps :
  rest.length < data.length + 1
  := by
  have hlength := h.add_length
  omega

theorem parseDependencies_at (hsteps : rest.length < steps) :
  (parseDependencies data steps cur).Matches data (At data)
    (MakefileDepsParser.parseDependencies data.length rest)
  := by
  induction steps generalizing cur rest with
  | zero => cases hsteps
  | succ steps ih =>
    rw [parseDependencies, parseDependencies_eq]
    by_cases hnil : rest = []
    · rw [if_pos (h.eq_length_iff.mpr hnil), if_pos hnil]
      exact ⟨rfl, cur, rfl, hnil ▸ h⟩
    rw [if_neg (h.eq_length_iff.not.mpr hnil)]
    obtain ⟨start, hstart, hat⟩ := skipNonNewlineWhitespace_at h (length_lt_steps h)
    have hskip := length_skipNonNewlineWhitespace_le rest
    rw [hstart, Run.bind, isAt_at hat, Run.bind]
    simp only [decide_eq_true_eq, hat.eq_length_iff]
    split_ifs with hend
    · exact ⟨rfl, start, rfl, hat⟩
    apply (lexWord_at [] hat (length_lt_steps hat)).bind
    intro word cur' rest' hlex hat'
    have hle := length_le_of_lexWord hlex
    simp only [eq_iff_length hat hat']
    split_ifs with hstop
    · obtain ⟨next, hnext, hatnext⟩ := skipToEndOfLine_at hat' (length_lt_steps hat')
      have hlt : (MakefileDepsParser.skipToEndOfLine rest').length < rest'.length := by
        apply length_skipToEndOfLine_lt
        intro hnil'
        rw [hnil'] at hstop
        exact hend (Or.inl (length_eq_zero_iff.mp hstop.symm))
      rw [hnext, ← eq_sub_length hat']
      exact (ih hatnext (by omega)).report [.error _ cur']
    · apply (lexColons_at word hat' (length_lt_steps hat')).bind
      intro word' stop rest'' hcolons hat''
      have hle' := length_le_of_lexColons hcolons
      rw [← slice_eq_textBetween hat hat'']
      exact (ih hat'' (by omega)).report [.actOnRuleDependency start stop word']

end

theorem parseFrom_at (ignore : Bool) (h : At data cur rest) (hsteps : rest.length < steps) :
  (parseFrom data ignore steps cur).Matches data (fun _ (_ : Unit) => True)
    ((MakefileDepsParser.parseFrom ignore data.length rest).map fun actions => (actions, ()))
  := by
  induction steps generalizing cur rest with
  | zero => cases hsteps
  | succ steps ih =>
    rw [parseFrom, parseFrom_eq]
    by_cases hnil : rest = []
    · rw [if_pos (h.eq_length_iff.mpr hnil), hnil]
      exact ⟨rfl, cur, rfl, trivial⟩
    rw [if_neg (h.eq_length_iff.not.mpr hnil)]
    obtain ⟨start, hstart, hat⟩ := skipWhitespaceAndComments_at h (length_lt_steps h)
    have hskip := length_skipWhitespaceAndComments_le false rest
    rw [hstart, Run.bind]
    simp only [hat.eq_length_iff]
    by_cases hend : MakefileDepsParser.skipWhitespaceAndComments false rest = []
    · rw [if_pos hend, if_pos hend]
      exact ⟨rfl, start, rfl, trivial⟩
    rw [if_neg hend, if_neg hend, Option.map_bind]
    apply (lexWord_at [] hat (length_lt_steps hat)).bind
    intro word cur' rest' hlex hat'
    have hle := length_le_of_lexWord hlex
    simp only [eq_iff_length hat hat', Function.comp_apply]
    by_cases hstop : rest'.length
        = (MakefileDepsParser.skipWhitespaceAndComments false rest).length
    · obtain ⟨next, hnext, hatnext⟩ := skipToEndOfLine_at hat' (length_lt_steps hat')
      have hlt : (MakefileDepsParser.skipToEndOfLine rest').length < rest'.length := by
        apply length_skipToEndOfLine_lt
        intro hnil'
        rw [hnil'] at hstop
        exact hend (length_eq_zero_iff.mp hstop.symm)
      have hih := (ih hatnext (by omega)).report [.error "unexpected character in file" cur']
      rw [if_pos hstop, if_pos hstop, hnext, ← eq_sub_length hat', Option.map_map]
      rwa [Option.map_map] at hih
    rw [if_neg hstop, if_neg hstop]
    obtain ⟨colon, hcolon, hat''⟩ := skipNonNewlineWhitespace_at hat' (length_lt_steps hat')
    have hblank := length_skipNonNewlineWhitespace_le rest'
    rw [hcolon, Run.bind, isAt_at hat'', Run.bind, ← slice_eq_textBetween hat hat']
    simp only [decide_eq_true_eq]
    by_cases hmissing :
        (MakefileDepsParser.skipNonNewlineWhitespace rest').head? ≠ some ':'.toUInt8
    · obtain ⟨next, hnext, hatnext⟩ := skipToEndOfLine_at hat'' (length_lt_steps hat'')
      have hline := length_skipToEndOfLine_le (MakefileDepsParser.skipNonNewlineWhitespace rest')
      have hih := ((ih hatnext (by omega)).report
        [.error "missing ':' following rule" colon, .actOnRuleEnd]).report
        [.actOnRuleStart start cur' word]
      rw [if_pos hmissing, if_pos hmissing, hnext, ← eq_sub_length hat'', Option.map_map]
      rwa [Option.map_map, Option.map_map] at hih
    rw [if_neg hmissing, if_neg hmissing]
    obtain ⟨tail, htail⟩ := head?_eq_some_iff.mp (not_not.mp hmissing)
    rw [htail] at hat'' hblank ⊢
    rw [hat''.advance_eq]
    have hnext : ∀ actions next rest'', MakefileDepsParser.parseDependencies data.length tail
          = some (actions, rest'') → At data next rest'' →
        (Run.report [.actOnRuleEnd] (if ignore then ([], .ok next)
          else parseFrom data ignore steps next)).Matches data (fun _ (_ : Unit) => True)
          ((if ignore then some [] else MakefileDepsParser.parseFrom ignore data.length rest'').map
            fun actions => (.actOnRuleEnd :: actions, ())) := by
      intro actions next rest'' hdeps hatnext
      have hle' := length_le_of_parseDependencies hdeps
      cases ignore with
      | true => exact ⟨rfl, next, rfl, trivial⟩
      | false =>
        have hih := (ih hatnext (by simp only [length_cons] at hblank; omega)).report
          [.actOnRuleEnd]
        rwa [Option.map_map] at hih
    have hdeps := ((parseDependencies_at hat''.tail (length_lt_steps hat''.tail)).bind
      hnext).report [.actOnRuleStart start cur' word]
    rw [Option.map_bind]
    rw [Option.map_bind] at hdeps
    simp only [Function.comp_def, Option.map_map] at hdeps ⊢
    exact hdeps

/-- The parser reports what the parser on lists reports, and comes to its end without a fault;
or the parser on lists has no result, and the byte at the end is read. -/
theorem parse_eq (data : Bytes) (ignoreSubsequentOutputs : Bool) :
  match MakefileDepsParser.parse data ignoreSubsequentOutputs with
  | none => (parse data ignoreSubsequentOutputs).2 = .error (.outOfBounds data.length)
  | some actions =>
    (parse data ignoreSubsequentOutputs).1.map (Event.toAction data) = actions
      ∧ ∃ cur, (parse data ignoreSubsequentOutputs).2 = .ok cur
  := by
  have h := parseFrom_at ignoreSubsequentOutputs (At.zero data) (Nat.lt_succ_self _)
  rw [MakefileDepsParser.parse]
  cases hlist : MakefileDepsParser.parseFrom ignoreSubsequentOutputs data.length data with
  | none =>
    rw [hlist] at h
    exact h
  | some actions =>
    rw [hlist] at h
    obtain ⟨hactions, cur, hcur, -⟩ := h
    exact ⟨hactions, cur, hcur⟩

/-! ### Every read is inside of the buffer -/

open Reading in
/-- **The parser does not leave the buffer.**  If and only if the byte behind the buffer is not
escaped, the parser comes to its end, every byte it reads is one of the buffer, and the cursor
does not move past the end. -/
theorem exists_parse_eq_iff (data : Bytes) (ignoreSubsequentOutputs : Bool) :
  (∃ cur, (parse data ignoreSubsequentOutputs).2 = .ok cur)
    ↔ escapesEnd ignoreSubsequentOutputs ⟨.between, .nothing⟩ data = false
  := by
  have h := parse_eq data ignoreSubsequentOutputs
  have hnone := parseFrom_eq_none_iff ignoreSubsequentOutputs data.length data
  rw [MakefileDepsParser.parse] at h
  cases hlist : MakefileDepsParser.parseFrom ignoreSubsequentOutputs data.length data with
  | none =>
    rw [hlist] at h
    rw [hnone.mp hlist]
    refine iff_of_false ?_ (by decide)
    rintro ⟨cur, hcur⟩
    cases h.symm.trans hcur
  | some actions =>
    rw [hlist] at h hnone
    refine iff_of_true h.2 (Bool.eq_false_iff.mpr fun hescapes => ?_)
    exact Option.some_ne_none _ (hnone.mpr hescapes)

/-- A backslash at the end of a target, or of a dependency, makes the parser read the byte
behind it. -/
theorem parse_trailing_backslash :
  (parse (ascii "a\\") false).2 = .error (.outOfBounds 2)
    ∧ (parse (ascii "a: b\\") false).2 = .error (.outOfBounds 5)
  := by decide

end Cursor

end MakefileDepsParser

end LLBuild

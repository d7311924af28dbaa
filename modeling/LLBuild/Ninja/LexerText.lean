import LLBuild.Ninja.Lexer

/-!
# The lexer on the text behind its position

`At data lexer.bufferPos rest` says that `rest` is what the lexer has not eaten yet.  What the
functions of the lexer do is stated here as a function of that text: which bytes are eaten, and
where the lexer is then.
-/

namespace LLBuild.Ninja.Lexer

open Nat

open List

open BinaryCoding Buffer

variable {data rest : Bytes} {lexer start : Lexer} {c : UInt8}

/-- The next character of a text. -/
def nextCode : Bytes → ℤ
  | [] => -1
  | c :: _ => c.toInt8.toInt

/-- The lexer after `n` characters of a line. -/
def forward (n : ℕ) (lexer : Lexer) : Lexer :=
  { lexer with
    bufferPos := lexer.bufferPos + n, columnNumber := lexer.columnNumber + UInt32.ofNat n }

/-- A byte that starts a newline. -/
def isNewline (c : UInt8) : Bool := c = '\n'.toUInt8 || c = '\r'.toUInt8

theorem forward_forward (m n : ℕ) (lexer : Lexer) :
  (lexer.forward m).forward n = lexer.forward (m + n)
  := by
  simp only [forward, Lexer.mk.injEq, and_true, true_and]
  refine ⟨add_assoc _ _ _, ?_⟩
  rw [UInt32.ofNat_add, UInt32.add_assoc]

theorem forward_zero (lexer : Lexer) :
  lexer.forward 0 = lexer
  := by
  rw [forward, add_zero, show UInt32.ofNat 0 = 0 from rfl, UInt32.add_zero]

/-! ### Characters and bytes -/

theorem ofInt_toInt (c : UInt8) :
  UInt8.ofInt c.toInt8.toInt = c
  := by
  apply UInt8.toNat_inj.mp
  have hbits : c.toInt8.toBitVec = c.toBitVec := rfl
  have hmod : (c.toBitVec.toNat : ℤ).bmod (2 ^ 8) % 2 ^ 8 = c.toNat % 2 ^ 8 := Int.bmod_emod
  have hlt := c.toNat_lt
  rw [UInt8.ofInt, UInt8.toNat_ofNat', Int8.toInt, hbits, BitVec.toInt_eq_toNat_bmod]
  omega

/-- Different bytes are different characters. -/
theorem toInt_eq_code_iff {ch : Char} (hch : code ch = ch.toUInt8.toInt8.toInt) :
  c.toInt8.toInt = code ch ↔ c = ch.toUInt8
  := by
  rw [hch, Int8.toInt_inj]
  constructor
  · intro h
    rw [← UInt8.toUInt8_toInt8 c, h, UInt8.toUInt8_toInt8]
  · rintro rfl
    rfl

theorem toInt_of_lt (h : c < 128) :
  c.toInt8.toInt = c.toNat
  := by
  have hbits : c.toInt8.toBitVec = c.toBitVec := rfl
  have hlt : c.toBitVec.toNat < 128 := h
  rw [Int8.toInt, hbits, BitVec.toInt_eq_toNat_of_lt (by omega)]
  rfl

theorem isIdentifierCode_toInt (c : UInt8) :
  isIdentifierCode c.toInt8.toInt = isIdentifierChar c
  := by rw [isIdentifierCode, ofInt_toInt]

theorem charAt_of_at (h : At data lexer.bufferPos rest) :
  charAt data lexer.bufferPos = nextCode rest
  := by
  rw [charAt, ← head?_drop, h.drop]
  cases rest <;> rfl

theorem peekNextChar_at (h : At data lexer.bufferPos rest) :
  peekNextChar data lexer = .ok (nextCode rest)
  := by rw [peekNextChar_eq h.le, charAt_of_at h]

theorem getNextChar_cons (h : At data lexer.bufferPos (c :: rest)) (hc : isNewline c = false) :
  getNextChar data lexer = .ok (c.toInt8.toInt, lexer.forward 1)
  := by
  have hne : ¬ (c = '\n'.toUInt8 ∨ c = '\r'.toUInt8) := by simpa [isNewline] using hc
  rw [getNextChar, if_neg h.lt_length.ne, h.read_eq, h.advance_eq]
  simp only [bind, Except.bind]
  rw [if_neg hne]
  rfl

/-! ### Words -/

/-- The characters of a word are eaten. -/
theorem consumeWhile_at {p : ℤ → Bool} {steps : ℕ} (hend : p (-1) = false)
    (hnewline : ∀ c, isNewline c → p c.toInt8.toInt = false)
    (h : At data lexer.bufferPos rest) (hsteps : rest.length < steps) :
  consumeWhile data p steps lexer
    = .ok (lexer.forward (rest.takeWhile fun c => p c.toInt8.toInt).length)
  := by
  induction steps generalizing lexer rest with
  | zero => cases hsteps
  | succ steps ih =>
    rw [consumeWhile, peekNextChar_at h]
    simp only [bind, Except.bind]
    cases rest with
    | nil =>
      rw [nextCode, hend, takeWhile_nil, length_nil, forward_zero]
      rfl
    | cons c rest =>
      rw [nextCode]
      cases hp : p c.toInt8.toInt with
      | true =>
        have hc : isNewline c = false := by
          by_contra hnew
          rw [hnewline c (Bool.of_not_eq_false hnew)] at hp
          cases hp
        have hnext : At data (lexer.forward 1).bufferPos rest := h.tail
        rw [if_pos rfl, getNextChar_cons h hc]
        dsimp only
        rw [ih hnext (lt_of_succ_lt_succ hsteps), forward_forward, takeWhile_cons,
          hp, if_pos rfl, length_cons, add_comm]
      | false =>
        rw [takeWhile_cons, hp]
        exact congrArg Except.ok (forward_zero lexer).symm

/-- A loop of the lexer has enough steps. -/
theorem length_lt_of_at (h : At data lexer.bufferPos rest) :
  rest.length < data.length + 1
  := by
  have hlength := h.add_length
  omega

/-! ### White space before a token -/

/-- A text starts neither with white space nor with an escaped newline. -/
structure Stops (text : Bytes) : Prop where
  space : isNonNewlineSpace (nextCode text) = false
  escape : nextCode text = code '$' → ∃ c rest, text = dollar :: c :: rest ∧ isNewline c = false

theorem isNewlineEscape_at
    {position : ℕ} (h : At data position (dollar :: c :: rest)) (hc : isNewline c = false) :
  isNewlineEscape data position = .ok false
  := by
  have hne : c ≠ '\n'.toUInt8 ∧ c ≠ '\r'.toUInt8 := by simpa [isNewline] using hc
  have hlt := h.tail.lt_length
  have hbefore : isBeforeNewline data position = .ok false := by
    rw [isBeforeNewline, if_pos (by omega), h.tail.read_eq]
    simp only [bind, Except.bind, pure, Except.pure, hne.1, decide_false]
  have hlong : isBeforeLongNewline data position = .ok false := by
    rw [isBeforeLongNewline, h.tail.read_eq]
    simp only [bind, Except.bind, if_neg hne.2, pure, Except.pure, ite_self]
  rw [isNewlineEscape, hbefore]
  exact hlong

theorem isNewline_of_isNonNewlineSpace (h : isNonNewlineSpace c.toInt8.toInt) :
  isNewline c = false
  := by
  by_contra hc
  rw [isNewline, Bool.not_eq_false, Bool.or_eq_true, decide_eq_true_eq, decide_eq_true_eq] at hc
  obtain rfl | rfl := hc
  · exact absurd h (by decide)
  · exact absurd h (by decide)

theorem skipSpaces_at
    {spaces text : Bytes} {steps : ℕ} (hspaces : ∀ c ∈ spaces, isNonNewlineSpace c.toInt8.toInt)
    (h : At data lexer.bufferPos (spaces ++ text)) (htext : Stops text)
    (hsteps : spaces.length < steps) :
  skipSpaces data steps (nextCode (spaces ++ text)) lexer
    = .ok (nextCode text, lexer.forward spaces.length)
  := by
  induction spaces generalizing lexer steps with
  | nil =>
    obtain ⟨steps, rfl⟩ := exists_eq_add_one.mpr (zero_lt_of_lt hsteps)
    rw [nil_append] at h ⊢
    rw [skipSpaces, length_nil, forward_zero, htext.space, if_neg Bool.false_ne_true]
    split_ifs with hdollar
    · obtain ⟨c, rest, rfl, hc⟩ := htext.escape hdollar.1
      rw [isNewlineEscape_at h hc]
      rfl
    · rfl
  | cons c spaces ih =>
    obtain ⟨steps, rfl⟩ := exists_eq_add_one.mpr (zero_lt_of_lt hsteps)
    obtain ⟨hc, hspaces⟩ := forall_mem_cons.mp hspaces
    have hnext : At data (lexer.forward 1).bufferPos (spaces ++ text) := h.tail
    have hdollar : ¬ (c.toInt8.toInt = code '$' ∧ lexer.columnNumber ≠ 0) := by
      rintro ⟨heq, -⟩
      rw [heq] at hc
      exact absurd hc (by decide)
    rw [cons_append, nextCode, skipSpaces, if_neg hdollar, if_pos hc]
    simp only [bind, Except.bind]
    rw [getNextChar_cons h (isNewline_of_isNonNewlineSpace hc)]
    dsimp only
    rw [peekNextChar_at hnext]
    dsimp only
    rw [ih hspaces hnext (lt_of_succ_lt_succ hsteps), forward_forward, length_cons, add_comm]

/-! ### Strings -/

variable {steps : ℕ}

theorem toInt_dollar : dollar.toInt8.toInt = code '$' := by decide

theorem lexPathString_plain (h : At data lexer.bufferPos (c :: rest)) (hdollar : c ≠ dollar)
    (hc : isPathEnd c.toInt8.toInt = false) (hnewline : isNewline c = false) :
  lexPathString data (steps + 1) lexer = lexPathString data steps (lexer.forward 1)
  := by
  have hne : ¬ c.toInt8.toInt = code '$' := mt (toInt_eq_code_iff rfl).mp hdollar
  rw [isPathEnd] at hc
  rw [lexPathString, peekNextChar_at h, nextCode]
  simp only [bind, Except.bind]
  rw [if_neg hne, hc, if_neg Bool.false_ne_true, getNextChar_cons h hnewline]

theorem lexPathString_escape (h : At data lexer.bufferPos (dollar :: c :: rest))
    (hnewline : isNewline c = false) :
  lexPathString data (steps + 1) lexer = lexPathString data steps (lexer.forward 2)
  := by
  have hne : ¬ c.toInt8.toInt = code '\n' := by
    rw [toInt_eq_code_iff rfl]
    rintro rfl
    exact absurd hnewline (by decide)
  have hnext : At data (lexer.forward 1).bufferPos (c :: rest) := h.tail
  rw [lexPathString, peekNextChar_at h, nextCode]
  simp only [bind, Except.bind]
  rw [getNextChar_cons h (by decide)]
  dsimp only
  rw [getNextChar_cons hnext hnewline, forward_forward]
  dsimp only
  rw [skipLeadingSpaces, if_neg hne]
  rfl

theorem lexPathString_end (h : At data lexer.bufferPos rest) (hrest : isPathEnd (nextCode rest)) :
  lexPathString data (steps + 1) lexer = .ok lexer
  := by
  have hne : ¬ nextCode rest = code '$' := by
    intro heq
    rw [heq] at hrest
    exact absurd hrest (by decide)
  rw [isPathEnd] at hrest
  rw [lexPathString, peekNextChar_at h]
  simp only [bind, Except.bind]
  rw [if_neg hne, if_pos hrest]
  rfl

theorem isLineEnd_eq (x : ℤ) :
  (decide (x = code '\n') || decide (x = -1) || decide (x = code '\r')) = !isInLine x
  := by rw [isInLine, Bool.not_not, Bool.or_comm (decide (x = -1))]

theorem lexVariableString_plain (h : At data lexer.bufferPos (c :: rest)) (hdollar : c ≠ dollar)
    (hc : isInLine c.toInt8.toInt) (hnewline : isNewline c = false) :
  lexVariableString data (steps + 1) lexer = lexVariableString data steps (lexer.forward 1)
  := by
  have hne : ¬ c.toInt8.toInt = code '$' := mt (toInt_eq_code_iff rfl).mp hdollar
  rw [lexVariableString, peekNextChar_at h, nextCode]
  simp only [bind, Except.bind]
  rw [if_neg hne, isLineEnd_eq, hc, if_neg (by decide), getNextChar_cons h hnewline]

theorem lexVariableString_escape (h : At data lexer.bufferPos (dollar :: c :: rest))
    (hnewline : isNewline c = false) :
  lexVariableString data (steps + 1) lexer = lexVariableString data steps (lexer.forward 2)
  := by
  have hnext : At data (lexer.forward 1).bufferPos (c :: rest) := h.tail
  rw [lexVariableString, peekNextChar_at h, nextCode]
  simp only [bind, Except.bind]
  rw [if_pos toInt_dollar, getNextChar_cons h (by decide)]
  dsimp only
  rw [getNextChar_cons hnext hnewline, forward_forward]

theorem lexVariableString_end (h : At data lexer.bufferPos rest)
    (hrest : isInLine (nextCode rest) = false) :
  lexVariableString data (steps + 1) lexer = .ok lexer
  := by
  have hne : ¬ nextCode rest = code '$' := by
    intro heq
    rw [heq] at hrest
    exact absurd hrest (by decide)
  rw [lexVariableString, peekNextChar_at h]
  simp only [bind, Except.bind]
  rw [if_neg hne, isLineEnd_eq, hrest]
  rfl

/-! ### Tokens -/

/-- White space before a token is skipped, unless the line starts with it. -/
theorem lex_at
    {spaces text : Bytes} (hspaces : ∀ c ∈ spaces, isNonNewlineSpace c.toInt8.toInt)
    (hcolumn : spaces = [] ∨ lexer.columnNumber ≠ 0)
    (h : At data lexer.bufferPos (spaces ++ text)) (htext : Stops text) :
  lex data lexer = lexBehind data (nextCode text) (lexer.forward spaces.length)
  := by
  have hindent : ¬ (isNonNewlineSpace (nextCode (spaces ++ text)) ∧ lexer.columnNumber = 0) := by
    rintro ⟨hspace, hzero⟩
    obtain rfl | hcolumn := hcolumn
    · rw [nil_append, htext.space] at hspace
      cases hspace
    · exact hcolumn hzero
  have hlength := length_lt_of_at h
  rw [length_append] at hlength
  rw [lex, peekNextChar_at h]
  simp only [bind, Except.bind]
  rw [if_neg hindent, skipSpaces_at hspaces h htext (by omega)]
  rfl

/-! ### Blanks before a token -/

/-- What is behind a newline, of one byte or two, at the start of a text. -/
def behindNewline : Bytes → Option Bytes
  | [] => none
  | [a] => if a = '\n'.toUInt8 then some [] else none
  | a :: b :: rest =>
    if a = '\n'.toUInt8 then some (if b = '\r'.toUInt8 then rest else b :: rest)
    else if a = '\r'.toUInt8 ∧ b = '\n'.toUInt8 then some rest
    else none

theorem length_behindNewline {text : Bytes} (h : behindNewline rest = some text) :
  text.length < rest.length
  := by
  match rest with
  | [] => cases h
  | [a] =>
    rw [behindNewline] at h
    split_ifs at h
    cases h
    exact Nat.one_pos
  | a :: b :: rest =>
    rw [behindNewline] at h
    split_ifs at h <;> cases h <;> simp only [length_cons] <;> omega

/-- The column and the text behind white space and escaped newlines.  In the first column a dollar
sign escapes nothing. -/
def afterBlanks (column : UInt32) : Bytes → UInt32 × Bytes
  | [] => (column, [])
  | c :: rest =>
    if c = dollar ∧ column ≠ 0 then
      match _h : behindNewline rest with
      | some text => afterBlanks 0 text
      | none => (column, c :: rest)
    else if isNonNewlineSpace c.toInt8.toInt then afterBlanks (column + 1) rest
    else (column, c :: rest)
  termination_by text => text.length
  decreasing_by
    · exact lt_succ_of_lt (length_behindNewline _h)
    · exact lt_succ_self _

/-- Only blanks come before a text, and the lexer does not start a line with white space. -/
def blanksBefore (data : Bytes) (lexer : Lexer) : Option (UInt32 × Bytes) :=
  let rest := data.drop lexer.bufferPos
  if isNonNewlineSpace (nextCode rest) ∧ lexer.columnNumber = 0 then none
  else some (afterBlanks lexer.columnNumber rest)

/-- Only blanks come before a dollar sign that is the last byte, and not in the first column. -/
def IsBeforeDollar (data : Bytes) (lexer : Lexer) : Prop :=
  ∃ column ≠ 0, blanksBefore data lexer = some (column, [dollar])

/-- Only blanks come before a byte that is taken for the end of the file. -/
def IsBeforeMinusOne (data : Bytes) (lexer : Lexer) : Prop :=
  ∃ column text, blanksBefore data lexer = some (column, 0xff :: text)

theorem isNewlineEscape_dollar {position : ℕ} (h : At data position (dollar :: rest)) :
  isNewlineEscape data position
    = if rest = [] then .error (.outOfBounds data.length) else .ok (behindNewline rest).isSome
  := by
  have hlength := h.add_length
  match rest with
  | [] =>
    rw [isNewlineEscape, isBeforeNewline, if_neg (by simpa using hlength), if_pos rfl]
    simp only [bind, Except.bind, pure, Except.pure, Bool.false_eq_true, if_false]
    rw [isBeforeLongNewline, if_pos (by simp at hlength; omega), h.tail.read_nil]
    rfl
  | [a] =>
    simp only [length_cons, length_nil] at hlength
    rw [isNewlineEscape, isBeforeNewline, if_pos (by omega), h.tail.read_eq, isBeforeLongNewline,
      if_neg (by omega), behindNewline]
    by_cases ha : a = '\n'.toUInt8 <;> simp [bind, Except.bind, pure, Except.pure, ha]
  | a :: b :: rest =>
    simp only [length_cons] at hlength
    have hshort : isBeforeNewline data position = .ok (a = '\n'.toUInt8) := by
      rw [isBeforeNewline, if_pos (by omega), h.tail.read_eq]
      rfl
    have hlong : isBeforeLongNewline data position
        = .ok (a = '\r'.toUInt8 ∧ b = '\n'.toUInt8) := by
      rw [isBeforeLongNewline, if_pos (by omega), h.tail.read_eq]
      simp only [bind, Except.bind, pure, Except.pure]
      rw [h.tail.tail.read_eq]
      split_ifs with ha <;> simp [ha]
    rw [isNewlineEscape, hshort, hlong, behindNewline, if_neg (cons_ne_nil _ _)]
    simp only [bind, Except.bind, pure, Except.pure]
    split_ifs <;> simp_all

theorem getNextChar_newline {text : Bytes} (h : At data lexer.bufferPos rest)
    (hrest : behindNewline rest = some text) :
  ∃ next, getNextChar data lexer = .ok (code '\n', next) ∧ At data next.bufferPos text
    ∧ next.columnNumber = 0
  := by
  match rest with
  | [] => cases hrest
  | [a] =>
    rw [behindNewline] at hrest
    split_ifs at hrest with ha
    cases hrest
    have hend : lexer.bufferPos + 1 = data.length := h.tail.eq_length_iff.mpr rfl
    rw [getNextChar, if_neg h.lt_length.ne, h.read_eq, h.advance_eq]
    simp only [bind, Except.bind, isSecondHalf, if_pos hend, if_pos (Or.inl ha)]
    exact ⟨_, rfl, h.tail, rfl⟩
  | a :: b :: rest =>
    have hend : lexer.bufferPos + 1 ≠ data.length := h.tail.lt_length.ne
    rw [behindNewline] at hrest
    rw [getNextChar, if_neg h.lt_length.ne, h.read_eq, h.advance_eq]
    simp only [bind, Except.bind, isSecondHalf, if_neg hend, h.tail.read_eq, h.tail.advance_eq]
    split_ifs at hrest with ha hb hab
    · cases hrest
      rw [if_pos (Or.inl ha)]
      subst ha hb
      exact ⟨_, rfl, h.tail.tail, rfl⟩
    · cases hrest
      rw [if_pos (Or.inl ha)]
      subst ha
      have hhalf : '\n'.toUInt8 + '\r'.toUInt8 - '\n'.toUInt8 = '\r'.toUInt8 := by decide
      simp only [pure, Except.pure, hhalf, decide_eq_false hb, Bool.false_eq_true, if_false]
      exact ⟨_, rfl, h.tail, rfl⟩
    · cases hrest
      rw [if_pos (Or.inr hab.1)]
      obtain ⟨rfl, rfl⟩ := hab
      exact ⟨_, rfl, h.tail.tail, rfl⟩

/-- The outcome of eating blanks that come before a text: the lexer is there, or has read behind a
dollar sign that is the last byte. -/
def Skips (data : Bytes) (text : UInt32 × Bytes) (result : Except Fault (ℤ × Lexer)) : Prop :=
  if text.1 ≠ 0 ∧ text.2 = [dollar] then result = .error (.outOfBounds data.length)
  else ∃ next, result = .ok (nextCode text.2, next) ∧ At data next.bufferPos text.2

theorem skips_of_stop {column : UInt32} (h : At data lexer.bufferPos rest)
    (hne : ¬ (column ≠ 0 ∧ rest = [dollar])) :
  Skips data (column, rest) (.ok (nextCode rest, lexer))
  := by
  rw [Skips, if_neg hne]
  exact ⟨lexer, rfl, h⟩

theorem skipSpaces_skips {steps : ℕ} (h : At data lexer.bufferPos rest)
    (hsteps : rest.length < steps) :
  Skips data (afterBlanks lexer.columnNumber rest) (skipSpaces data steps (nextCode rest) lexer)
  := by
  induction steps generalizing lexer rest with
  | zero => cases hsteps
  | succ steps ih =>
    cases rest with
    | nil =>
      rw [afterBlanks]
      exact skips_of_stop h (by simp)
    | cons c rest =>
      have hrest := lt_of_succ_lt_succ hsteps
      have hcode : c.toInt8.toInt = code '$' ↔ c = dollar := toInt_eq_code_iff rfl
      rw [nextCode, skipSpaces]
      by_cases hdollar : c = dollar ∧ lexer.columnNumber ≠ 0
      · rw [if_pos ⟨hcode.mpr hdollar.1, hdollar.2⟩]
        obtain ⟨rfl, hcolumn⟩ := hdollar
        rw [isNewlineEscape_dollar h]
        cases hnewline : behindNewline rest with
        | none =>
          have htext : afterBlanks lexer.columnNumber (dollar :: rest)
              = (lexer.columnNumber, dollar :: rest) := by
            rw [afterBlanks, if_pos ⟨rfl, hcolumn⟩]
            split <;> simp_all
          rw [htext]
          by_cases hnil : rest = []
          · subst hnil
            rw [Skips, if_pos ⟨hcolumn, rfl⟩]
            rfl
          · rw [if_neg hnil]
            exact skips_of_stop h (by simpa using fun _ => hnil)
        | some text =>
          have htext : afterBlanks lexer.columnNumber (dollar :: rest) = afterBlanks 0 text := by
            rw [afterBlanks, if_pos ⟨rfl, hcolumn⟩]
            split <;> simp_all
          have hne : rest ≠ [] := by
            rintro rfl
            cases hnewline
          have htail : At data (lexer.forward 1).bufferPos rest := h.tail
          obtain ⟨next, hnext, hat, hzero⟩ := getNextChar_newline htail hnewline
          have hlt := length_behindNewline hnewline
          rw [htext, ← hzero, if_neg hne]
          simp only [bind, Except.bind, Option.isSome_some, if_true, getNextChar_cons h (by decide),
            hnext, peekNextChar_at hat]
          exact ih hat (hlt.trans hrest)
      · rw [if_neg (by rwa [hcode]), afterBlanks, if_neg hdollar]
        by_cases hspace : isNonNewlineSpace c.toInt8.toInt
        · have hat : At data (lexer.forward 1).bufferPos rest := h.tail
          rw [if_pos hspace, if_pos hspace]
          simp only [bind, Except.bind, getNextChar_cons h (isNewline_of_isNonNewlineSpace hspace),
            peekNextChar_at hat]
          exact ih hat hrest
        · rw [if_neg hspace, if_neg hspace]
          refine skips_of_stop h ?_
          rintro ⟨hcolumn, heq⟩
          exact hdollar ⟨(cons.inj heq).1, hcolumn⟩

/-- White space at the start of a line is an indentation. -/
theorem lex_indentation (h : At data lexer.bufferPos rest)
    (hindent : isNonNewlineSpace (nextCode rest) ∧ lexer.columnNumber = 0) :
  Returns (lex data lexer) fun next => next.1.tokenKind = .indentation
  := by
  have hne : charAt data lexer.bufferPos ≠ -1 := by
    intro heq
    rw [← charAt_of_at h, heq] at hindent
    exact absurd hindent.1 (by decide)
  rw [lex, peekNextChar_at h]
  simp only [bind, Except.bind, if_pos hindent]
  apply (getNextChar_returns_lt h.le hne).bind
  rintro ⟨_, next⟩ ⟨hruns, -⟩
  apply (consumeWhile_returns (by decide) hruns.le_length (sub_lt_length_add_one data next)).bind
  intro last _
  exact .ok rfl

section

variable {column : UInt32} {text : Bytes} (h : lexer.bufferPos ≤ data.length)
  (hblanks : blanksBefore data lexer = some (column, text))

include h hblanks

/-- The blanks are eaten first. -/
theorem lex_eq_bind :
  ∃ result, Skips data (column, text) result
    ∧ Ends (ReadsBehindDollar data) result (fun next => Runs data lexer next.2
      ∧ next.1 = charAt data next.2.bufferPos ∧ isNonNewlineSpace next.1 = false)
    ∧ lex data lexer = result.bind fun next => lexBehind data next.1 next.2
  := by
  have hat : At data lexer.bufferPos (data.drop lexer.bufferPos) := ⟨h, rfl⟩
  rw [blanksBefore] at hblanks
  split_ifs at hblanks with hindent
  have hskips := skipSpaces_skips hat (length_lt_of_at hat)
  rw [Option.some.inj hblanks] at hskips
  refine ⟨_, hskips, ?_, ?_⟩
  · rw [← charAt_of_at hat]
    exact skipSpaces_ends h (sub_lt_length_add_one data lexer)
  · rw [lex, peekNextChar_at hat]
    simp only [bind, Except.bind, if_neg hindent]
    rfl

theorem lex_of_dollar (hdollar : column ≠ 0 ∧ text = [dollar]) :
  lex data lexer = .error (.outOfBounds data.length)
  := by
  obtain ⟨result, hskips, -, hlex⟩ := lex_eq_bind h hblanks
  rw [Skips, if_pos hdollar] at hskips
  rw [hlex, hskips]
  rfl

/-- Elsewhere the token is the first one of the text behind the blanks, and it is the end of the
file if the next character is −1. -/
theorem lex_of_not_dollar (hdollar : ¬ (column ≠ 0 ∧ text = [dollar])) :
  ∃ token next, lex data lexer = .ok (token, next) ∧ At data token.start text
    ∧ (token.tokenKind = .endOfFile ↔ nextCode text = -1)
  := by
  obtain ⟨result, hskips, hends, hlex⟩ := lex_eq_bind h hblanks
  rw [Skips, if_neg hdollar] at hskips
  obtain ⟨start, rfl, hat⟩ := hskips
  obtain ⟨hruns, hc, hspace⟩ := hends
  obtain ⟨⟨token, next⟩, hbehind, hfound, hstart⟩ := lexBehind_returns hruns hc hspace
  refine ⟨token, next, hlex.trans hbehind, hstart ▸ hat, ?_, ?_⟩
  · intro hkind
    have hend := hfound.endOfFile hkind
    rw [hstart] at hend
    exact hc.trans hend
  · intro hend
    dsimp only at hend hbehind
    rw [hend, lexBehind, if_neg (by decide), if_pos rfl] at hbehind
    cases hbehind
    rfl

end

/-- A call of `lex` reads behind the buffer exactly if only blanks come before a dollar sign that
is the last byte. -/
theorem exists_lex_iff (h : lexer.bufferPos ≤ data.length) :
  (∃ token next, lex data lexer = .ok (token, next)) ↔ ¬ IsBeforeDollar data lexer
  := by
  cases hblanks : blanksBefore data lexer with
  | none =>
    have hindent : isNonNewlineSpace (nextCode (data.drop lexer.bufferPos))
        ∧ lexer.columnNumber = 0 := by simpa [blanksBefore] using hblanks
    obtain ⟨⟨token, next⟩, hlex, -⟩ := lex_indentation ⟨h, rfl⟩ hindent
    exact iff_of_true ⟨token, next, hlex⟩ (by simp [IsBeforeDollar, hblanks])
  | some behind =>
    obtain ⟨column, text⟩ := behind
    have hbefore : IsBeforeDollar data lexer ↔ column ≠ 0 ∧ text = [dollar] := by
      simp [IsBeforeDollar, hblanks]
    rw [hbefore]
    by_cases hdollar : column ≠ 0 ∧ text = [dollar]
    · rw [lex_of_dollar h hblanks hdollar]
      exact iff_of_false (by simp) (not_not.mpr hdollar)
    · obtain ⟨token, next, hlex, -⟩ := lex_of_not_dollar h hblanks hdollar
      exact iff_of_true ⟨token, next, hlex⟩ hdollar

/-- A call of `lex` finds the end of the file elsewhere exactly if only blanks come before a byte
that is taken for it. -/
theorem exists_lex_end_iff (h : lexer.bufferPos ≤ data.length) :
  (∃ token next, lex data lexer = .ok (token, next)
      ∧ (token.tokenKind = .endOfFile → token.start = data.length))
    ↔ ¬ IsBeforeDollar data lexer ∧ ¬ IsBeforeMinusOne data lexer
  := by
  rw [← exists_lex_iff h]
  constructor
  · rintro ⟨token, next, hlex, hend⟩
    refine ⟨⟨token, next, hlex⟩, ?_⟩
    rintro ⟨column, text, hblanks⟩
    have hdollar : ¬ (column ≠ 0 ∧ (0xff : UInt8) :: text = [dollar]) :=
      fun heq => absurd (cons.inj heq.2).1 (by decide)
    obtain ⟨token', next', hlex', hat, hkind⟩ := lex_of_not_dollar h hblanks hdollar
    cases hlex.symm.trans hlex'
    exact absurd (hend (hkind.mpr rfl)) hat.lt_length.ne
  · rintro ⟨⟨token, next, hlex⟩, hbyte⟩
    refine ⟨token, next, hlex, ?_⟩
    intro hkind
    cases hblanks : blanksBefore data lexer with
    | none =>
      have hindent : isNonNewlineSpace (nextCode (data.drop lexer.bufferPos))
          ∧ lexer.columnNumber = 0 := by simpa [blanksBefore] using hblanks
      obtain ⟨_, hlex', hindentation⟩ := lex_indentation ⟨h, rfl⟩ hindent
      cases hlex.symm.trans hlex'
      cases hkind.symm.trans hindentation
    | some behind =>
      obtain ⟨column, text⟩ := behind
      have hdollar : ¬ (column ≠ 0 ∧ text = [dollar]) := by
        intro hdollar
        rw [lex_of_dollar h hblanks hdollar] at hlex
        cases hlex
      obtain ⟨token', next', hlex', hat, hend⟩ := lex_of_not_dollar h hblanks hdollar
      cases hlex.symm.trans hlex'
      rw [hat.eq_length_iff]
      cases text with
      | nil => rfl
      | cons c text =>
        have hc : c = 0xff := by
          rw [← ofInt_toInt c, show c.toInt8.toInt = -1 from hend.mp hkind]
          rfl
        exact absurd ⟨column, text, hc ▸ hblanks⟩ hbyte

/-! ### All tokens -/

/-- Before each of the calls in the modes the lexer has the property. -/
def BeforeEach (data : Bytes) (P : Lexer → Prop) : List LexingMode → Lexer → Prop
  | [], _ => True
  | mode :: modes, lexer => P { lexer with mode := mode }
    ∧ ∀ token next, lex data { lexer with mode := mode } = .ok (token, next) →
      BeforeEach data P modes next

/-- The calls find tokens with a property exactly if before each call the lexer has the property
with which it finds such a token. -/
theorem exists_lexAll_iff
    {P : Lexer → Prop} {Q : Token → Prop}
    (hcall : ∀ lexer, lexer.bufferPos ≤ data.length →
      ((∃ token next, lex data lexer = .ok (token, next) ∧ Q token) ↔ P lexer))
    (modes : List LexingMode) (h : lexer.bufferPos ≤ data.length) :
  (∃ tokens, lexAll data modes lexer = .ok tokens ∧ ∀ token ∈ tokens, Q token)
    ↔ BeforeEach data P modes lexer
  := by
  induction modes generalizing lexer with
  | nil => exact iff_of_true ⟨[], rfl, by simp⟩ trivial
  | cons mode modes ih =>
    have hmode : ({ lexer with mode := mode } : Lexer).bufferPos ≤ data.length := h
    rw [BeforeEach, ← hcall _ hmode, lexAll]
    constructor
    · rintro ⟨tokens, htokens, hall⟩
      cases hlex : lex data { lexer with mode := mode } with
      | error fault =>
        rw [hlex] at htokens
        cases htokens
      | ok found =>
        rw [hlex] at htokens
        cases hrest : lexAll data modes found.2 with
        | error fault =>
          simp only [bind, Except.bind, hrest] at htokens
          cases htokens
        | ok later =>
          simp only [bind, Except.bind, hrest] at htokens
          cases htokens
          obtain ⟨htoken, hlater⟩ := forall_mem_cons.mp hall
          refine ⟨⟨found.1, found.2, rfl, htoken⟩, ?_⟩
          rintro token' next' ⟨⟩
          exact (ih ((lex_ends hmode).of_eq hlex).stop_le).mp ⟨later, hrest, hlater⟩
    · rintro ⟨⟨token, next, hlex, htoken⟩, hlater⟩
      obtain ⟨tokens, hrest, hall⟩ :=
        (ih ((lex_ends hmode).of_eq hlex).stop_le).mpr (hlater token next hlex)
      refine ⟨token :: tokens, ?_, forall_mem_cons.mpr ⟨htoken, hall⟩⟩
      rw [hlex]
      simp only [bind, Except.bind, hrest]
      rfl

section

variable (data : Bytes) (modes : List LexingMode)

/-- **The lexer reads only its buffer.**  Calls of `lex` in any sequence of modes find their tokens,
and read no byte outside of the buffer, exactly if at none of the calls only blanks come before a
dollar sign that is the last byte and not in the first column; so they do whenever the last byte is
not a dollar sign. -/
theorem exists_lexAll_eq_iff :
  ((∃ tokens, lexAll data modes .initial = .ok tokens)
      ↔ BeforeEach data (fun lexer => ¬ IsBeforeDollar data lexer) modes .initial)
    ∧ (data.getLast? ≠ some '$'.toUInt8 → ∃ tokens, lexAll data modes .initial = .ok tokens)
  := by
  constructor
  · rw [← exists_lexAll_iff (fun lexer h => ?_) modes (initial_le data)]
    · exact exists_congr fun tokens => (and_iff_left fun _ _ => trivial).symm
    · rw [← exists_lex_iff h]
      exact exists_congr fun token => exists_congr fun next => and_iff_left trivial
  · intro hlast
    obtain ⟨tokens, htokens, -⟩ := (lexAll_ends modes (initial_le data)).returns
      fun _ hfault => hlast hfault.1
    exact ⟨tokens, htokens⟩

/-- A dollar sign as the last byte, not in the first column: the bytes behind it are compared
with a newline of two bytes. -/
theorem lexAll_outOfBounds :
  lexAll (ascii "a $") [.none, .none] .initial = .error (.outOfBounds 3)
    ∧ lexAll (ascii "a = $") [.none, .none, .variableString] .initial = .error (.outOfBounds 5)
  := by decide +kernel

/-- **The lexer consumes its whole buffer.**  Let a buffer have fewer than 2³² bytes.  Calls of
`lex` in any sequence of modes find a token each, no token begins before the end of an earlier one,
all are inside of the buffer, a token that is neither the end of the file nor a string is not
empty, and the end of the file is found only at the end of the buffer, exactly if at none of the
calls only blanks come before a dollar sign that is the last byte and not in the first column, or
before the byte `0xff`. -/
theorem lexAll_tokens_iff (hsize : data.length < 2 ^ 32) :
  (∃ tokens, lexAll data modes .initial = .ok tokens ∧ tokens.length = modes.length
    ∧ tokens.Pairwise (fun token next => token.start + token.length.toNat ≤ next.start)
    ∧ ∀ token ∈ tokens, token.start + token.length.toNat ≤ data.length
      ∧ (token.tokenKind ≠ .endOfFile → token.tokenKind ≠ .string → 0 < token.length.toNat)
      ∧ (token.tokenKind = .endOfFile → token.start = data.length))
    ↔ BeforeEach data (fun lexer => ¬ IsBeforeDollar data lexer ∧ ¬ IsBeforeMinusOne data lexer)
      modes .initial
  := by
  rw [← exists_lexAll_iff (fun lexer h => exists_lex_end_iff h) modes (initial_le data)]
  constructor
  · rintro ⟨tokens, htokens, -, -, hall⟩
    exact ⟨tokens, htokens, fun token htoken => (hall token htoken).2.2⟩
  · rintro ⟨tokens, htokens, hend⟩
    obtain ⟨hlength, hpairwise, hall⟩ := (lexAll_ends modes (initial_le data)).of_eq htokens
    refine ⟨tokens, htokens, hlength, hpairwise, ?_⟩
    intro token htoken
    obtain ⟨-, hin⟩ := hall token htoken
    exact ⟨hin.stop_le, hin.nonempty hsize, hend token htoken⟩

end

/-- A dollar sign in the first column is a token of its own. -/
theorem lexAll_tokens_dollar :
  ∃ tokens, lexAll (ascii "$") [.none] .initial = .ok tokens ∧ tokens.length = 1
    ∧ tokens.Pairwise (fun token next => token.start + token.length.toNat ≤ next.start)
    ∧ ∀ token ∈ tokens, token.start + token.length.toNat ≤ 1
      ∧ (token.tokenKind ≠ .endOfFile → token.tokenKind ≠ .string → 0 < token.length.toNat)
      ∧ (token.tokenKind = .endOfFile → token.start = 1)
  := by
  have hblanks : blanksBefore (ascii "$") .initial = some (0, [dollar]) := by decide +kernel
  refine (lexAll_tokens_iff (ascii "$") [.none] (by decide)).mpr ⟨⟨?_, ?_⟩, fun _ _ _ => trivial⟩
  · rintro ⟨column, hcolumn, hbefore⟩
    cases hblanks.symm.trans hbefore
    exact hcolumn rfl
  · rintro ⟨column, text, hbefore⟩
    cases hblanks.symm.trans hbefore

/-- The byte `0xff` is taken for the end of the file, and nothing behind it is ever lexed. -/
theorem lexAll_endOfFile :
  lexAll [0x61, 0xff, 0x62] [.none, .none, .pathString] .initial
    = .ok [⟨0, .identifier, 1, 1, 0⟩, ⟨1, .endOfFile, 0, 1, 1⟩, ⟨1, .endOfFile, 0, 1, 1⟩]
  := by decide +kernel

end LLBuild.Ninja.Lexer

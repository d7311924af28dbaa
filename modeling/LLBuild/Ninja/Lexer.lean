import LLBuild.Basic.Buffer
import LLBuild.Ninja.EvalString

/-!
# The lexer of Ninja manifests

A manifest is a buffer of bytes, which need not end with a zero.  The lexer is at a position of
the buffer and finds the next token there, in a way that depends on its mode.  A character is
an integer: a byte with a sign, or −1 at the end of the buffer.  The byte `0xff` is −1 as well,
so that the lexer takes it for the end.

Every read is checked against the bounds of the buffer.
-/

namespace LLBuild.Ninja

open UInt32

open Nat

open List

open BinaryCoding Buffer

inductive Token.Kind
  | colon
  | comment
  | endOfFile
  | equals
  | indentation
  | identifier
  | kwBuild
  | kwDefault
  | kwInclude
  | kwPool
  | kwRule
  | kwSubninja
  | newline
  | pipe
  | pipePipe
  | string
  | unknown
  deriving DecidableEq

/-- A token, with the position of its first byte. -/
structure Token where
  start : ℕ
  tokenKind : Token.Kind
  length : UInt32
  line : UInt32
  column : UInt32
  deriving DecidableEq

inductive LexingMode
  | none
  | identifierSpecific
  | pathString
  | variableString
  deriving DecidableEq

structure Lexer where
  bufferPos : ℕ
  lineNumber : UInt32
  columnNumber : UInt32
  mode : LexingMode
  deriving DecidableEq

/-- The lexer at the start of its buffer. -/
def Lexer.initial : Lexer := ⟨0, 1, 0, .none⟩

/-- The code of an ASCII character. -/
def code (c : Char) : ℤ := c.toNat

variable (c : ℤ)

/-- White space of the locale `C`. -/
def isspace : Bool := c = code ' ' || (code '\t' ≤ c && c ≤ code '\r')

def isNonNewlineSpace : Bool := isspace c && c ≠ code '\n' && c ≠ code '\r'

/-- Whether a character may be in an identifier; it is made a byte first. -/
def isIdentifierCode : Bool := isIdentifierChar (UInt8.ofInt c)

/-- Whether a character is neither the end of a line nor that of the buffer. -/
def isInLine : Bool := !(c = -1 || c = code '\n' || c = code '\r')

namespace Lexer

variable (data : Bytes)

/-! ### Characters -/

variable (lexer : Lexer)

/-- Return the next character without consuming it. -/
def peekNextChar : Except Fault ℤ :=
  if lexer.bufferPos = data.length then return -1
  else do
    let c ← read data lexer.bufferPos
    return c.toInt8.toInt

/-- Whether the position is at the other half of a newline of two bytes. -/
def isSecondHalf (result : UInt8) (position : ℕ) : Except Fault Bool :=
  if position = data.length then return false
  else do
    let c ← read data position
    return c = '\n'.toUInt8 + '\r'.toUInt8 - result

/-- Eat a character, or −1 at the end. -/
def getNextChar : Except Fault (ℤ × Lexer) :=
  if lexer.bufferPos = data.length then return (-1, lexer)
  else do
    let result ← read data lexer.bufferPos
    let position ← advance data lexer.bufferPos 1
    if result = '\n'.toUInt8 ∨ result = '\r'.toUInt8 then
      if ← isSecondHalf data result position then
        let position ← advance data position 1
        return (code '\n', { lexer with
          bufferPos := position, lineNumber := lexer.lineNumber + 1, columnNumber := 0 })
      else
        return (code '\n', { lexer with
          bufferPos := position, lineNumber := lexer.lineNumber + 1, columnNumber := 0 })
    else
      return (result.toInt8.toInt, { lexer with
        bufferPos := position, columnNumber := lexer.columnNumber + 1 })

/-- Eat characters as long as they have a property. -/
def consumeWhile (p : ℤ → Bool) : (steps : ℕ) → Lexer → Except Fault Lexer
  | 0, _ => .error .unterminated
  | steps + 1, lexer => do
    let c ← peekNextChar data lexer
    if p c then
      let (_, lexer) ← getNextChar data lexer
      consumeWhile p steps lexer
    else return lexer

/-- Skip forward until the end of the line. -/
def skipToEndOfLine : Except Fault Lexer :=
  consumeWhile data isInLine (data.length + 1) lexer

/-! ### Tokens -/

variable (lexer start : Lexer)

/-- The token from where the lexer was at the start of it to where the lexer is. -/
def setTokenKind (kind : Token.Kind) : Token where
  start := start.bufferPos
  tokenKind := kind
  length := ofNat (lexer.bufferPos - start.bufferPos)
  line := start.lineNumber
  column := start.columnNumber

/-- Whether the first `n` bytes of a text are those of the buffer from a position on. -/
def memcmp (text : Bytes) (position n : ℕ) : Except Fault Bool :=
  if position + n ≤ data.length then
    return slice data position (position + n) = text.take n
  else .error (.outOfBounds data.length)

/-- A token that is an identifier or a keyword. -/
def setIdentifierTokenKind : Except Fault Token := do
  let length := ofNat (lexer.bufferPos - start.bufferPos)
  if length = 4 then
    if ← memcmp data (ascii "rule") start.bufferPos 4 then
      return lexer.setTokenKind start .kwRule
    else if ← memcmp data (ascii "pool") start.bufferPos 4 then
      return lexer.setTokenKind start .kwPool
    else return lexer.setTokenKind start .identifier
  else if length = 5 then
    if ← memcmp data (ascii "build") start.bufferPos 5 then
      return lexer.setTokenKind start .kwBuild
    else return lexer.setTokenKind start .identifier
  else if length = 7 then
    if ← memcmp data (ascii "default") start.bufferPos 7 then
      return lexer.setTokenKind start .kwDefault
    else if ← memcmp data (ascii "include") start.bufferPos 7 then
      return lexer.setTokenKind start .kwInclude
    else return lexer.setTokenKind start .identifier
  else if length = 8 then
    -- Only seven of the eight bytes are compared.
    if ← memcmp data (ascii "subninja") start.bufferPos 7 then
      return lexer.setTokenKind start .kwSubninja
    else return lexer.setTokenKind start .identifier
  else return lexer.setTokenKind start .identifier

def lexIdentifier : Except Fault (Token × Lexer) := do
  let lexer ← consumeWhile data isIdentifierCode (data.length + 1) lexer
  if lexer.mode = .identifierSpecific then return (lexer.setTokenKind start .identifier, lexer)
  else
    let token ← setIdentifierTokenKind data lexer start
    return (token, lexer)

variable (c : ℤ)

/-- Eat the leading spaces of a line that an escaped newline has started. -/
def skipLeadingSpaces (lexer : Lexer) : Except Fault Lexer :=
  if c = code '\n' then consumeWhile data isNonNewlineSpace (data.length + 1) lexer
  else return lexer

/-- The end of a string of a path: a space, a colon or a bar that is not escaped. -/
def lexPathString : (steps : ℕ) → Lexer → Except Fault Lexer
  | 0, _ => .error .unterminated
  | steps + 1, lexer => do
    let c ← peekNextChar data lexer
    if c = code '$' then
      let (_, lexer) ← getNextChar data lexer
      let (c, lexer) ← getNextChar data lexer
      let lexer ← skipLeadingSpaces data c lexer
      lexPathString steps lexer
    else if isspace c || c = code ':' || c = code '|' || c = -1 then return lexer
    else
      let (_, lexer) ← getNextChar data lexer
      lexPathString steps lexer

/-- The end of a string of a variable: the end of the line, if it is not escaped. -/
def lexVariableString : (steps : ℕ) → Lexer → Except Fault Lexer
  | 0, _ => .error .unterminated
  | steps + 1, lexer => do
    let c ← peekNextChar data lexer
    if c = code '$' then
      let (_, lexer) ← getNextChar data lexer
      let (_, lexer) ← getNextChar data lexer
      lexVariableString steps lexer
    else if c = code '\n' || c = -1 || c = code '\r' then return lexer
    else
      let (_, lexer) ← getNextChar data lexer
      lexVariableString steps lexer

variable (position : ℕ)

/-- Whether `\n` follows a position, which is looked at if the buffer does not end there. -/
def isBeforeNewline : Except Fault Bool :=
  if position + 1 ≠ data.length then do
    let c ← read data (position + 1)
    return c = '\n'.toUInt8
  else return false

/-- Whether `\r\n` follows a position, which is looked at if the buffer does not end one byte
later. -/
def isBeforeLongNewline : Except Fault Bool :=
  if position + 2 ≠ data.length then do
    let c ← read data (position + 1)
    if c = '\r'.toUInt8 then
      let d ← read data (position + 2)
      return d = '\n'.toUInt8
    else return false
  else return false

/-- Whether a dollar sign escapes a newline. -/
def isNewlineEscape : Except Fault Bool := do
  if ← isBeforeNewline data position then return true
  else isBeforeLongNewline data position

/-- Eat white space and escaped newlines; `c` is the next character. -/
def skipSpaces : (steps : ℕ) → (c : ℤ) → Lexer → Except Fault (ℤ × Lexer)
  | 0, _, _ => .error .unterminated
  | steps + 1, c, lexer =>
    if c = code '$' ∧ lexer.columnNumber ≠ 0 then do
      if ← isNewlineEscape data lexer.bufferPos then
        let (_, lexer) ← getNextChar data lexer
        let (_, lexer) ← getNextChar data lexer
        let c ← peekNextChar data lexer
        skipSpaces steps c lexer
      else return (c, lexer)
    else if isNonNewlineSpace c then do
      let (_, lexer) ← getNextChar data lexer
      let c ← peekNextChar data lexer
      skipSpaces steps c lexer
    else return (c, lexer)

/-- Eat a character that starts no string, and lex from the regular token set. -/
def lexRegular (start : Lexer) : Except Fault (Token × Lexer) := do
  let (_, lexer) ← getNextChar data start
  if c = code ':' then return (lexer.setTokenKind start .colon, lexer)
  else if c = code '=' then return (lexer.setTokenKind start .equals, lexer)
  else if c = code '#' then
    let lexer ← skipToEndOfLine data lexer
    return (lexer.setTokenKind start .comment, lexer)
  else if c = code '|' then
    let c ← peekNextChar data lexer
    if c = code '|' then
      let (_, lexer) ← getNextChar data lexer
      return (lexer.setTokenKind start .pipePipe, lexer)
    else return (lexer.setTokenKind start .pipe, lexer)
  else if isIdentifierCode c then lexIdentifier data lexer start
  else return (lexer.setTokenKind start .unknown, lexer)

/-- Find the next token. -/
def lex : Except Fault (Token × Lexer) := do
  let c ← peekNextChar data lexer
  if isNonNewlineSpace c ∧ lexer.columnNumber = 0 then
    let start := lexer
    let (_, lexer) ← getNextChar data lexer
    let lexer ← consumeWhile data isNonNewlineSpace (data.length + 1) lexer
    return (lexer.setTokenKind start .indentation, lexer)
  else
    let (c, start) ← skipSpaces data (data.length + 1) c lexer
    if c = code '\n' ∨ c = code '\r' then
      let (_, lexer) ← getNextChar data start
      return (lexer.setTokenKind start .newline, lexer)
    else if c = -1 then return (start.setTokenKind start .endOfFile, start)
    else if start.mode = .variableString then
      let lexer ← lexVariableString data (data.length + 1) start
      return (lexer.setTokenKind start .string, lexer)
    else if start.mode = .pathString ∧ c ≠ code ':' ∧ c ≠ code '|' then
      let lexer ← lexPathString data (data.length + 1) start
      return (lexer.setTokenKind start .string, lexer)
    else lexRegular data c start

/-- Find a token in each of the given modes, one after another. -/
def lexAll : List LexingMode → Lexer → Except Fault (List Token)
  | [], _ => return []
  | mode :: modes, lexer => do
    let (token, lexer) ← lex data { lexer with mode := mode }
    let tokens ← lexAll modes lexer
    return token :: tokens

/-! ### The lexer stays in its buffer -/

variable {data} {lexer lexer' start : Lexer}

/-- The character at a position. -/
def charAt (data : Bytes) (position : ℕ) : ℤ :=
  match data[position]? with
  | none => -1
  | some c => c.toInt8.toInt

variable {position : ℕ}

theorem lt_length_of_charAt (h : charAt data position ≠ -1) :
  position < data.length
  := by
  by_contra hge
  rw [charAt, getElem?_eq_none (Nat.le_of_not_lt hge)] at h
  exact h rfl

theorem peekNextChar_eq (h : lexer.bufferPos ≤ data.length) :
  peekNextChar data lexer = .ok (charAt data lexer.bufferPos)
  := by
  rw [peekNextChar, charAt]
  split_ifs with hend
  · rw [hend, getElem?_eq_none (le_refl _)]
    rfl
  · obtain ⟨c, hread, hc⟩ := read_returns (lt_of_le_of_ne h hend)
    rw [hread, hc]
    rfl

/-- The lexer moves on, inside of the buffer. -/
structure Moves (data : Bytes) (lexer lexer' : Lexer) : Prop where
  le : lexer.bufferPos ≤ lexer'.bufferPos
  le_length : lexer'.bufferPos ≤ data.length

theorem Moves.refl (h : lexer.bufferPos ≤ data.length) :
  Moves data lexer lexer
  := ⟨le_refl _, h⟩

theorem Moves.trans
    {lexer'' : Lexer} (h : Moves data lexer lexer') (h' : Moves data lexer' lexer'') :
  Moves data lexer lexer''
  := ⟨le_trans h.le h'.le, h'.le_length⟩

variable {steps : ℕ}

theorem Moves.sub_lt
    (h : Moves data lexer lexer') (hlt : lexer.bufferPos < lexer'.bufferPos)
    (hsteps : data.length - lexer.bufferPos < steps + 1) :
  data.length - lexer'.bufferPos < steps
  := by
  have hle := h.le_length
  omega

/-- The lexer moves on, and stays in its mode. -/
structure Runs (data : Bytes) (lexer lexer' : Lexer) : Prop extends Moves data lexer lexer' where
  mode : lexer'.mode = lexer.mode

theorem Runs.refl (h : lexer.bufferPos ≤ data.length) :
  Runs data lexer lexer
  := ⟨Moves.refl h, rfl⟩

theorem Runs.trans {lexer'' : Lexer} (h : Runs data lexer lexer') (h' : Runs data lexer' lexer'') :
  Runs data lexer lexer''
  := ⟨h.toMoves.trans h'.toMoves, h'.mode.trans h.mode⟩

open Runs

theorem isSecondHalf_returns (result : UInt8) (h : position ≤ data.length) :
  Returns (isSecondHalf data result position) fun second => second → position < data.length
  := by
  rw [isSecondHalf]
  split_ifs with hend
  · exact .ok (by simp)
  · have hlt := lt_of_le_of_ne h hend
    exact (read_returns hlt).bind fun c _ => Returns.ok fun _ => hlt

theorem getNextChar_returns (h : lexer.bufferPos ≤ data.length) :
  Returns (getNextChar data lexer) fun next => Runs data lexer next.2
    ∧ (lexer.bufferPos < data.length → lexer.bufferPos < next.2.bufferPos)
  := by
  rw [getNextChar]
  split_ifs with hend
  · exact .ok ⟨refl h, fun hlt => absurd hend hlt.ne⟩
  · have hlt := lt_of_le_of_ne h hend
    apply (read_returns hlt).bind
    intro result _
    apply (advance_returns hlt).bind
    rintro _ rfl
    split_ifs with hnewline
    · apply (isSecondHalf_returns result hlt).bind
      intro second hsecond
      cases second with
      | true =>
        apply (advance_returns (hsecond rfl)).bind
        rintro _ rfl
        refine .ok ⟨⟨⟨?_, hsecond rfl⟩, rfl⟩, fun _ => ?_⟩
        · dsimp only
          omega
        · dsimp only
          omega
      | false => exact .ok ⟨⟨⟨by simp, hlt⟩, rfl⟩, fun _ => by simp⟩
    · exact .ok ⟨⟨⟨by simp, hlt⟩, rfl⟩, fun _ => by simp⟩

theorem getNextChar_returns_lt
    (h : lexer.bufferPos ≤ data.length) (hc : charAt data lexer.bufferPos ≠ -1) :
  Returns (getNextChar data lexer) fun next => Runs data lexer next.2
    ∧ lexer.bufferPos < next.2.bufferPos
  := (getNextChar_returns h).imp fun _ hnext => ⟨hnext.1, hnext.2 (lt_length_of_charAt hc)⟩

theorem consumeWhile_returns
    {p : ℤ → Bool} (hp : p (-1) = false) (h : lexer.bufferPos ≤ data.length)
    (hsteps : data.length - lexer.bufferPos < steps) :
  Returns (consumeWhile data p steps lexer) (Runs data lexer)
  := by
  induction steps generalizing lexer with
  | zero => cases hsteps
  | succ steps ih =>
    rw [consumeWhile, peekNextChar_eq h]
    by_cases hc : p (charAt data lexer.bufferPos)
    · have hne : charAt data lexer.bufferPos ≠ -1 := by
        intro heq
        rw [heq, hp] at hc
        cases hc
      simp only [bind, Except.bind, hc]
      apply (getNextChar_returns_lt h hne).bind
      rintro ⟨_, next⟩ ⟨hmoves, hlt⟩
      exact (ih hmoves.le_length (hmoves.sub_lt hlt hsteps)).imp fun _ => hmoves.trans
    · simp only [bind, Except.bind, hc]
      exact .ok (refl h)

/-- A loop of the lexer has enough steps. -/
theorem sub_lt_length_add_one (data : Bytes) (lexer : Lexer) :
  data.length - lexer.bufferPos < data.length + 1
  := lt_succ_of_le (sub_le _ _)

theorem skipLeadingSpaces_returns (h : lexer.bufferPos ≤ data.length) :
  Returns (skipLeadingSpaces data c lexer) (Runs data lexer)
  := by
  rw [skipLeadingSpaces]
  split_ifs
  · exact consumeWhile_returns (by decide) h (sub_lt_length_add_one data lexer)
  · exact .ok (refl h)

/-- Whether a character ends a path that it does not belong to. -/
def isPathEnd : Bool := isspace c || c = code ':' || c = code '|' || c = -1

/-- The rest of a loop, once the lexer has moved. -/
theorem Runs.moved {loop : Except Fault Lexer} {next : Lexer} {p q : Prop}
    (h : Runs data lexer next) (hlt : lexer.bufferPos < next.bufferPos)
    (hloop : Returns loop fun last => Runs data next last ∧ (p → next.bufferPos < last.bufferPos)) :
  Returns loop fun last => Runs data lexer last ∧ (q → lexer.bufferPos < last.bufferPos)
  := by
  refine hloop.imp ?_
  intro last hlast
  exact ⟨h.trans hlast.1, fun _ => lt_of_lt_of_le hlt hlast.1.le⟩

/-- A path is passed, and is not empty unless a character that ends it comes first. -/
theorem lexPathString_returns
    (h : lexer.bufferPos ≤ data.length) (hsteps : data.length - lexer.bufferPos < steps) :
  Returns (lexPathString data steps lexer) fun next => Runs data lexer next
    ∧ (isPathEnd (charAt data lexer.bufferPos) = false → lexer.bufferPos < next.bufferPos)
  := by
  induction steps generalizing lexer with
  | zero => cases hsteps
  | succ steps ih =>
    have hnext (next) (hruns : Runs data lexer next) (hlt : lexer.bufferPos < next.bufferPos) :=
      hruns.moved (q := isPathEnd (charAt data lexer.bufferPos) = false) hlt
        (ih hruns.le_length (hruns.sub_lt hlt hsteps))
    rw [lexPathString, peekNextChar_eq h]
    simp only [bind, Except.bind]
    split_ifs with hc hstop
    · apply (getNextChar_returns_lt h (by rw [hc]; decide)).bind
      rintro ⟨_, first⟩ ⟨hfirst, hlt⟩
      apply (getNextChar_returns hfirst.le_length).bind
      rintro ⟨c, second⟩ ⟨hsecond, -⟩
      apply (skipLeadingSpaces_returns c hsecond.le_length).bind
      intro last hlast
      exact hnext last ((hfirst.trans hsecond).trans hlast)
        (lt_of_lt_of_le hlt (hsecond.trans hlast).le)
    · refine .ok ⟨refl h, fun hend => ?_⟩
      rw [isPathEnd, hstop] at hend
      cases hend
    · have hne : charAt data lexer.bufferPos ≠ -1 := by
        intro heq
        simp [heq] at hstop
      apply (getNextChar_returns_lt h hne).bind
      rintro ⟨_, next⟩ ⟨hruns, hlt⟩
      exact hnext next hruns hlt

/-- The value of a variable is passed, and is not empty unless the line ends first. -/
theorem lexVariableString_returns
    (h : lexer.bufferPos ≤ data.length) (hsteps : data.length - lexer.bufferPos < steps) :
  Returns (lexVariableString data steps lexer) fun next => Runs data lexer next
    ∧ (isInLine (charAt data lexer.bufferPos) → lexer.bufferPos < next.bufferPos)
  := by
  induction steps generalizing lexer with
  | zero => cases hsteps
  | succ steps ih =>
    have hnext (next) (hruns : Runs data lexer next) (hlt : lexer.bufferPos < next.bufferPos) :=
      hruns.moved (q := isInLine (charAt data lexer.bufferPos)) hlt
        (ih hruns.le_length (hruns.sub_lt hlt hsteps))
    rw [lexVariableString, peekNextChar_eq h]
    simp only [bind, Except.bind]
    split_ifs with hc hstop
    · apply (getNextChar_returns_lt h (by rw [hc]; decide)).bind
      rintro ⟨_, first⟩ ⟨hfirst, hlt⟩
      apply (getNextChar_returns hfirst.le_length).bind
      rintro ⟨_, second⟩ ⟨hsecond, -⟩
      exact hnext second (hfirst.trans hsecond) (lt_of_lt_of_le hlt hsecond.le)
    · refine .ok ⟨refl h, fun hline => ?_⟩
      simp only [Bool.or_eq_true, decide_eq_true_eq] at hstop
      rw [isInLine, Bool.not_eq_true', Bool.or_eq_false_iff, Bool.or_eq_false_iff] at hline
      simp only [decide_eq_false_iff_not] at hline
      tauto
    · have hne : charAt data lexer.bufferPos ≠ -1 := by
        intro heq
        simp [heq] at hstop
      apply (getNextChar_returns_lt h hne).bind
      rintro ⟨_, next⟩ ⟨hruns, hlt⟩
      exact hnext next hruns hlt

/-- What a comparison of the bytes at the start of a token leads to, if the token is long
enough. -/
theorem memcmp_returns
    {text : Bytes} {n : UInt32} {yes no : Except Fault Token} {p : Token → Prop}
    (h : Moves data start lexer) (hlength : ofNat (lexer.bufferPos - start.bufferPos) = n)
    {m : ℕ} (hm : m ≤ n.toNat) (hyes : Returns yes p) (hno : Returns no p) :
  Returns (do if ← memcmp data text start.bufferPos m then yes else no) p
  := by
  have hfits : start.bufferPos + m ≤ data.length := by
    rw [← hlength, toNat_ofNat'] at hm
    have hle := h.le
    have hle' := h.le_length
    omega
  rw [memcmp, if_pos hfits]
  simp only [pure, Except.pure, bind, Except.bind]
  split_ifs
  · exact hyes
  · exact hno

/-- The token is an identifier or a keyword. -/
theorem setIdentifierTokenKind_returns (h : Moves data start lexer) :
  Returns (setIdentifierTokenKind data lexer start) fun token =>
    ∃ kind, token = lexer.setTokenKind start kind ∧ kind ≠ .endOfFile ∧ kind ≠ .string
  := by
  rw [setIdentifierTokenKind]
  split_ifs with h4 h5 h7 h8
  · refine memcmp_returns h h4 (by decide) ?_ (memcmp_returns h h4 (by decide) ?_ ?_)
    all_goals exact .ok ⟨_, rfl, by decide, by decide⟩
  · refine memcmp_returns h h5 (by decide) ?_ ?_
    all_goals exact .ok ⟨_, rfl, by decide, by decide⟩
  · refine memcmp_returns h h7 (by decide) ?_ (memcmp_returns h h7 (by decide) ?_ ?_)
    all_goals exact .ok ⟨_, rfl, by decide, by decide⟩
  · refine memcmp_returns h h8 (by decide) ?_ ?_
    all_goals exact .ok ⟨_, rfl, by decide, by decide⟩
  · exact .ok ⟨_, rfl, by decide, by decide⟩

/-- Different bytes are different characters. -/
theorem eq_of_charAt
    {c : UInt8} (h : charAt data position = c.toInt8.toInt) (hlt : position < data.length) :
  data[position]? = some c
  := by
  rw [charAt, getElem?_eq_getElem hlt] at h
  rw [getElem?_eq_getElem hlt, ← UInt8.toUInt8_toInt8 c, ← Int8.toInt_inj.mp h,
    UInt8.toUInt8_toInt8]

/-- A dollar sign is followed by another byte, unless it is the last byte. -/
theorem lt_length_of_dollar (hdollar : charAt data position = code '$') :
  position + 1 < data.length
    ∨ position + 1 = data.length ∧ data.getLast? = some '$'.toUInt8
  := by
  have hlt : position < data.length := lt_length_of_charAt (by rw [hdollar]; decide)
  have hbyte : data[position]? = some '$'.toUInt8 := eq_of_charAt hdollar hlt
  obtain hlt' | heq := Nat.lt_or_eq_of_le hlt
  · exact .inl hlt'
  · refine .inr ⟨heq, ?_⟩
    rw [getLast?_eq_getElem?, ← heq, Nat.succ_eq_add_one, Nat.add_sub_cancel, hbyte]

section

variable (h : position + 1 < data.length)
include h

theorem isBeforeNewline_returns :
  Returns (isBeforeNewline data position) fun _ => True
  := by
  rw [isBeforeNewline, if_pos h.ne]
  exact (read_returns h).bind fun _ _ => Returns.ok trivial

theorem isBeforeLongNewline_returns :
  Returns (isBeforeLongNewline data position) fun _ => True
  := by
  rw [isBeforeLongNewline]
  split_ifs with hend
  · apply (read_returns h).bind
    intro c _
    split_ifs
    · exact (read_returns (by omega)).bind fun _ _ => Returns.ok trivial
    · exact .ok trivial
  · exact .ok trivial

theorem isNewlineEscape_returns :
  Returns (isNewlineEscape data position) fun _ => True
  := by
  apply (isBeforeNewline_returns h).bind
  rintro (_ | _) -
  · exact isBeforeLongNewline_returns h
  · exact .ok trivial

end

/-- A read behind a buffer whose last byte is a dollar sign. -/
def ReadsBehindDollar (data : Bytes) (fault : Fault) : Prop :=
  data.getLast? = some '$'.toUInt8 ∧ fault = .outOfBounds data.length

/-- Behind a dollar sign there is a byte to be compared, unless it is the last byte. -/
theorem isNewlineEscape_ends (hdollar : charAt data position = code '$') :
  Ends (ReadsBehindDollar data) (isNewlineEscape data position) fun _ => True
  := by
  obtain hlt | ⟨heq, hlast⟩ := lt_length_of_dollar hdollar
  · exact (isNewlineEscape_returns hlt).ends
  · have hfault : isNewlineEscape data position = .error (.outOfBounds data.length) := by
      rw [isNewlineEscape, isBeforeNewline, if_neg (not_not.mpr heq)]
      rw [isBeforeLongNewline, if_pos (by omega), heq, Buffer.read, getElem?_eq_none (le_refl _)]
      rfl
    rw [hfault]
    exact ⟨hlast, rfl⟩

/-- White space and escaped newlines are eaten. -/
theorem skipSpaces_ends
    (h : lexer.bufferPos ≤ data.length) (hsteps : data.length - lexer.bufferPos < steps) :
  Ends (ReadsBehindDollar data)
    (skipSpaces data steps (charAt data lexer.bufferPos) lexer) fun next =>
      Runs data lexer next.2 ∧ next.1 = charAt data next.2.bufferPos
        ∧ isNonNewlineSpace next.1 = false
  := by
  induction steps generalizing lexer with
  | zero => cases hsteps
  | succ steps ih =>
    -- The rest of the loop, once the lexer has moved.
    have hnext : ∀ next, Runs data lexer next → lexer.bufferPos < next.bufferPos →
        Ends (ReadsBehindDollar data)
          (do let c ← peekNextChar data next; skipSpaces data steps c next) fun next =>
            Runs data lexer next.2 ∧ next.1 = charAt data next.2.bufferPos
              ∧ isNonNewlineSpace next.1 = false := by
      intro next hruns hlt
      rw [peekNextChar_eq hruns.le_length]
      exact (ih hruns.le_length (hruns.sub_lt hlt hsteps)).imp fun _ hspaces =>
        ⟨hruns.trans hspaces.1, hspaces.2⟩
    rw [skipSpaces]
    split_ifs with hdollar hspace
    · have hc := hdollar.1
      apply (isNewlineEscape_ends hc).bind
      rintro (_ | _) -
      · have hspace : isNonNewlineSpace (charAt data lexer.bufferPos) = false := by
          rw [hc]
          decide
        exact ⟨refl h, rfl, hspace⟩
      · apply (getNextChar_returns_lt h (by rw [hc]; decide)).ends.bind
        rintro ⟨_, first⟩ ⟨hfirst, hlt⟩
        apply (getNextChar_returns hfirst.le_length).ends.bind
        rintro ⟨_, second⟩ ⟨hsecond, -⟩
        exact hnext second (hfirst.trans hsecond) (lt_of_lt_of_le hlt hsecond.le)
    · have hne : charAt data lexer.bufferPos ≠ -1 := by
        intro heq
        rw [heq] at hspace
        revert hspace
        decide
      apply (getNextChar_returns_lt h hne).ends.bind
      rintro ⟨_, next⟩ ⟨hruns, hlt⟩
      exact hnext next hruns hlt
    · exact ⟨refl h, rfl, Bool.of_not_eq_true hspace⟩

/-! ### A token -/

/-- What is known of a token: it comes after what has been lexed before and ends where the
lexer is; it is empty only if it is a string or the end of the file, and the end of the file is
found where the character −1 is. -/
structure Lexed (data : Bytes) (lexer : Lexer) (token : Token) (lexer' : Lexer) : Prop where
  le_start : lexer.bufferPos ≤ token.start
  le_stop : token.start ≤ lexer'.bufferPos
  stop_le : lexer'.bufferPos ≤ data.length
  length_eq : token.length = ofNat (lexer'.bufferPos - token.start)
  nonempty : token.tokenKind ≠ .endOfFile → token.tokenKind ≠ .string →
    token.start < lexer'.bufferPos
  endOfFile : token.tokenKind = .endOfFile → charAt data token.start = -1

/-- A token is found, and the lexer is behind it, in the mode it was in. -/
structure Found (data : Bytes) (lexer : Lexer) (token : Token) (lexer' : Lexer) : Prop
    extends Lexed data lexer token lexer' where
  mode : lexer'.mode = lexer.mode
  lt_stop : token.tokenKind ≠ .endOfFile → token.start < lexer'.bufferPos

section

variable (h : Runs data lexer start)
include h

/-- A token that the lexer has moved over. -/
theorem found_of_lt
    {kind : Token.Kind} (h' : Runs data start lexer')
    (hkind : kind ≠ .endOfFile) (hlt : start.bufferPos < lexer'.bufferPos) :
  Found data lexer (lexer'.setTokenKind start kind) lexer'
  := ⟨⟨h.le, h'.le, h'.le_length, rfl, fun _ _ => hlt, fun heq => absurd heq hkind⟩,
    h'.mode.trans h.mode, fun _ => hlt⟩

theorem lexIdentifier_returns
    (h' : Runs data start lexer') (hlt : start.bufferPos < lexer'.bufferPos) :
  Returns (lexIdentifier data lexer' start) fun next => Found data lexer next.1 next.2
    ∧ next.1.start = start.bufferPos
  := by
  apply (consumeWhile_returns (by decide) h'.le_length (sub_lt_length_add_one data lexer')).bind
  intro next hnext
  have hruns := h'.trans hnext
  have hlt' := lt_of_lt_of_le hlt hnext.le
  split_ifs
  · exact .ok ⟨found_of_lt h hruns (by decide) hlt', rfl⟩
  · apply (setIdentifierTokenKind_returns hruns.toMoves).bind
    rintro _ ⟨kind, rfl, hkind, -⟩
    exact .ok ⟨found_of_lt h hruns hkind hlt', rfl⟩

theorem lexRegular_returns {c : ℤ} (hc : charAt data start.bufferPos ≠ -1) :
  Returns (lexRegular data c start) fun next => Found data lexer next.1 next.2
    ∧ next.1.start = start.bufferPos
  := by
  apply (getNextChar_returns_lt h.le_length hc).bind
  rintro ⟨_, next⟩ ⟨hruns, hlt⟩
  dsimp only
  split_ifs
  · exact .ok ⟨found_of_lt h hruns (by decide) hlt, rfl⟩
  · exact .ok ⟨found_of_lt h hruns (by decide) hlt, rfl⟩
  · apply (consumeWhile_returns (by decide) hruns.le_length (sub_lt_length_add_one data next)).bind
    intro last hlast
    exact .ok ⟨found_of_lt h (hruns.trans hlast) (by decide) (lt_of_lt_of_le hlt hlast.le), rfl⟩
  · rw [peekNextChar_eq hruns.le_length]
    simp only [bind, Except.bind]
    split_ifs
    · apply (getNextChar_returns hruns.le_length).bind
      rintro ⟨_, last⟩ ⟨hlast, -⟩
      exact .ok ⟨found_of_lt h (hruns.trans hlast) (by decide) (lt_of_lt_of_le hlt hlast.le), rfl⟩
    · exact .ok ⟨found_of_lt h hruns (by decide) hlt, rfl⟩
  · exact lexIdentifier_returns h hruns hlt
  · exact .ok ⟨found_of_lt h hruns (by decide) hlt, rfl⟩

end

/-- Find the token behind white space; `c` is the next character. -/
def lexBehind (data : Bytes) (c : ℤ) (start : Lexer) : Except Fault (Token × Lexer) := do
  if c = code '\n' ∨ c = code '\r' then
    let (_, lexer) ← getNextChar data start
    return (lexer.setTokenKind start .newline, lexer)
  else if c = -1 then return (start.setTokenKind start .endOfFile, start)
  else if start.mode = .variableString then
    let lexer ← lexVariableString data (data.length + 1) start
    return (lexer.setTokenKind start .string, lexer)
  else if start.mode = .pathString ∧ c ≠ code ':' ∧ c ≠ code '|' then
    let lexer ← lexPathString data (data.length + 1) start
    return (lexer.setTokenKind start .string, lexer)
  else lexRegular data c start

/-- A token is found behind the blanks. -/
theorem lexBehind_returns {c : ℤ} (hstart : Runs data lexer start)
    (hc : c = charAt data start.bufferPos) (hspace : isNonNewlineSpace c = false) :
  Returns (lexBehind data c start) fun next => Found data lexer next.1 next.2
    ∧ next.1.start = start.bufferPos
  := by
  have hsteps := sub_lt_length_add_one data start
  rw [lexBehind]
  split_ifs with hnewline hend hvariable hpath
  · have hne : charAt data start.bufferPos ≠ -1 := by
      rw [← hc]
      rintro rfl
      revert hnewline
      decide
    apply (getNextChar_returns_lt hstart.le_length hne).bind
    rintro ⟨_, next⟩ ⟨hruns, hlt⟩
    exact .ok ⟨found_of_lt hstart hruns (by decide) hlt, rfl⟩
  · exact .ok ⟨⟨⟨hstart.le, le_refl _, hstart.le_length, rfl,
      fun hkind => absurd rfl hkind, fun _ => hc.symm.trans hend⟩, hstart.mode,
      fun hkind => absurd rfl hkind⟩, rfl⟩
  · apply (lexVariableString_returns hstart.le_length hsteps).bind
    rintro next ⟨hruns, hlt⟩
    refine .ok ⟨found_of_lt hstart hruns (by decide) (hlt ?_), rfl⟩
    rw [← hc]
    simpa [isInLine, hend] using hnewline
  · apply (lexPathString_returns hstart.le_length hsteps).bind
    rintro next ⟨hruns, hlt⟩
    refine .ok ⟨found_of_lt hstart hruns (by decide) (hlt ?_), rfl⟩
    rw [← hc]
    have hnospace : isspace c = false := by
      by_contra hs
      simp [isNonNewlineSpace, Bool.of_not_eq_false hs] at hspace
      exact hnewline (by tauto)
    simp [isPathEnd, hnospace, hpath, hend]
  · exact lexRegular_returns hstart (by rwa [← hc])

/-- A token is found, unless a dollar sign is the last byte of the buffer. -/
theorem lex_ends (h : lexer.bufferPos ≤ data.length) :
  Ends (ReadsBehindDollar data) (lex data lexer) fun next => Found data lexer next.1 next.2
  := by
  rw [lex, peekNextChar_eq h]
  simp only [bind, Except.bind]
  split_ifs with hindent
  · have hne : charAt data lexer.bufferPos ≠ -1 := by
      intro heq
      rw [heq] at hindent
      exact absurd hindent.1 (by decide)
    apply Returns.ends
    apply (getNextChar_returns_lt h hne).bind
    rintro ⟨_, next⟩ ⟨hruns, hlt⟩
    apply (consumeWhile_returns (by decide) hruns.le_length (sub_lt_length_add_one data next)).bind
    intro last hspaces
    exact .ok (found_of_lt (refl h) (hruns.trans hspaces) (by decide)
      (lt_of_lt_of_le hlt hspaces.le))
  apply (skipSpaces_ends h (sub_lt_length_add_one data lexer)).bind
  rintro ⟨c, start⟩ ⟨hstart, hc, hspace⟩
  exact (lexBehind_returns hstart hc hspace).ends.imp fun _ hfound => hfound.1

/-! ### All tokens -/

theorem Lexed.stop_le_bufferPos {token : Token} (h : Lexed data lexer token lexer') :
  token.start + token.length.toNat ≤ lexer'.bufferPos
  := by
  have hle := h.le_stop
  rw [h.length_eq, toNat_ofNat']
  omega

/-- What is known of a token of a whole buffer. -/
structure Token.IsIn (data : Bytes) (token : Token) : Prop where
  stop_le : token.start + token.length.toNat ≤ data.length
  nonempty : data.length < 2 ^ 32 → token.tokenKind ≠ .endOfFile → token.tokenKind ≠ .string →
    0 < token.length.toNat
  endOfFile : token.tokenKind = .endOfFile → charAt data token.start = -1

theorem Lexed.isIn {token : Token} (h : Lexed data lexer token lexer') :
  Token.IsIn data token
  := by
  refine ⟨le_trans h.stop_le_bufferPos h.stop_le, ?_, h.endOfFile⟩
  intro hsize hend hstring
  have hlt := h.nonempty hend hstring
  have hle := h.stop_le
  rw [h.length_eq, toNat_ofNat']
  omega

/-- The tokens of several calls, from the position of the lexer on. -/
theorem lexAll_ends (modes : List LexingMode) (h : lexer.bufferPos ≤ data.length) :
  Ends (ReadsBehindDollar data) (lexAll data modes lexer) fun tokens =>
    tokens.length = modes.length
      ∧ tokens.Pairwise (fun token next => token.start + token.length.toNat ≤ next.start)
      ∧ ∀ token ∈ tokens, lexer.bufferPos ≤ token.start ∧ Token.IsIn data token
  := by
  induction modes generalizing lexer with
  | nil => exact ⟨rfl, List.Pairwise.nil, by simp⟩
  | cons mode modes ih =>
    have hmode : ({ lexer with mode := mode } : Lexer).bufferPos ≤ data.length := h
    apply (lex_ends hmode).bind
    rintro ⟨token, next⟩ hfound
    have hlexed := hfound.toLexed
    apply (ih hlexed.stop_le).bind
    rintro tokens ⟨hlength, hpairwise, hall⟩
    refine ⟨by rw [length_cons, length_cons, hlength], ?_, ?_⟩
    · refine pairwise_cons.mpr ⟨?_, hpairwise⟩
      intro token' htoken'
      exact le_trans hlexed.stop_le_bufferPos (hall token' htoken').1
    · intro token' htoken'
      obtain rfl | htoken' := mem_cons.mp htoken'
      · exact ⟨hlexed.le_start, hlexed.isIn⟩
      · obtain ⟨hle, hin⟩ := hall token' htoken'
        have hmoved := le_trans hlexed.le_start hlexed.le_stop
        exact ⟨le_trans hmoved hle, hin⟩

variable (data : Bytes)

theorem initial_le :
  Lexer.initial.bufferPos ≤ data.length
  := zero_le _

end Lexer

end LLBuild.Ninja

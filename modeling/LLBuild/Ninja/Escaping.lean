import LLBuild.Ninja.Expansion
import LLBuild.Ninja.LexerText
import LLBuild.Ninja.ParserProgress

/-!
# Escaped strings

A string is written in a manifest with escape sequences.  The lexer finds the end of what is
written, and the evaluation finds the string again: they agree on the escape sequences, whatever
the string is.

`Spells plain text s` says that `text` is a way to write `s`, where the characters that need no
escape are the plain ones.
-/

namespace LLBuild.Ninja

open Bool

open Nat

open List

open BinaryCoding Buffer

/-- A text spells a string: plain characters stand for themselves, and a space, a colon and
a dollar sign can be escaped. -/
inductive Spells (plain : UInt8 → Bool) : Bytes → Bytes → Prop
  | nil : Spells plain [] []
  | plain {c : UInt8} {text s : Bytes} (hc : plain c) (h : Spells plain text s) :
      Spells plain (c :: text) (c :: s)
  | escape {c : UInt8} {text s : Bytes} (hc : c ∈ ascii " :$") (h : Spells plain text s) :
      Spells plain (dollar :: c :: text) (c :: s)

variable (c : UInt8)

/-- The printable characters of ASCII. -/
def isPrintable : Bool := ' '.toUInt8 ≤ c && c ≤ '~'.toUInt8

/-- The characters that a path needs no escape for. -/
def isPathChar : Bool := isPrintable c && c ∉ ascii " :$|"

/-- The characters that the value of a variable needs no escape for. -/
def isValueChar : Bool := isPrintable c && c ≠ dollar

/-- A string as it is written as a path. -/
def escapePath (s : Bytes) : Bytes :=
  s.flatMap fun c => if c ∈ ascii " :$" then [dollar, c] else [c]

/-- A string as it is written as the value of a variable: leading spaces and dollar signs are
escaped. -/
def escapeValue (s : Bytes) : Bytes :=
  (s.takeWhile (· = ' '.toUInt8)).flatMap (fun c => [dollar, c])
    ++ (s.dropWhile (· = ' '.toUInt8)).flatMap fun c => if c = dollar then [dollar, c] else [c]

namespace Spells

variable {plain : UInt8 → Bool} {text text' s s' : Bytes}

theorem append (h : Spells plain text s) (h' : Spells plain text' s') :
  Spells plain (text ++ text') (s ++ s')
  := by
  induction h with
  | nil => exact h'
  | plain hc h ih => exact .plain hc ih
  | escape hc h ih => exact .escape hc ih

/-- A string is spelled character by character. -/
theorem flatMap {f : UInt8 → Bytes} (h : ∀ c ∈ s, Spells plain (f c) [c]) :
  Spells plain (s.flatMap f) s
  := by
  induction s with
  | nil => exact .nil
  | cons c s ih =>
    obtain ⟨hc, h⟩ := forall_mem_cons.mp h
    exact hc.append (ih h)

end Spells

variable {s text : Bytes}

theorem spells_escapePath (h : ∀ c ∈ s, isPrintable c ∧ c ≠ '|'.toUInt8) :
  Spells isPathChar (escapePath s) s
  := by
  apply Spells.flatMap
  intro c hc
  obtain ⟨hprintable, hbar⟩ := h c hc
  split_ifs with hescape
  · exact .escape hescape .nil
  · refine .plain ?_ .nil
    have hmem : c ∉ ascii " :$|" := by
      intro hmem
      obtain hmem | rfl : c ∈ ascii " :$" ∨ c = '|'.toUInt8 :=
        mem_append.mp (show c ∈ ascii " :$" ++ ['|'.toUInt8] from hmem) |>.imp_right
          mem_singleton.mp
      · exact hescape hmem
      · exact hbar rfl
    rw [isPathChar, hprintable, decide_eq_true hmem]
    rfl

theorem spells_escapeValue (h : ∀ c ∈ s, isPrintable c) :
  Spells isValueChar (escapeValue s) s
  := by
  have hleading : Spells isValueChar
      ((s.takeWhile (· = ' '.toUInt8)).flatMap ([dollar, ·]))
      (s.takeWhile (· = ' '.toUInt8)) := by
    apply Spells.flatMap
    intro c hc
    have hspace := mem_takeWhile_imp hc
    rw [decide_eq_true_eq] at hspace
    rw [hspace]
    exact .escape (by decide) .nil
  have hrest : Spells isValueChar ((s.dropWhile (· = ' '.toUInt8)).flatMap
      fun c => if c = dollar then [dollar, c] else [c]) (s.dropWhile (· = ' '.toUInt8)) := by
    apply Spells.flatMap
    intro c hc
    have hprintable := h c ((dropWhile_sublist _).subset hc)
    split_ifs with hdollar
    · rw [hdollar]
      exact .escape (by decide) .nil
    · refine .plain ?_ .nil
      rw [isValueChar, hprintable, decide_eq_true hdollar]
      rfl
  have happend := hleading.append hrest
  rwa [takeWhile_append_dropWhile] at happend

/-! ### The evaluation -/

/-- A character that is not a dollar sign, before a string. -/
theorem Reads.cons {c : UInt8} {string : Bytes} {ps : List StringPiece} (hc : c ≠ dollar)
    (h : Reads string ps) :
  Reads (c :: string) (.text [c] :: ps)
    ∨ ∃ text qs, ps = .text text :: qs ∧ Reads (c :: string) (.text (c :: text) :: qs)
  := by
  have hsingle (hstring : ∀ d ∈ string.head?, d = dollar) :
      Reads (c :: string) (.text [c] :: ps) := by
    have htext : dollar ∉ [c] := by simpa using hc.symm
    exact .text (cons_ne_nil _ _) htext hstring h
  cases h with
  | text htext hdollar hrest h =>
    right
    refine ⟨_, _, rfl, ?_⟩
    exact .text (cons_ne_nil _ _) (not_mem_cons_of_ne_of_not_mem hc.symm hdollar)
      hrest h
  | _ =>
    left
    exact hsingle (by simp)

variable {plain : UInt8 → Bool}

/-- The pieces of what is spelled are texts, before those of the rest. -/
theorem Spells.exists_reads {rest : Bytes} {tail : List StringPiece} (h : Spells plain text s)
    (hplain : plain dollar = false) (hrest : Reads rest tail)
    (htail : ∀ first ps, tail ≠ .text first :: ps) :
  ∃ texts : List Bytes, Reads (text ++ rest) (texts.map .text ++ tail) ∧ texts.flatten = s
  := by
  induction h with
  | nil => exact ⟨[], hrest, rfl⟩
  | @plain c text s hc h ih =>
    obtain ⟨texts, hreads, rfl⟩ := ih
    have hne : c ≠ dollar := by
      rintro rfl
      rw [hplain] at hc
      cases hc
    obtain hcons | ⟨first, qs, hqs, hcons⟩ := hreads.cons hne
    · exact ⟨[c] :: texts, hcons, rfl⟩
    · cases texts with
      | nil => exact absurd hqs (htail first qs)
      | cons text' texts =>
        cases hqs
        exact ⟨(c :: first) :: texts, hcons, rfl⟩
  | @escape c text s hc h ih =>
    obtain ⟨texts, hreads, rfl⟩ := ih
    exact ⟨[c] :: texts, .escape hc hreads, rfl⟩

open Manifest (Output Loader Scope)

theorem messages_chars (s : Bytes) :
  Output.messages (Output.chars s) = []
  := by
  rw [Output.messages, Output.chars, flatMap_map]
  exact flatMap_eq_nil_iff.mpr fun _ _ => rfl

/-- A text evaluates to a string, without an error, whatever the variables are. -/
structure Evaluates (text s : Bytes) : Prop where
  evalString : ∀ lookup error, Manifest.evalString text lookup error = some (Output.chars s)
  evalInScopes : ∀ scopes : List Scope, Loader.evalInScopes scopes text = Output.chars s

theorem Spells.evaluates (h : Spells plain text s) (hplain : plain dollar = false) :
  Evaluates text s
  := by
  obtain ⟨texts, hreads, rfl⟩ := h.exists_reads hplain .nil nofun
  rw [append_nil, append_nil] at hreads
  have hpieces : pieces text = texts.map .text := (hreads.eq_scan (lt_succ_self _)).symm
  have htemplate (error : Bytes → Bytes) :
      Manifest.template error text = (texts.map Output.chars).map .emit := by
    rw [Manifest.template, hpieces, map_map, map_map]
    rfl
  have hchars : (texts.map Output.chars).flatten = Output.chars texts.flatten := by
    exact map_flatten.symm
  constructor
  · intro lookup error
    rw [Manifest.evalString, htemplate, Template.substitute_map_emit, hchars]
  · intro scopes
    rw [Loader.evalInScopes, htemplate, Template.render_map_emit, hchars]

/-- What is left of a text that is cut off spells less, and a dollar sign may be left over. -/
theorem Spells.exists_of_prefix (h : Spells plain text s) {cut : Bytes} (hcut : cut <+: text)
    (hlength : cut.length < text.length) :
  ∃ s' : Bytes, s'.length < s.length
    ∧ (Spells plain cut s' ∨ ∃ text', cut = text' ++ [dollar] ∧ Spells plain text' s')
  := by
  induction h generalizing cut with
  | nil => exact absurd hlength (Nat.not_lt_zero _)
  | @plain c text s hc h ih =>
    cases cut with
    | nil => exact ⟨[], Nat.zero_lt_succ _, .inl .nil⟩
    | cons c' cut =>
      obtain ⟨rfl, hrest⟩ := cons_prefix_cons.mp hcut
      obtain ⟨s', hlt, hs' | ⟨text', rfl, hs'⟩⟩ := ih hrest (Nat.lt_of_succ_lt_succ hlength)
      · exact ⟨c' :: s', Nat.succ_lt_succ hlt, .inl (.plain hc hs')⟩
      · exact ⟨c' :: s', Nat.succ_lt_succ hlt, .inr ⟨c' :: text', rfl, .plain hc hs'⟩⟩
  | @escape c text s hc h ih =>
    cases cut with
    | nil => exact ⟨[], Nat.zero_lt_succ _, .inl .nil⟩
    | cons d cut =>
      obtain ⟨rfl, hrest⟩ := cons_prefix_cons.mp hcut
      cases cut with
      | nil => exact ⟨[], Nat.zero_lt_succ _, .inr ⟨[], rfl, .nil⟩⟩
      | cons c' cut =>
        obtain ⟨rfl, hrest'⟩ := cons_prefix_cons.mp hrest
        have hlength := Nat.lt_of_succ_lt_succ (Nat.lt_of_succ_lt_succ hlength)
        obtain ⟨s', hlt, hs' | ⟨text', rfl, hs'⟩⟩ := ih hrest' hlength
        · exact ⟨c' :: s', Nat.succ_lt_succ hlt, .inl (.escape hc hs')⟩
        · exact ⟨c' :: s', Nat.succ_lt_succ hlt,
            .inr ⟨dollar :: c' :: text', rfl, .escape hc hs'⟩⟩

theorem Spells.not_evaluates_prefix (h : Spells plain text s) (hplain : plain dollar = false)
    {cut : Bytes} (hcut : cut <+: text) (hlength : cut.length < text.length) :
  ¬ Evaluates cut s
  := by
  intro hevaluates
  have hchars := hevaluates.evalInScopes []
  obtain ⟨s', hlt, hs' | ⟨text', rfl, hs'⟩⟩ := h.exists_of_prefix hcut hlength
  · rw [(hs'.evaluates hplain).evalInScopes] at hchars
    have heq := congrArg List.length hchars
    rw [Output.chars, Output.chars, length_map, length_map] at heq
    exact hlt.ne heq
  · -- The dollar sign at the end is an error.
    obtain ⟨texts, hreads, -⟩ := hs'.exists_reads hplain .atEnd nofun
    have htemplate (error : Bytes → Bytes) : Manifest.template error (text' ++ [dollar])
        = (texts.map Output.chars
          ++ [[Output.error (error (ascii "invalid '$'-escape at end of string"))]]).map
            .emit := by
      rw [Manifest.template, pieces, ← hreads.eq_scan (lt_succ_self _), map_append, map_append,
        map_map, map_map]
      rfl
    rw [Loader.evalInScopes, htemplate, Template.render_map_emit, flatten_append] at hchars
    have hmem := hchars ▸ mem_append_right _ mem_cons_self
    obtain ⟨c, -, hc⟩ := mem_map.mp hmem
    cases hc

/-- The loader finds the string, and reports nothing. -/
theorem Evaluates.evalToken_eq {value : Manifest.Token} (h : Evaluates value.text s) (l : Loader) :
  l.evalToken value = (s, l)
  := by
  rw [Loader.evalToken, h.evalInScopes, Manifest.Output.result_chars, messages_chars, Loader.report,
    map_nil, append_nil]

/-! ### The lexer -/

namespace Lexer

variable {data text rest s : Bytes} {lexer : Lexer} {steps : ℕ} {c : UInt8}

theorem toInt_of_isPrintable (h : isPrintable c) :
  c.toInt8.toInt = c.toNat ∧ 32 ≤ c.toNat ∧ c.toNat ≤ 126
  := by
  rw [isPrintable, and_eq_true, decide_eq_true_eq, decide_eq_true_eq] at h
  have hle : c.toNat ≤ 126 := h.2
  exact ⟨toInt_of_lt (lt_of_le_of_lt hle (by decide)), h.1, hle⟩

theorem isPathEnd_of_isPathChar (h : isPathChar c) :
  isPathEnd c.toInt8.toInt = false
  := by
  obtain ⟨hprintable, hspecial⟩ := and_eq_true_iff.mp h
  obtain ⟨hint, hle, -⟩ := toInt_of_isPrintable hprintable
  have hne {ch : Char} (hch : code ch = ch.toUInt8.toInt8.toInt)
      (hmem : ch.toUInt8 ∈ ascii " :$|") : c.toInt8.toInt ≠ code ch := by
    rw [Ne, toInt_eq_code_iff hch]
    rintro rfl
    exact of_decide_eq_true hspecial hmem
  have hspace : c.toInt8.toInt ≠ code ' ' := hne rfl (by decide)
  have hcolon : c.toInt8.toInt ≠ code ':' := hne rfl (by decide)
  have hbar : c.toInt8.toInt ≠ code '|' := hne rfl (by decide)
  have hreturn : code '\r' = 13 := rfl
  rw [eq_false_iff]
  intro hend
  simp only [isPathEnd, isspace, or_eq_true, and_eq_true, decide_eq_true_eq] at hend
  omega

theorem isNewline_of_mem_escapes :
  ∀ c ∈ ascii " :$", isNewline c = false
  := by decide +kernel

theorem isNewline_of_isPrintable (h : isPrintable c) :
  isNewline c = false
  := by
  rw [isNewline, or_eq_false_iff, decide_eq_false_iff_not, decide_eq_false_iff_not]
  constructor
  · rintro rfl
    exact absurd h (by decide)
  · rintro rfl
    exact absurd h (by decide)

theorem isInLine_of_isPrintable (h : isPrintable c) :
  isInLine c.toInt8.toInt
  := by
  obtain ⟨hint, hle, -⟩ := toInt_of_isPrintable h
  have hline : code '\n' = 10 := rfl
  have hreturn : code '\r' = 13 := rfl
  rw [isInLine, not_eq_true', eq_false_iff]
  intro hend
  simp only [or_eq_true, decide_eq_true_eq] at hend
  omega

theorem ne_dollar_of_isPathChar (h : isPathChar c) :
  c ≠ dollar
  := by
  rintro rfl
  exact absurd h (by decide)

/-- A path is passed up to a character that ends it. -/
theorem lexPathString_spells (h : Spells isPathChar text s)
    (hat : At data lexer.bufferPos (text ++ rest)) (hrest : isPathEnd (nextCode rest))
    (hsteps : text.length < steps) :
  lexPathString data steps lexer = .ok (lexer.forward text.length)
  := by
  induction h generalizing lexer steps with
  | nil =>
    obtain ⟨steps, rfl⟩ := exists_eq_add_one.mpr (zero_lt_of_lt hsteps)
    rw [lexPathString_end hat hrest, length_nil, forward_zero]
  | @plain c text s hc h ih =>
    obtain ⟨steps, rfl⟩ := exists_eq_add_one.mpr (zero_lt_of_lt hsteps)
    have hnext : At data (lexer.forward 1).bufferPos (text ++ rest) := hat.tail
    have hprintable := (and_eq_true_iff.mp hc).1
    rw [lexPathString_plain hat (ne_dollar_of_isPathChar hc) (isPathEnd_of_isPathChar hc)
      (isNewline_of_isPrintable hprintable), ih hnext (lt_of_succ_lt_succ hsteps),
      forward_forward, length_cons, add_comm]
  | @escape c text s hc h ih =>
    obtain ⟨steps, rfl⟩ := exists_eq_add_one.mpr (zero_lt_of_lt hsteps)
    have hnext : At data (lexer.forward 2).bufferPos (text ++ rest) := hat.tail.tail
    rw [length_cons, length_cons] at hsteps
    rw [lexPathString_escape hat (isNewline_of_mem_escapes c hc), ih hnext (by omega),
      forward_forward, length_cons, length_cons, add_comm]

/-- The value of a variable is passed up to the end of the line. -/
theorem lexVariableString_spells (h : Spells isValueChar text s)
    (hat : At data lexer.bufferPos (text ++ rest)) (hrest : isInLine (nextCode rest) = false)
    (hsteps : text.length < steps) :
  lexVariableString data steps lexer = .ok (lexer.forward text.length)
  := by
  induction h generalizing lexer steps with
  | nil =>
    obtain ⟨steps, rfl⟩ := exists_eq_add_one.mpr (zero_lt_of_lt hsteps)
    rw [lexVariableString_end hat hrest, length_nil, forward_zero]
  | @plain c text s hc h ih =>
    obtain ⟨steps, rfl⟩ := exists_eq_add_one.mpr (zero_lt_of_lt hsteps)
    have hnext : At data (lexer.forward 1).bufferPos (text ++ rest) := hat.tail
    obtain ⟨hprintable, hdollar⟩ := and_eq_true_iff.mp hc
    rw [lexVariableString_plain hat (of_decide_eq_true hdollar)
      (isInLine_of_isPrintable hprintable) (isNewline_of_isPrintable hprintable),
      ih hnext (lt_of_succ_lt_succ hsteps), forward_forward, length_cons, add_comm]
  | @escape c text s hc h ih =>
    obtain ⟨steps, rfl⟩ := exists_eq_add_one.mpr (zero_lt_of_lt hsteps)
    have hnext : At data (lexer.forward 2).bufferPos (text ++ rest) := hat.tail.tail
    rw [length_cons, length_cons] at hsteps
    rw [lexVariableString_escape hat (isNewline_of_mem_escapes c hc), ih hnext (by omega),
      forward_forward, length_cons, length_cons, add_comm]

/-- What is spelled starts with a plain character or with a dollar sign. -/
theorem nextCode_of_spells {p : ℤ → Prop} (h : Spells plain text s)
    (hs : s ≠ []) (hplain : ∀ c, plain c → p c.toInt8.toInt) (hdollar : p (code '$')) :
  p (nextCode (text ++ rest))
  := by
  cases h with
  | nil => exact absurd rfl hs
  | @plain c text s hc h => exact hplain c hc
  | escape hc h => exact hdollar

theorem stops_of_spells (h : Spells plain text s) (hs : s ≠ [])
    (hspace : isNonNewlineSpace (nextCode (text ++ rest)) = false) (hplain : plain dollar = false) :
  Stops (text ++ rest)
  := by
  refine ⟨hspace, ?_⟩
  intro heq
  cases h with
  | nil => exact absurd rfl hs
  | @plain c text s hc h =>
    obtain rfl : c = dollar := (toInt_eq_code_iff rfl).mp heq
    rw [hplain] at hc
    cases hc
  | @escape c text s hc h => exact ⟨c, text ++ rest, rfl, isNewline_of_mem_escapes c hc⟩

variable {spaces : Bytes}

section

variable (hspaces : ∀ c ∈ spaces, isNonNewlineSpace c.toInt8.toInt)
include hspaces

section

variable (hcolumn : spaces = [] ∨ lexer.columnNumber ≠ 0)
include hcolumn

/-- A path is one token. -/
theorem lex_path
    (hmode : lexer.mode = .pathString) (h : Spells isPathChar text s) (hs : s ≠ [])
    (hat : At data lexer.bufferPos (spaces ++ (text ++ rest))) (hrest : isPathEnd (nextCode rest)) :
  lex data lexer
    = .ok (setTokenKind ((lexer.forward spaces.length).forward text.length)
        (lexer.forward spaces.length) .string, (lexer.forward spaces.length).forward text.length)
  := by
  have hstart : isPathEnd (nextCode (text ++ rest)) = false :=
    nextCode_of_spells (p := (isPathEnd · = false)) h hs (fun _ => isPathEnd_of_isPathChar)
      (by decide)
  have hend : nextCode (text ++ rest) ≠ -1 ∧ nextCode (text ++ rest) ≠ code ':'
      ∧ nextCode (text ++ rest) ≠ code '|' ∧ isspace (nextCode (text ++ rest)) = false := by
    simp only [isPathEnd, or_eq_false_iff, decide_eq_false_iff_not] at hstart
    tauto
  obtain ⟨hne, hcolon, hbar, hspace⟩ := hend
  have hnewline : ¬ (nextCode (text ++ rest) = code '\n'
      ∨ nextCode (text ++ rest) = code '\r') := by
    rintro (heq | heq)
    · rw [heq] at hspace
      exact absurd hspace (by decide)
    · rw [heq] at hspace
      exact absurd hspace (by decide)
  have hstops : Stops (text ++ rest) :=
    stops_of_spells h hs (by rw [isNonNewlineSpace, hspace]; rfl) (by decide)
  have hat' : At data (lexer.forward spaces.length).bufferPos (text ++ rest) := hat.append
  have hlength := length_lt_of_at hat'
  rw [length_append] at hlength
  rw [lex_at hspaces hcolumn hat hstops, lexBehind, if_neg hnewline, if_neg hne, if_neg, if_pos,
    lexPathString_spells h hat' hrest (by omega)]
  · rfl
  · exact ⟨hmode, hcolon, hbar⟩
  · rw [forward, hmode]
    decide

/-- The value of a variable is one token. -/
theorem lex_value
    (hmode : lexer.mode = .variableString) (h : Spells isValueChar text s) (hs : s ≠ [])
    (hspace : isNonNewlineSpace (nextCode (text ++ rest)) = false)
    (hat : At data lexer.bufferPos (spaces ++ (text ++ rest)))
    (hrest : isInLine (nextCode rest) = false) :
  lex data lexer
    = .ok (setTokenKind ((lexer.forward spaces.length).forward text.length)
        (lexer.forward spaces.length) .string, (lexer.forward spaces.length).forward text.length)
  := by
  have hstart : isInLine (nextCode (text ++ rest)) :=
    nextCode_of_spells (p := (isInLine · = true)) h hs
      (fun _ hc => isInLine_of_isPrintable (and_eq_true_iff.mp hc).1) (by decide)
  have hend : nextCode (text ++ rest) ≠ -1 ∧ nextCode (text ++ rest) ≠ code '\n'
      ∧ nextCode (text ++ rest) ≠ code '\r' := by
    simp only [isInLine, not_eq_true', or_eq_false_iff, decide_eq_false_iff_not] at hstart
    tauto
  obtain ⟨hne, hline, hreturn⟩ := hend
  have hmode' : (lexer.forward spaces.length).mode = .variableString := hmode
  have hat' : At data (lexer.forward spaces.length).bufferPos (text ++ rest) := hat.append
  have hlength := length_lt_of_at hat'
  rw [length_append] at hlength
  rw [lex_at hspaces hcolumn hat (stops_of_spells h hs hspace (by decide)), lexBehind,
    if_neg (not_or.mpr ⟨hline, hreturn⟩), if_neg hne, if_pos hmode',
    lexVariableString_spells h hat' hrest (by omega)]
  rfl

end

end

/-- What a token has of a text: its length is a number of 32 bits. -/
def cut (text : Bytes) : Bytes := text.take (text.length % 2 ^ 32)

theorem cut_eq (hsize : text.length < 2 ^ 32) :
  cut text = text
  := by
  rw [cut, Nat.mod_eq_of_lt hsize, take_length]

theorem length_cut_lt (hsize : 2 ^ 32 ≤ text.length) :
  (cut text).length < text.length
  := by
  have hmod := Nat.mod_lt text.length (show 2 ^ 32 > 0 by decide)
  rw [cut, length_take]
  omega

theorem text_setTokenKind {start : Lexer} {kind : Token.Kind}
    (hat : At data start.bufferPos (text ++ rest)) :
  ((start.forward text.length).setTokenKind start kind).text data = cut text
  := by
  have hlength : ((start.forward text.length).setTokenKind start kind).length.toNat
      = text.length % 2 ^ 32 := by
    rw [setTokenKind]
    simp only [forward, Nat.add_sub_cancel_left]
    exact UInt32.toNat_ofNat
  rw [Token.text, hlength, slice, Nat.add_sub_cancel_left, cut]
  exact (congrArg (take _) hat.drop).trans (take_append_of_le_length (Nat.mod_le _ _))

section

variable (hspaces : ∀ c ∈ spaces, isNonNewlineSpace c.toInt8.toInt)
include hspaces

section

variable (hcolumn : spaces = [] ∨ lexer.columnNumber ≠ 0)
include hcolumn

theorem lex_equals
    (hmode : lexer.mode = .none ∨ lexer.mode = .identifierSpecific)
    (hat : At data lexer.bufferPos (spaces ++ ('='.toUInt8 :: rest))) :
  lex data lexer
    = .ok (setTokenKind ((lexer.forward spaces.length).forward 1)
        (lexer.forward spaces.length) .equals, (lexer.forward spaces.length).forward 1)
  := by
  have hat' : At data (lexer.forward spaces.length).bufferPos ('='.toUInt8 :: rest) := hat.append
  have hcode : nextCode ('='.toUInt8 :: rest) = code '=' := by
    rw [nextCode]
    decide
  have hstops : Stops ('='.toUInt8 :: rest) :=
    ⟨by rw [hcode]; decide, fun heq => absurd (hcode.symm.trans heq) (by decide)⟩
  have hmode' : (lexer.forward spaces.length).mode = .none
    ∨ (lexer.forward spaces.length).mode = .identifierSpecific := hmode
  rw [lex_at hspaces hcolumn hat hstops, lexBehind, hcode, if_neg (by decide), if_neg (by decide),
    if_neg, if_neg, lexRegular, getNextChar_cons hat' (by decide)]
  · rfl
  · obtain hmode' | hmode' := hmode' <;> simp [hmode']
  · obtain hmode' | hmode' := hmode' <;> simp [hmode']

theorem lex_newline (hat : At data lexer.bufferPos (spaces ++ ('\n'.toUInt8 :: rest))) :
  ∃ tok lexer', lex data lexer = .ok (tok, lexer') ∧ tok.tokenKind = .newline
  := by
  have hat' : At data (lexer.forward spaces.length).bufferPos ('\n'.toUInt8 :: rest) := hat.append
  have hcode : nextCode ('\n'.toUInt8 :: rest) = code '\n' := by
    rw [nextCode]
    decide
  have hstops : Stops ('\n'.toUInt8 :: rest) :=
    ⟨by rw [hcode]; decide, fun heq => absurd (hcode.symm.trans heq) (by decide)⟩
  obtain ⟨⟨c, lexer'⟩, hnext, -⟩ := getNextChar_returns hat'.le
  rw [lex_at hspaces hcolumn hat hstops, lexBehind, hcode, hnext]
  exact ⟨_, _, rfl, rfl⟩

end

end

end Lexer

/-! ### The parser -/

namespace Parser

variable {data rest : Bytes} {p : Parser}

theorem consumeToken_of_lex {tok : Token} {lexer : Lexer} (h : p.lexer.lex data = .ok (tok, lexer))
    (hkind : tok.tokenKind ≠ .comment) :
  consumeToken data p = .ok ⟨lexer, tok⟩
  := by
  rw [consumeToken, getNextNonCommentToken, h]
  simp only [bind, Except.bind]
  rw [if_neg hkind]
  rfl

theorem consumeExpectedToken_of_lex {tok : Token} {lexer : Lexer}
    (h : p.lexer.lex data = .ok (tok, lexer)) (hkind : tok.tokenKind ≠ .comment) :
  consumeExpectedToken data p = .ok (p.tok.toManifest data, ⟨lexer, tok⟩)
  := by
  rw [consumeExpectedToken, consumeToken_of_lex h hkind]
  rfl

open Lexer in
/-- The value of a variable is what is written behind the equals sign. -/
theorem parseBindingInternal_value (hkind : p.tok.tokenKind = .identifier)
    (hmode : p.lexer.mode = .none ∨ p.lexer.mode = .identifierSpecific)
    (hcolumn : p.lexer.columnNumber ≠ 0) (hcolumn' : p.lexer.columnNumber + 2 ≠ 0)
    (h : Spells isValueChar text s)
    (hspace : isNonNewlineSpace (nextCode (text ++ '\n'.toUInt8 :: rest)) = false)
    (hat : At data p.lexer.bufferPos (ascii " = " ++ (text ++ '\n'.toUInt8 :: rest))) :
  Ends (ReadsBehindDollar data) (parseBindingInternal data p) fun next =>
    ∃ value, next.1 = .ok (p.tok.toManifest data, value) ∧ value.text = cut text
  := by
  have hspaces : ∀ c ∈ ascii " ", isNonNewlineSpace c.toInt8.toInt := by decide +kernel
  obtain ⟨equals, hequals, hkind₁⟩ : ∃ equals, p.lexer.lex data = .ok (equals, p.lexer.forward 2)
      ∧ equals.tokenKind = .equals := by
    have hlex := lex_equals hspaces (.inr hcolumn) hmode
      (show At data p.lexer.bufferPos (ascii " " ++ ('='.toUInt8
        :: (ascii " " ++ (text ++ '\n'.toUInt8 :: rest)))) from hat)
    rw [forward_forward] at hlex
    exact ⟨_, hlex, rfl⟩
  have hkind₁' : equals.tokenKind ≠ .comment := by rw [hkind₁]; decide
  rw [parseBindingInternal, if_neg (not_not.mpr hkind)]
  refine .bind_of_eq (consumeExpectedToken_of_lex hequals hkind₁') ?_
  dsimp only
  rw [if_neg (not_not.mpr hkind₁)]
  have hat₂ : At data (setMode .variableString ⟨p.lexer.forward 2, equals⟩).lexer.bufferPos
      (ascii " " ++ (text ++ '\n'.toUInt8 :: rest)) := hat.tail.tail
  by_cases hs : s = []
  · subst hs
    cases h
    rw [nil_append] at hat₂
    obtain ⟨newline, lexer, hlex, hnewline⟩ := lex_newline hspaces (.inr hcolumn') hat₂
    have hle := ((lex_ends hat₂.le).of_eq hlex).stop_le
    refine .bind_of_eq (consumeExpectedToken_of_lex hlex (by rw [hnewline]; decide)) ?_
    have hkind₂ : (setMode .none ⟨lexer, newline⟩).tok.tokenKind = .newline := hnewline
    dsimp only
    rw [if_pos hkind₂]
    apply (consumeExpectedToken_ends (p := setMode .none ⟨lexer, newline⟩) hle).bind
    rintro ⟨value, next⟩ -
    exact ⟨_, rfl, rfl⟩
  · obtain ⟨string, lexer, hlex, hstring, htext, hlexer⟩ : ∃ string lexer,
        Lexer.lex data (setMode .variableString ⟨p.lexer.forward 2, equals⟩).lexer
          = .ok (string, lexer) ∧ string.tokenKind = .string ∧ string.text data = cut text
          ∧ At data lexer.bufferPos ('\n'.toUInt8 :: rest) := by
      have hline : isInLine (nextCode ('\n'.toUInt8 :: rest)) = false := by
        rw [nextCode]
        decide
      exact ⟨_, _, lex_value hspaces (.inr hcolumn') rfl h hs hspace hat₂ hline, rfl,
        text_setTokenKind hat₂.append, hat₂.append.append⟩
    refine .bind_of_eq (consumeExpectedToken_of_lex hlex (by rw [hstring]; decide)) ?_
    have hkind₂ : (setMode .none ⟨lexer, string⟩).tok.tokenKind = .string := hstring
    dsimp only
    rw [if_neg (by rw [hkind₂]; decide), if_neg (not_not.mpr hkind₂)]
    have hat₃ : At data (setMode .none ⟨lexer, string⟩).lexer.bufferPos
        ([] ++ '\n'.toUInt8 :: rest) := hlexer
    obtain ⟨newline, lexer', hlex', hnewline⟩ := lex_newline (forall_mem_nil _) (.inl rfl)
      hat₃
    have hle := ((lex_ends hat₃.le).of_eq hlex').stop_le
    refine .bind_of_eq (consumeExpectedToken_of_lex hlex' (by rw [hnewline]; decide)) ?_
    dsimp only
    rw [endLine, consumeIfToken, if_pos hnewline]
    apply Ends.bind (p := fun next => next.1 = true)
    · apply (consumeToken_ends (p := ⟨lexer', newline⟩) hle).bind
      exact fun _ _ => rfl
    · rintro ⟨_, next⟩ rfl
      exact ⟨_, rfl, htext⟩

end Parser

/-! ### Escaped strings -/

open Lexer

/-- A text is read as a path: wherever a path is expected, behind spaces and before a character
that ends a path, it is one token of the kind string, which evaluates to `s` without an error. -/
def ReadsAsPath (text s : Bytes) : Prop :=
  ∀ (data spaces rest : Bytes) (lexer : Lexer), lexer.mode = .pathString →
    (∀ c ∈ spaces, isNonNewlineSpace c.toInt8.toInt) → spaces = [] ∨ lexer.columnNumber ≠ 0 →
    At data lexer.bufferPos (spaces ++ (text ++ rest)) → isPathEnd (nextCode rest) →
    ∃ token, lexer.lex data = .ok (token, (lexer.forward spaces.length).forward text.length)
      ∧ token.tokenKind = .string ∧ token.start = lexer.bufferPos + spaces.length
      ∧ Evaluates (token.text data) s ∧ ∀ l : Loader, l.evalToken (token.toManifest data) = (s, l)

/-- A text is read as the value of a variable: behind the name of a variable and an equals sign,
and before a newline, it gives a binding of the variable that evaluates to `s` without an error.
The number of the column must not have come back to zero. -/
def ReadsAsValue (text s : Bytes) : Prop :=
  ∀ (data rest : Bytes) (p : Parser), p.tok.tokenKind = .identifier →
    p.lexer.mode = .none ∨ p.lexer.mode = .identifierSpecific →
    p.lexer.columnNumber ≠ 0 → p.lexer.columnNumber + 2 ≠ 0 →
    At data p.lexer.bufferPos (ascii " = " ++ (text ++ '\n'.toUInt8 :: rest)) →
    Ends (ReadsBehindDollar data) (Parser.parseBindingInternal data p) fun next =>
      ∃ value, next.1 = .ok (p.tok.toManifest data, value) ∧ Evaluates value.text s
        ∧ ∀ l : Loader, l.evalToken value = (s, l)

/-- The first character of a value is not a space. -/
theorem nextCode_escapeValue {s rest : Bytes} (h : ∀ c ∈ s, isPrintable c) :
  isNonNewlineSpace (nextCode (escapeValue s ++ '\n'.toUInt8 :: rest)) = false
  := by
  have hdollar : isNonNewlineSpace dollar.toInt8.toInt = false := by decide
  cases s with
  | nil =>
    have hnewline : isNonNewlineSpace '\n'.toUInt8.toInt8.toInt = false := by decide
    exact hnewline
  | cons c s =>
    rw [escapeValue, takeWhile_cons, dropWhile_cons]
    split_ifs with hspace
    · exact hdollar
    · rw [flatMap_nil, nil_append, flatMap_cons]
      split_ifs with hc
      · exact hdollar
      · obtain ⟨hint, hle, -⟩ := toInt_of_isPrintable (h c mem_cons_self)
        have hne : c.toInt8.toInt ≠ code ' ' := by
          rw [Ne, toInt_eq_code_iff rfl]
          exact fun heq => hspace (decide_eq_true heq)
        have hreturn : code '\r' = 13 := rfl
        have hnospace : isspace c.toInt8.toInt = false := by
          rw [eq_false_iff]
          intro hspace
          simp only [isspace, or_eq_true, and_eq_true, decide_eq_true_eq] at hspace
          omega
        rw [append_assoc, singleton_append, nextCode, isNonNewlineSpace, hnospace]
        rfl

theorem readsAsPath_escapePath (hs : s ≠ [])
    (hpath : ∀ c ∈ s, isPrintable c ∧ c ≠ '|'.toUInt8) (hsize : (escapePath s).length < 2 ^ 32) :
  ReadsAsPath (escapePath s) s
  := by
  have hspells := spells_escapePath hpath
  intro data spaces rest lexer hmode hspaces hcolumn hat hrest
  have hat' : At data (lexer.forward spaces.length).bufferPos (escapePath s ++ rest) := hat.append
  refine ⟨_, lex_path hspaces hcolumn hmode hspells hs hat hrest, rfl, rfl, ?_⟩
  have hevaluates := hspells.evaluates (by decide)
  rw [← cut_eq hsize, ← text_setTokenKind hat'] at hevaluates
  exact ⟨hevaluates, hevaluates.evalToken_eq⟩

theorem readsAsValue_escapeValue (hvalue : ∀ c ∈ s, isPrintable c)
    (hsize : (escapeValue s).length < 2 ^ 32) :
  ReadsAsValue (escapeValue s) s
  := by
  have hspells := spells_escapeValue hvalue
  intro data rest p hkind hmode hcolumn hcolumn' hat
  refine (Parser.parseBindingInternal_value hkind hmode hcolumn hcolumn' hspells
    (nextCode_escapeValue hvalue) hat).imp ?_
  rintro next ⟨value, hnext, htext⟩
  have hevaluates := hspells.evaluates (by decide)
  rw [← cut_eq hsize, ← htext] at hevaluates
  exact ⟨value, hnext, hevaluates, hevaluates.evalToken_eq⟩

/-- The length of a token is a number of 32 bits. -/
theorem not_readsAsPath (hs : s ≠ [])
    (hpath : ∀ c ∈ s, isPrintable c ∧ c ≠ '|'.toUInt8) (hsize : 2 ^ 32 ≤ (escapePath s).length) :
  ¬ ReadsAsPath (escapePath s) s
  := by
  intro hreads
  have hat : At (escapePath s) 0 ([] ++ (escapePath s ++ [])) := by
    rw [append_nil]
    exact .zero _
  obtain ⟨token, hlex, -, -, hevaluates, -⟩ := hreads (escapePath s) [] []
    ⟨0, 1, 0, .pathString⟩ rfl (forall_mem_nil _) (.inl rfl) hat (by decide)
  have hspells := spells_escapePath hpath
  rw [lex_path (forall_mem_nil _) (.inl rfl) rfl hspells hs hat (by decide)] at hlex
  obtain rfl := (Prod.mk.inj (Except.ok.inj hlex)).1
  rw [text_setTokenKind hat.append] at hevaluates
  exact hspells.not_evaluates_prefix (by decide) (List.take_prefix _ _) (length_cut_lt hsize)
    hevaluates

theorem not_readsAsValue (hvalue : ∀ c ∈ s, isPrintable c)
    (hsize : 2 ^ 32 ≤ (escapeValue s).length) :
  ¬ ReadsAsValue (escapeValue s) s
  := by
  intro hreads
  obtain ⟨data, hdata⟩ : ∃ data, data = ascii " = " ++ (escapeValue s ++ ['\n'.toUInt8]) :=
    ⟨_, rfl⟩
  obtain ⟨p, hkind, hposition, hmode, hcolumn, hcolumn'⟩ : ∃ p : Parser,
      p.tok.tokenKind = .identifier ∧ p.lexer.bufferPos = 0 ∧ p.lexer.mode = .none
        ∧ p.lexer.columnNumber ≠ 0 ∧ p.lexer.columnNumber + 2 ≠ 0 :=
    ⟨⟨⟨0, 1, 1, .none⟩, ⟨0, .identifier, 0, 1, 0⟩⟩, rfl, rfl, rfl, by decide, by decide⟩
  have hat : At data p.lexer.bufferPos
      (ascii " = " ++ (escapeValue s ++ '\n'.toUInt8 :: [])) := by
    rw [hposition, ← hdata]
    exact .zero _
  have hspells := spells_escapeValue hvalue
  have hends := Parser.parseBindingInternal_value hkind (.inl hmode) hcolumn hcolumn' hspells
    (nextCode_escapeValue hvalue) hat
  have hreads := hreads data [] p hkind (.inl hmode) hcolumn hcolumn' hat
  cases hparse : Parser.parseBindingInternal data p with
  | error fault =>
    rw [hparse] at hends
    have hlast := hends.1
    rw [hdata, ← append_assoc, getLast?_append] at hlast
    cases hlast
  | ok next =>
    rw [hparse] at hends hreads
    obtain ⟨value, hvalue, htext⟩ := hends
    obtain ⟨value', hvalue', hevaluates, -⟩ := hreads
    obtain rfl : value = value' := (Prod.mk.inj (Except.ok.inj (hvalue.symm.trans hvalue'))).2
    rw [htext] at hevaluates
    exact hspells.not_evaluates_prefix (by decide) (List.take_prefix _ _) (length_cut_lt hsize)
      hevaluates

/-- **Escaped strings are read back.**  A string of printable characters that is not empty and
has no bar is read as itself where it is written as a path, and any string of printable
characters is read as itself where it is written as the value of a variable, exactly if what is
written has fewer than 2³² bytes. -/
theorem reads_escaped_iff (s v : Bytes) (hs : s ≠ [])
    (hpath : ∀ c ∈ s, isPrintable c ∧ c ≠ '|'.toUInt8) (hvalue : ∀ c ∈ v, isPrintable c) :
  (ReadsAsPath (escapePath s) s ↔ (escapePath s).length < 2 ^ 32)
    ∧ (ReadsAsValue (escapeValue v) v ↔ (escapeValue v).length < 2 ^ 32)
  := by
  constructor
  · refine ⟨fun hreads => ?_, readsAsPath_escapePath hs hpath⟩
    by_contra hsize
    exact not_readsAsPath hs hpath (not_lt.mp hsize) hreads
  · refine ⟨fun hreads => ?_, readsAsValue_escapeValue hvalue⟩
    by_contra hsize
    exact not_readsAsValue hvalue (not_lt.mp hsize) hreads

/-- A path with spaces and a colon, and a value that starts with a space. -/
theorem reads_escaped_four :
  ReadsAsPath (ascii "C$:/a$ b$$") (ascii "C:/a b$")
    ∧ ReadsAsValue (ascii "$ x: $$y") (ascii " x: $y")
  := by
  have hreads := reads_escaped_iff (ascii "C:/a b$") (ascii " x: $y") (by decide)
    (by decide +kernel) (by decide +kernel)
  exact ⟨hreads.1.mpr (by decide), hreads.2.mpr (by decide)⟩

/-- A string of 2³² letters: its token has the length zero. -/
theorem not_readsAsPath_replicate :
  replicate (2 ^ 32) 'a'.toUInt8 ≠ []
    ∧ (∀ c ∈ replicate (2 ^ 32) 'a'.toUInt8, isPrintable c ∧ c ≠ '|'.toUInt8)
    ∧ ¬ ReadsAsPath (escapePath (replicate (2 ^ 32) 'a'.toUInt8))
        (replicate (2 ^ 32) 'a'.toUInt8)
  := by
  have hne {n : ℕ} (hn : 0 < n) : replicate n 'a'.toUInt8 ≠ [] := by
    apply ne_nil_of_length_pos
    rwa [length_replicate]
  have hchars (n : ℕ) : ∀ c ∈ replicate n 'a'.toUInt8, isPrintable c ∧ c ≠ '|'.toUInt8 := by
    intro c hc
    rw [eq_of_mem_replicate hc]
    decide
  have hlength (n : ℕ) : (escapePath (replicate n 'a'.toUInt8)).length = n := by
    induction n with
    | zero => rfl
    | succ n ih =>
      rw [replicate_succ, escapePath, flatMap_cons, length_append, ← escapePath, ih]
      exact add_comm 1 n
  exact ⟨hne (by decide), hchars _, not_readsAsPath (hne (by decide)) (hchars _) (hlength _).ge⟩

end LLBuild.Ninja

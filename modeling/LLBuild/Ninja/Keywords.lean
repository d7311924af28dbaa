import LLBuild.Ninja.LexerText
import LLBuild.Ninja.ParserProgress
import Mathlib.Tactic.IntervalCases

/-!
# Keywords

Which declaration the parser finds depends on the identifier that the declaration starts with:
the longest one at that position.  An identifier is a keyword if it is spelled as the keyword,
but of `subninja` only the first seven bytes are compared.
-/

namespace LLBuild.Ninja.Parser

open BinaryCoding Buffer Lexer
open Manifest (Decl)

variable {data name rest : Bytes}

namespace Form

/-- What a declaration is that starts with a name: a keyword, or the name of a variable. -/
def ofName (name : Bytes) : Form :=
  if name = ascii "rule" then .rule
  else if name = ascii "pool" then .pool
  else if name = ascii "build" then .build
  else if name = ascii "default" then .default
  else if name = ascii "include" then .include
  else if name = ascii "subninja" then .subninja
  else .binding name

/-- The kind of the token that a declaration starts with. -/
def kind : Form → Token.Kind
  | .rule => .kwRule
  | .pool => .kwPool
  | .build => .kwBuild
  | .default => .kwDefault
  | .include => .kwInclude
  | .subninja => .kwSubninja
  | .binding _ => .identifier

/-- The words that are not the names of variables. -/
def keywords : List Bytes :=
  [ascii "rule", ascii "pool", ascii "build", ascii "default", ascii "include", ascii "subninja"]

theorem ofName_of_not_mem (h : name ∉ keywords) :
  ofName name = .binding name
  := by
  simp only [keywords, List.mem_cons, List.not_mem_nil, or_false, not_or] at h
  obtain ⟨hrule, hpool, hbuild, hdefault, hinclude, hsubninja⟩ := h
  rw [ofName, if_neg hrule, if_neg hpool, if_neg hbuild, if_neg hdefault, if_neg hinclude,
    if_neg hsubninja]

theorem eq_of_ofName_eq_binding {name' : Bytes} (h : ofName name = .binding name') :
  name' = name
  := by
  rw [ofName] at h
  split_ifs at h
  exact (Form.binding.inj h).symm

/-- Only the keywords of its length are words that a name can be. -/
theorem kind_ofName_eq_identifier {n : ℕ} {texts : List Bytes} (hlength : name.length = n)
    (htexts : keywords.filter (·.length = n) = texts) (h : name ∉ texts) :
  Token.Kind.identifier = (ofName name).kind
  := by
  subst hlength htexts
  rw [ofName_of_not_mem]
  · rfl
  · exact fun hmem => h (List.mem_filter.mpr ⟨hmem, decide_eq_true rfl⟩)

end Form

/-! ### Identifiers -/

/-- The longest identifier at a position. -/
def identifierAt (data : Bytes) (position : ℕ) : Bytes :=
  (data.drop position).takeWhile isIdentifierChar

/-- The bytes of an identifier are compared with a word of the same length. -/
theorem memcmp_at {text : Bytes} {position n : ℕ} (h : At data position (name ++ rest))
    (hn : n ≤ name.length) :
  memcmp data text position n = .ok (decide (name.take n = text.take n))
  := by
  have hlength := h.add_length
  rw [List.length_append] at hlength
  have htake : slice data position (position + n) = name.take n := by
    rw [slice, h.drop, Nat.add_sub_cancel_left, List.take_append_of_le_length hn]
  rw [memcmp, if_pos (by omega), htake]
  rfl

/-- An identifier is compared with a word of its length. -/
theorem memcmp_word {text : Bytes} {position n : ℕ} {yes no : Except Fault Token}
    (h : At data position (name ++ rest)) (hlength : name.length = n) (hn : text.length = n) :
  (do if ← memcmp data text position n then yes else no) = if name = text then yes else no
  := by
  rw [memcmp_at h hlength.ge, List.take_of_length_le hlength.le, List.take_of_length_le hn.le]
  simp only [bind, Except.bind, decide_eq_true_eq]

/-- An identifier is compared with the keywords of its length. -/
theorem setIdentifierTokenKind_at {lexer start : Lexer} (h : At data start.bufferPos (name ++ rest))
    (hlexer : lexer.bufferPos = start.bufferPos + name.length) (hlength : name.length < 2 ^ 32)
    (hsubninja : name.length = 8 → name.take 7 = ascii "subninj" → name = ascii "subninja") :
  setIdentifierTokenKind data lexer start = .ok (lexer.setTokenKind start (Form.ofName name).kind)
  := by
  have hsize (n : ℕ) (hn : n < 2 ^ 32) :
      UInt32.ofNat (lexer.bufferPos - start.bufferPos) = UInt32.ofNat n ↔ name.length = n := by
    rw [hlexer, Nat.add_sub_cancel_left, ← UInt32.toNat_inj, UInt32.toNat_ofNat_of_lt' hlength,
      UInt32.toNat_ofNat_of_lt' hn]
  rw [setIdentifierTokenKind]
  split_ifs with h4 h5 h7 h8
  · have h4 := (hsize 4 (by decide)).mp h4
    rw [memcmp_word h h4 rfl, memcmp_word h h4 rfl]
    split_ifs with hrule hpool
    · rw [hrule]
      rfl
    · rw [hpool]
      rfl
    · have htexts : Form.keywords.filter (·.length = 4) = [ascii "rule", ascii "pool"] := rfl
      rw [← Form.kind_ofName_eq_identifier h4 htexts (by simp [hrule, hpool])]
      rfl
  · have h5 := (hsize 5 (by decide)).mp h5
    rw [memcmp_word h h5 rfl]
    split_ifs with hbuild
    · rw [hbuild]
      rfl
    · have htexts : Form.keywords.filter (·.length = 5) = [ascii "build"] := rfl
      rw [← Form.kind_ofName_eq_identifier h5 htexts (by simp [hbuild])]
      rfl
  · have h7 := (hsize 7 (by decide)).mp h7
    rw [memcmp_word h h7 rfl, memcmp_word h h7 rfl]
    split_ifs with hdefault hinclude
    · rw [hdefault]
      rfl
    · rw [hinclude]
      rfl
    · have htexts : Form.keywords.filter (·.length = 7) = [ascii "default", ascii "include"] := rfl
      rw [← Form.kind_ofName_eq_identifier h7 htexts (by simp [hdefault, hinclude])]
      rfl
  · have h8 := (hsize 8 (by decide)).mp h8
    rw [memcmp_at h (by omega)]
    simp only [bind, Except.bind, decide_eq_true_eq]
    split_ifs with hseven
    · rw [hsubninja h8 hseven]
      rfl
    · have htexts : Form.keywords.filter (·.length = 8) = [ascii "subninja"] := rfl
      have hne : name ≠ ascii "subninja" := by
        rintro rfl
        exact hseven rfl
      rw [← Form.kind_ofName_eq_identifier h8 htexts (by simp [hne])]
      rfl
  · have hlengths : ∀ text ∈ Form.keywords, text.length ∈ [4, 5, 7, 8] := by decide
    rw [Form.ofName_of_not_mem]
    · rfl
    · intro hmem
      have hlength := hlengths name hmem
      simp only [List.mem_cons, List.not_mem_nil, or_false] at hlength
      obtain h | h | h | h := hlength
      · exact h4 ((hsize 4 (by decide)).mpr h)
      · exact h5 ((hsize 5 (by decide)).mpr h)
      · exact h7 ((hsize 7 (by decide)).mpr h)
      · exact h8 ((hsize 8 (by decide)).mpr h)

/-- Of a word of eight bytes the last one is not compared. -/
theorem setIdentifierTokenKind_subninj {lexer start : Lexer}
    (h : At data start.bufferPos (name ++ rest))
    (hlexer : lexer.bufferPos = start.bufferPos + name.length) (hlength : name.length = 8)
    (hseven : name.take 7 = ascii "subninj") :
  setIdentifierTokenKind data lexer start = .ok (lexer.setTokenKind start .kwSubninja)
  := by
  have hmemcmp : memcmp data (ascii "subninja") start.bufferPos 7 = .ok true := by
    rw [memcmp_at h (by omega), hseven]
    rfl
  simp only [setIdentifierTokenKind, hlexer, Nat.add_sub_cancel_left, hlength, hmemcmp]
  rfl

theorem not_isIdentifierCode_of_isspace {c : ℤ} (h : isspace c) :
  ¬ isIdentifierCode c
  := by
  rw [isspace, Bool.or_eq_true, Bool.and_eq_true, decide_eq_true_eq, decide_eq_true_eq,
    decide_eq_true_eq] at h
  obtain rfl | ⟨hle, hge⟩ := h
  · decide
  · rw [show code '\t' = 9 from rfl] at hle
    rw [show code '\r' = 13 from rfl] at hge
    interval_cases c <;> decide

/-- A letter of an identifier is none of the characters with a meaning of their own. -/
theorem not_isIdentifierCode_of_mem {c : ℤ}
    (h : c ∈ [-1, code '\n', code '\r', code ':', code '=', code '#', code '|']) :
  ¬ isIdentifierCode c
  := by
  revert c
  decide

theorem isIdentifierCode_of_isNewline {c : UInt8} (h : isNewline c) :
  isIdentifierCode c.toInt8.toInt = false
  := by
  rw [isNewline, Bool.or_eq_true, decide_eq_true_eq, decide_eq_true_eq] at h
  obtain rfl | rfl := h
  · decide
  · decide

/-- In no special mode, a token that starts with a letter of an identifier is the longest
identifier there. -/
theorem lexRegular_identifier {start : Lexer} (h : start.bufferPos ≤ data.length)
    (hmode : start.mode = .none) (hname : identifierAt data start.bufferPos = name)
    (hne : name ≠ []) :
  lexRegular data (charAt data start.bufferPos) start
    = (setIdentifierTokenKind data (start.forward name.length) start).map
        (·, start.forward name.length)
  := by
  obtain ⟨text, hat⟩ : ∃ text, At data start.bufferPos text := ⟨_, h, rfl⟩
  rw [identifierAt, hat.drop] at hname
  cases text with
  | nil => exact absurd hname.symm hne
  | cons c text =>
    rw [List.takeWhile_cons] at hname
    split_ifs at hname with hc
    case neg => exact absurd hname.symm hne
    have hcode : isIdentifierCode c.toInt8.toInt := by rwa [isIdentifierCode_toInt]
    have hspecial {d : ℤ} (hd : d ∈ [-1, code '\n', code '\r', code ':', code '=', code '#',
        code '|']) : ¬ c.toInt8.toInt = d := by
      rintro rfl
      exact not_isIdentifierCode_of_mem hd hcode
    have hnewline : isNewline c = false := by
      by_contra hnewline
      rw [isIdentifierCode_of_isNewline (Bool.of_not_eq_false hnewline)] at hcode
      cases hcode
    have htail : At data (start.forward 1).bufferPos text := hat.tail
    rw [charAt_of_at hat, nextCode, lexRegular, getNextChar_cons hat hnewline]
    simp only [bind, Except.bind]
    rw [if_neg (hspecial (by simp)), if_neg (hspecial (by simp)), if_neg (hspecial (by simp)),
      if_neg (hspecial (by simp)), if_pos hcode, lexIdentifier, consumeWhile_at (by decide)
      (fun _ => isIdentifierCode_of_isNewline) htail (length_lt_of_at htail), forward_forward]
    simp only [isIdentifierCode_toInt, bind, Except.bind]
    rw [Nat.add_comm, ← List.length_cons, hname, if_neg (by rw [forward, hmode]; decide)]
    cases setIdentifierTokenKind data (start.forward name.length) start with
    | error fault => rfl
    | ok token => rfl

/-! ### Declarations -/

/-- The parser comes to the start of a declaration of a file, or to the end of the file. -/
inductive Reaches (data : Bytes) : Parser → Prop
  | start {p : Parser} (h : getNextNonCommentToken data (data.length + 1) .initial = .ok p) :
      Reaches data p
  | next {p p' : Parser} {decl : Option Decl} (h : Reaches data p)
      (hdecl : parseDecl data p = .ok (decl, p')) :
      Reaches data p'

/-- A declaration starts with a token that was found in no special mode. -/
theorem Reaches.atTop {p : Parser} (h : Reaches data p) :
  AtTop data p
  := by
  induction h with
  | start h => exact (getNextNonCommentToken_initial data).of_eq h
  | next h hdecl ih => exact ((parseDecl_ends ih).of_eq hdecl).2.atTop

/-- **The parser ends, declaration by declaration.**  The one thing it can fail at is a read behind
a dollar sign that is the last byte.  Whatever came before, a declaration is entered in no special
mode; it starts with the current token, and takes it. -/
theorem parse_by_declarations (data : Bytes) :
  Ends (ReadsBehindDollar data) (parse data) (fun _ => True)
    ∧ ∀ p, Reaches data p → p.lexer.mode = .none
      ∧ Ends (ReadsBehindDollar data) (parseDecl data p) fun next =>
        IsFound data p.tok next.1 ∧ Progresses data p next.2
  := by
  constructor
  · apply parse_ends
  · intro p h
    constructor
    · apply h.atTop.mode
    · apply (parseDecl_ends h.atTop).imp
      intro next hnext
      exact ⟨hnext.1, hnext.2.toProgresses⟩

/-- A file with one binding, at its first token. -/
theorem parse_by_declarations_binding :
  ∃ p, Reaches (ascii "a = b\n") p ∧ p.tok.tokenKind ≠ .endOfFile ∧ p.lexer.mode = .none
    ∧ Ends (ReadsBehindDollar (ascii "a = b\n")) (parseDecl (ascii "a = b\n") p) fun next =>
      IsFound (ascii "a = b\n") p.tok next.1 ∧ Progresses (ascii "a = b\n") p next.2
  := by
  have h : ∃ p, getNextNonCommentToken (ascii "a = b\n") 7 .initial = .ok p
      ∧ p.tok.tokenKind ≠ .endOfFile := ⟨_, rfl, by decide⟩
  obtain ⟨p, hp, hkind⟩ := h
  obtain ⟨hmode, hends⟩ := (parse_by_declarations _).2 p (.start hp)
  exact ⟨p, .start hp, hkind, hmode, hends⟩

theorem isIdentifierCode_of_identifierAt {position : ℕ} (h : identifierAt data position ≠ []) :
  isIdentifierCode (charAt data position)
  := by
  rw [charAt, ← List.head?_drop]
  rw [identifierAt] at h
  cases htext : data.drop position with
  | nil => exact absurd (by rw [htext]; rfl) h
  | cons c text =>
    rw [htext, List.takeWhile_cons] at h
    split_ifs at h with hc
    · exact (isIdentifierCode_toInt c).trans hc
    · exact absurd rfl h

/-- In no special mode, white space is skipped, and a token that starts with a letter is one of
the regular token set. -/
theorem lex_identifier {lexer : Lexer} (hmode : lexer.mode = .none)
    (h : lexer.bufferPos ≤ data.length) :
  Ends (ReadsBehindDollar data) (lex data lexer) fun next =>
    isIdentifierCode (charAt data next.1.start) → ∃ start : Lexer, start.mode = .none
      ∧ start.bufferPos ≤ data.length ∧ start.bufferPos = next.1.start
      ∧ lexRegular data (charAt data start.bufferPos) start = .ok next
  := by
  rw [lex, peekNextChar_eq h]
  simp only [bind, Except.bind]
  split_ifs with hindent
  · have hspace : isspace (charAt data lexer.bufferPos) := by
      have hspace := hindent.1
      rw [isNonNewlineSpace, Bool.and_eq_true, Bool.and_eq_true] at hspace
      exact hspace.1.1
    have hne : charAt data lexer.bufferPos ≠ -1 := by
      intro heq
      rw [heq] at hspace
      exact absurd hspace (by decide)
    apply Returns.ends
    apply (getNextChar_returns_lt h hne).bind
    rintro ⟨_, next⟩ ⟨hruns, -⟩
    apply (consumeWhile_returns (by decide) hruns.le_length (sub_lt_length_add_one data next)).bind
    intro last _
    exact Returns.ok fun hcode => absurd hcode (not_isIdentifierCode_of_isspace hspace)
  apply (skipSpaces_ends h (sub_lt_length_add_one data lexer)).bind
  rintro ⟨c, start⟩ ⟨hstart, hc, -⟩
  dsimp only at hstart hc ⊢
  have hstartmode := hstart.mode.trans hmode
  have hspecial (hmem : c ∈ [-1, code '\n', code '\r', code ':', code '=', code '#', code '|']) :
      ¬ isIdentifierCode (charAt data start.bufferPos) := by
    rw [← hc]
    exact not_isIdentifierCode_of_mem hmem
  split_ifs with hnewline hend hvariable hpath
  · have hne : charAt data start.bufferPos ≠ -1 := by
      rw [← hc]
      rintro rfl
      revert hnewline
      decide
    apply Returns.ends
    apply (getNextChar_returns_lt hstart.le_length hne).bind
    rintro ⟨_, next⟩ -
    exact Returns.ok fun hcode => absurd hcode (hspecial (by simp; tauto))
  · exact fun hcode => absurd hcode (hspecial (by simp [hend]))
  · rw [hstartmode] at hvariable
    cases hvariable
  · rw [hstartmode] at hpath
    cases hpath.1
  · rw [hc] at hend ⊢
    obtain ⟨next, hnext, -, hposition⟩ := lexRegular_returns (c := charAt data start.bufferPos)
      (Runs.refl hstart.le_length) hend
    rw [hnext]
    exact fun _ => ⟨start, hstartmode, hstart.le_length, hposition.symm, hnext⟩

/-- A token that was found in no special mode, if it starts with a letter of an identifier. -/
theorem AtTop.setIdentifierTokenKind_eq {p : Parser} (h : AtTop data p)
    (hname : identifierAt data p.tok.start = name) (hne : name ≠ []) :
  ∃ start : Lexer, ∃ rest : Bytes, start.bufferPos = p.tok.start
    ∧ At data start.bufferPos (name ++ rest)
    ∧ setIdentifierTokenKind data (start.forward name.length) start = .ok p.tok
  := by
  obtain ⟨lexer, hmode, hle, hlex⟩ := h
  obtain ⟨start, hstart, hle', hposition, hregular⟩ := (lex_identifier hmode hle).of_eq hlex
    (isIdentifierCode_of_identifierAt (by rwa [hname]))
  rw [← hposition] at hname
  rw [lexRegular_identifier hle' hstart hname hne] at hregular
  refine ⟨start, (data.drop start.bufferPos).dropWhile isIdentifierChar, hposition, ?_, ?_⟩
  · rw [← hname, identifierAt, List.takeWhile_append_dropWhile]
    exact ⟨hle', rfl⟩
  · cases htoken : setIdentifierTokenKind data (start.forward name.length) start with
    | error fault =>
      rw [htoken] at hregular
      cases hregular
    | ok token =>
      rw [htoken] at hregular
      exact congrArg (Except.ok ∘ Prod.fst) (Except.ok.inj hregular)

theorem AtTop.ofToken_eq {p : Parser} (h : AtTop data p)
    (hname : identifierAt data p.tok.start = name)
    (hne : name ≠ []) (hlength : name.length < 2 ^ 32)
    (hsubninja : name.length = 8 → name.take 7 = ascii "subninj" → name = ascii "subninja") :
  Form.ofToken data p.tok = some (Form.ofName name)
  := by
  obtain ⟨start, rest, hposition, hat, hset⟩ := h.setIdentifierTokenKind_eq hname hne
  rw [← hposition] at hname
  rw [setIdentifierTokenKind_at hat rfl hlength hsubninja] at hset
  have htok : p.tok = (start.forward name.length).setTokenKind start (Form.ofName name).kind :=
    (Except.ok.inj hset).symm
  have hkind : p.tok.tokenKind = (Form.ofName name).kind := congrArg Token.tokenKind htok
  have htext : p.tok.text data = name := by
    have hsize : p.tok.length.toNat = name.length := by
      rw [htok, setTokenKind]
      simp only [forward, Nat.add_sub_cancel_left]
      exact UInt32.toNat_ofNat_of_lt' hlength
    rw [Token.text, hsize, ← hposition, slice, Nat.add_sub_cancel_left, ← hname]
    exact (List.prefix_iff_eq_take.mp (List.takeWhile_prefix _)).symm
  rw [Form.ofToken, hkind, htext]
  cases hform : Form.ofName name with
  | binding name' => rw [Form.eq_of_ofName_eq_binding hform]; rfl
  | _ => rfl

/-- The length of a token is less than `2 ^ 32`, and the keywords are shorter. -/
theorem length_lt_of_ofToken {token : Token}
    (h : Form.ofToken data token = some (Form.ofName name)) :
  name.length < 2 ^ 32
  := by
  by_cases hmem : name ∈ Form.keywords
  · have hlengths : ∀ text ∈ Form.keywords, text.length < 2 ^ 32 := by decide
    exact hlengths name hmem
  · rw [Form.ofName_of_not_mem hmem, Form.ofToken] at h
    split at h <;> cases h
    rw [Token.text, slice, List.length_take]
    have hlength := token.length.toNat_lt
    omega

/-- A word of eight bytes that starts as `subninja` is taken for this keyword. -/
theorem AtTop.eq_subninja {p : Parser} (h : AtTop data p)
    (hname : identifierAt data p.tok.start = name) (hlength : name.length = 8)
    (hseven : name.take 7 = ascii "subninj")
    (hform : Form.ofToken data p.tok = some (Form.ofName name)) :
  name = ascii "subninja"
  := by
  have hne : name ≠ [] := by
    rintro rfl
    cases hlength
  obtain ⟨start, rest, -, hat, hset⟩ := h.setIdentifierTokenKind_eq hname hne
  rw [setIdentifierTokenKind_subninj hat rfl hlength hseven] at hset
  have hkind : p.tok.tokenKind = .kwSubninja :=
    congrArg Token.tokenKind (Except.ok.inj hset).symm
  rw [Form.ofToken, hkind] at hform
  rw [Form.ofName] at hform
  split_ifs at hform <;> first | assumption | cases hform

/-- **Keywords are exact**, but for one.  Let the first token of a declaration start with an
identifier, and let `name` be the longest identifier there.  The declaration is a rule, a pool, a
build statement, a default, an include or a subninja declaration if the name is spelled as the
keyword, and a binding of that name otherwise (if what is found is not an error, it is such a
declaration), exactly if the name is not a word of eight bytes other than `subninja` of which the
first seven are those of `subninja`, and its length is one of a token. -/
theorem parseDecl_form_iff {p : Parser} (h : Reaches data p)
    (hname : identifierAt data p.tok.start = name) (hne : name ≠ []) :
  Form.ofToken data p.tok = some (Form.ofName name)
      ∧ Ends (ReadsBehindDollar data) (parseDecl data p) (fun next => ∃ decl, next.1 = some decl
        ∧ (Form.ofDecl decl = none ∨ Form.ofDecl decl = some (Form.ofName name)))
    ↔ name.length < 2 ^ 32
      ∧ (name.length = 8 → name.take 7 = ascii "subninj" → name = ascii "subninja")
  := by
  constructor
  · rintro ⟨hform, -⟩
    exact ⟨length_lt_of_ofToken hform,
      fun hlength hseven => h.atTop.eq_subninja hname hlength hseven hform⟩
  rintro ⟨hlength, hsubninja⟩
  have htoken := h.atTop.ofToken_eq hname hne hlength hsubninja
  refine ⟨htoken, (parseDecl_ends h.atTop).imp ?_⟩
  rintro ⟨decl, next⟩ ⟨hfound, -⟩
  cases decl with
  | none =>
    have hkind : p.tok.tokenKind = .newline := hfound
    rw [Form.ofToken, hkind] at htoken
    cases htoken
  | some decl =>
    rw [← htoken]
    exact ⟨decl, rfl, hfound⟩

/-- A variable whose name starts with a keyword. -/
theorem parseDecl_form_rules :
  Form.ofToken (ascii "rules = a\n") ⟨0, .identifier, 5, 1, 0⟩
      = some (.binding (ascii "rules"))
    ∧ Ends (ReadsBehindDollar (ascii "rules = a\n"))
      (parseDecl (ascii "rules = a\n") ⟨⟨5, 1, 5, .none⟩, ⟨0, .identifier, 5, 1, 0⟩⟩) fun next =>
        ∃ decl, next.1 = some decl ∧ (Form.ofDecl decl = none
          ∨ Form.ofDecl decl = some (.binding (ascii "rules")))
  := (@parseDecl_form_iff (ascii "rules = a\n") (ascii "rules")
    ⟨⟨5, 1, 5, .none⟩, ⟨0, .identifier, 5, 1, 0⟩⟩ (.start (by decide +kernel)) (by decide +kernel)
    (by decide)).mpr ⟨by decide, by decide⟩

/-- Of `subninja` only the first seven bytes are compared: a variable `subninjs` cannot be bound,
and the name is taken for the keyword. -/
theorem parse_subninjs :
  Form.ofName (ascii "subninjs") = .binding (ascii "subninjs")
    ∧ parse (ascii "subninjs a\n") = .ok [.includeDecl false ⟨9, ascii "a"⟩]
    ∧ parse (ascii "subninjs = a\n")
      = .ok [.error (ascii "expected newline token") ⟨11, ascii "a"⟩]
  := by decide +kernel

end LLBuild.Ninja.Parser

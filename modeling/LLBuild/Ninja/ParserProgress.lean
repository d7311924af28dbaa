import LLBuild.Ninja.Parser

/-!
# The parser comes to the end of its file

Every token but the end of the file has bytes, so the parser comes to the end of a file, in
whatever mode the tokens are found.  Only a dollar sign that is the last byte of the file makes
the lexer read behind it.

A declaration is parsed from a token that was found in no special mode: `AtTop` holds whenever
`parseDecl` is called.
-/

namespace LLBuild.Ninja.Parser

open Nat

open BinaryCoding Buffer Lexer
open Manifest (Binding BuildSpecifier Decl)

variable {data : Bytes}

/-- How much the parser can still consume: the bytes behind the lexer, and the current token. -/
def room (data : Bytes) (p : Parser) : ℕ :=
  data.length - p.lexer.bufferPos + if p.tok.tokenKind = .endOfFile then 0 else 1

/-- The current token was found in no special mode. -/
def AtTop (data : Bytes) (p : Parser) : Prop :=
  ∃ lexer : Lexer, lexer.mode = .none ∧ lexer.bufferPos ≤ data.length
    ∧ lexer.lex data = .ok (p.tok, p.lexer)

/-- The parser has gone on. -/
structure Follows (data : Bytes) (p p' : Parser) : Prop where
  le_length : p'.lexer.bufferPos ≤ data.length
  room_le : room data p' ≤ room data p

/-- The parser has gone on, and has consumed a token, if there was one. -/
structure Progresses (data : Bytes) (p p' : Parser) : Prop extends Follows data p p' where
  room_lt : p.tok.tokenKind ≠ .endOfFile → room data p' < room data p

/-- The parser has consumed tokens in the mode it is in. -/
structure Consumes (data : Bytes) (p p' : Parser) : Prop extends Progresses data p p' where
  mode : p'.lexer.mode = p.lexer.mode
  atTop : p.lexer.mode = .none → AtTop data p'

variable {p p' p'' : Parser}

theorem Follows.refl (h : p.lexer.bufferPos ≤ data.length) :
  Follows data p p
  := ⟨h, le_refl _⟩

theorem Follows.trans (h : Follows data p p') (h' : Follows data p' p'') :
  Follows data p p''
  := ⟨h'.le_length, le_trans h'.room_le h.room_le⟩

theorem Progresses.trans (h : Progresses data p p') (h' : Follows data p' p'') :
  Progresses data p p''
  := ⟨h.toFollows.trans h', fun hkind => lt_of_le_of_lt h'.room_le (h.room_lt hkind)⟩

theorem room_lt_length_add_two (data : Bytes) (p : Parser) :
  room data p < data.length + 2
  := by
  rw [room]
  split_ifs <;> omega

theorem AtTop.mode (h : AtTop data p) :
  p.lexer.mode = .none
  := by
  obtain ⟨lexer, hmode, hle, hlex⟩ := h
  exact ((lex_ends hle).of_eq hlex).mode.trans hmode

/-! ### Tokens -/

variable {steps : ℕ}

theorem getNextNonCommentToken_ends
    {lexer : Lexer} (h : lexer.bufferPos ≤ data.length)
    (hsteps : data.length - lexer.bufferPos < steps) :
  Ends (ReadsBehindDollar data) (getNextNonCommentToken data steps lexer) fun p =>
    Runs data lexer p.lexer ∧ (p.tok.tokenKind ≠ .endOfFile → lexer.bufferPos < p.lexer.bufferPos)
      ∧ (lexer.mode = .none → AtTop data p)
  := by
  induction steps generalizing lexer with
  | zero => cases hsteps
  | succ steps ih =>
    rw [getNextNonCommentToken]
    cases hlex : lexer.lex data with
    | error fault =>
      have hends := lex_ends h
      rw [hlex] at hends
      exact hends
    | ok next =>
      obtain ⟨tok, lexer'⟩ := next
      have hfound := (lex_ends h).of_eq hlex
      have hruns : Runs data lexer lexer' :=
        ⟨⟨le_trans hfound.le_start hfound.le_stop, hfound.stop_le⟩, hfound.mode⟩
      have hmoved (hkind : tok.tokenKind ≠ .endOfFile) : lexer.bufferPos < lexer'.bufferPos :=
        lt_of_le_of_lt hfound.le_start (hfound.lt_stop hkind)
      simp only [bind, Except.bind]
      split_ifs with hcomment
      · have hlt := hmoved (by rw [hcomment]; decide)
        refine (ih hruns.le_length (hruns.sub_lt hlt hsteps)).imp ?_
        rintro p ⟨hruns', -, htop⟩
        refine ⟨hruns.trans hruns', fun _ => lt_of_lt_of_le hlt hruns'.le, ?_⟩
        exact fun hmode => htop (hruns.mode.trans hmode)
      · exact ⟨hruns, hmoved, fun hmode => ⟨lexer, hmode, h, hlex⟩⟩

theorem consumeToken_ends (h : p.lexer.bufferPos ≤ data.length) :
  Ends (ReadsBehindDollar data) (consumeToken data p) (Consumes data p)
  := by
  refine (getNextNonCommentToken_ends h (sub_lt_length_add_one data p.lexer)).imp ?_
  rintro p' ⟨hruns, hlt, htop⟩
  have hle := hruns.le
  have hle' := hruns.le_length
  have hroom : room data p' ≤ data.length - p.lexer.bufferPos := by
    rw [room]
    split_ifs with hkind
    · omega
    · have hlt := hlt hkind
      omega
  refine ⟨⟨⟨hle', le_trans hroom (le_add_right _ _)⟩, ?_⟩, hruns.mode, htop⟩
  intro hkind
  rw [room.eq_def data p, if_neg hkind]
  exact lt_succ_of_le hroom

theorem consumeExpectedToken_ends (h : p.lexer.bufferPos ≤ data.length) :
  Ends (ReadsBehindDollar data) (consumeExpectedToken data p) fun next =>
    next.1 = p.tok.toManifest data ∧ Consumes data p next.2
  := (consumeToken_ends h).bind fun _ hconsumes => ⟨rfl, hconsumes⟩

theorem consumeIfToken_ends (kind : Token.Kind) (h : p.lexer.bufferPos ≤ data.length) :
  Ends (ReadsBehindDollar data) (consumeIfToken data kind p) fun next =>
    (next.1 = true → Consumes data p next.2) ∧ (next.1 = false → next.2 = p)
      ∧ Follows data p next.2 ∧ next.2.lexer.mode = p.lexer.mode
  := by
  rw [consumeIfToken]
  split_ifs with heq
  · apply (consumeToken_ends h).bind
    intro next hconsumes
    exact ⟨fun _ => hconsumes, (nomatch ·), hconsumes.toFollows, hconsumes.mode⟩
  · exact ⟨(nomatch ·), fun _ => rfl, Follows.refl h, rfl⟩

section

variable (h : p.lexer.bufferPos ≤ data.length)

include h

theorem skipToEOL_ends (hsteps : room data p < steps) :
  Ends (ReadsBehindDollar data) (skipToEOL data steps p) fun next =>
    (next = p ∨ room data next < room data p) ∧ next.lexer.bufferPos ≤ data.length
      ∧ next.lexer.mode = p.lexer.mode
  := by
  induction steps generalizing p with
  | zero => cases hsteps
  | succ steps ih =>
    rw [skipToEOL]
    split_ifs with hend
    · exact ⟨.inl rfl, h, rfl⟩
    · apply (lex_ends h).bind
      rintro ⟨tok, lexer⟩ hfound
      have hroom : room data ⟨lexer, tok⟩ < room data p := by
        have hle := hfound.le_start
        have hstop := hfound.le_stop
        have hlength := hfound.stop_le
        rw [room, room, if_neg (not_or.mp hend).2]
        dsimp only at hle hstop hlength ⊢
        split_ifs with hkind
        · omega
        · have hlt := hfound.lt_stop hkind
          dsimp only at hlt
          omega
      have hlt : room data ⟨lexer, tok⟩ < steps :=
        lt_of_lt_of_le hroom (le_of_lt_succ hsteps)
      refine (ih (p := ⟨lexer, tok⟩) hfound.stop_le hlt).imp ?_
      rintro next ⟨hnext, hlength, hmode⟩
      refine ⟨.inr ?_, hlength, hmode.trans hfound.mode⟩
      obtain rfl | hnext := hnext
      · exact hroom
      · exact lt_trans hnext hroom

theorem skipPastEOL_ends :
  Ends (ReadsBehindDollar data) (skipPastEOL data p) (Consumes data p)
  := by
  apply (skipToEOL_ends h (room_lt_length_add_two data p)).bind
  rintro next ⟨hnext, hlength, hmode⟩
  refine (consumeToken_ends hlength).imp ?_
  intro last hconsumes
  obtain rfl | hnext := hnext
  · exact hconsumes
  · have hlt := lt_of_le_of_lt hconsumes.room_le hnext
    exact ⟨⟨⟨hconsumes.le_length, hlt.le⟩, fun _ => hlt⟩, hconsumes.mode.trans hmode,
      fun htop => hconsumes.atTop (hmode.trans htop)⟩

theorem consumeStrings_ends (hsteps : room data p < steps) :
  Ends (ReadsBehindDollar data) (consumeStrings data steps p) fun next =>
    Follows data p next.2 ∧ next.2.lexer.mode = p.lexer.mode
  := by
  induction steps generalizing p with
  | zero => cases hsteps
  | succ steps ih =>
    rw [consumeStrings]
    split_ifs with hstring
    · apply (consumeExpectedToken_ends h).bind
      rintro ⟨string, next⟩ ⟨-, hconsumes⟩
      have hlt := hconsumes.room_lt (by rw [hstring]; decide)
      apply (ih hconsumes.le_length (lt_of_lt_of_le hlt (le_of_lt_succ hsteps))).bind
      rintro ⟨strings, last⟩ ⟨hfollows, hmode⟩
      exact ⟨hconsumes.toFollows.trans hfollows, hmode.trans hconsumes.mode⟩
    · exact ⟨Follows.refl h, rfl⟩

theorem parsePaths_ends :
  Ends (ReadsBehindDollar data) (parsePaths data p) fun next =>
    Follows data p next.2 ∧ next.2.lexer.mode = p.lexer.mode
  := consumeStrings_ends h (room_lt_length_add_two data p)

end

theorem parsePathsAfter_ends (kind : Token.Kind) (h : p.lexer.bufferPos ≤ data.length) :
  Ends (ReadsBehindDollar data) (parsePathsAfter data kind p) fun next =>
    Follows data p next.2 ∧ next.2.lexer.mode = p.lexer.mode
  := by
  apply (consumeIfToken_ends kind h).bind
  rintro ⟨isThere, next⟩ ⟨-, -, hfollows, hmode⟩
  dsimp only at hfollows hmode ⊢
  split_ifs
  · refine (parsePaths_ends hfollows.le_length).imp ?_
    rintro ⟨paths, last⟩ ⟨hfollows', hmode'⟩
    exact ⟨hfollows.trans hfollows', hmode'.trans hmode⟩
  · exact ⟨hfollows, hmode⟩

/-! ### Lines -/

variable {α : Type}

theorem failLine_ends (message : String) (h : p.lexer.bufferPos ≤ data.length) :
  Ends (ReadsBehindDollar data) (failLine (α := α) data message p) fun next =>
    next.1 = error data message p ∧ Consumes data p next.2
  := (skipPastEOL_ends h).bind fun _ hconsumes => ⟨rfl, hconsumes⟩

theorem endLine_ends (a : α) (h : p.lexer.bufferPos ≤ data.length) :
  Ends (ReadsBehindDollar data) (endLine data a p) fun next =>
    (∀ b, next.1 = .ok b → b = a) ∧ Consumes data p next.2
  := by
  apply (consumeIfToken_ends .newline h).bind
  rintro ⟨isThere, next⟩ ⟨hthere, hmissing, -, -⟩
  dsimp only at hthere hmissing ⊢
  split_ifs with his
  · refine ⟨?_, hthere his⟩
    rintro b ⟨⟩
    rfl
  · obtain rfl := hmissing (Bool.of_not_eq_true his)
    refine (failLine_ends _ h).imp ?_
    rintro ⟨parsed, last⟩ ⟨rfl, hconsumes⟩
    exact ⟨nofun, hconsumes⟩

/-- The parser has come to the end of a declaration, where the next token was found in no
special mode. -/
structure Passes (data : Bytes) (p p' : Parser) : Prop extends Progresses data p p' where
  atTop : AtTop data p'

theorem Consumes.passes (h : Consumes data p p') (hmode : p.lexer.mode = .none) :
  Passes data p p'
  := ⟨h.toProgresses, h.atTop hmode⟩

theorem Progresses.passes (h : Progresses data p p') (h' : Passes data p' p'') :
  Passes data p p''
  := ⟨h.trans h'.toFollows, h'.atTop⟩

/-- It does not matter in which mode the lexer was. -/
theorem Progresses.of_setMode {mode : LexingMode} (h : Progresses data (p.setMode mode) p') :
  Progresses data p p'
  := ⟨⟨h.le_length, h.room_le⟩, h.room_lt⟩

theorem Passes.of_setMode {mode : LexingMode} (h : Passes data (p.setMode mode) p') :
  Passes data p p'
  := ⟨h.toProgresses.of_setMode, h.atTop⟩

/-! ### Declarations -/

/-- What a declaration is. -/
inductive Form
  | rule
  | pool
  | build
  | default
  | include
  | subninja
  | binding (name : Bytes)
  deriving DecidableEq

/-- What a declaration of a manifest is; an error is none. -/
def Form.ofDecl : Decl → Option Form
  | .error _ _ => none
  | .bindingDecl name _ => some (.binding name.text)
  | .defaultDecl _ => some .default
  | .includeDecl isInclude _ => some (if isInclude then .include else .subninja)
  | .buildDecl _ _ _ => some .build
  | .poolDecl _ _ _ => some .pool
  | .ruleDecl _ _ _ => some .rule

/-- What a declaration is that starts with a token. -/
def Form.ofToken (data : Bytes) (tok : Token) : Option Form :=
  match tok.tokenKind with
  | .kwRule => some .rule
  | .kwPool => some .pool
  | .kwBuild => some .build
  | .kwDefault => some .default
  | .kwInclude => some .include
  | .kwSubninja => some .subninja
  | .identifier => some (.binding (tok.text data))
  | _ => none

/-- What is found from a token on: an error, or a declaration that starts with the token. -/
def StartsWith (data : Bytes) (tok : Token) (decl : Decl) : Prop :=
  Form.ofDecl decl = none ∨ Form.ofDecl decl = Form.ofToken data tok

theorem startsWith_error (tok : Token) (message : Bytes) (token : Manifest.Token) :
  StartsWith data tok (.error message token)
  := .inl rfl

theorem startsWith_toDecl {tok : Token} {decl : α → Decl} {parsed : Parsed α}
    (h : ∀ a, parsed = .ok a → StartsWith data tok (decl a)) :
  StartsWith data tok (toDecl decl parsed)
  := by
  cases parsed with
  | ok a => exact h a rfl
  | error reported => exact startsWith_error tok _ _

section

variable (h : p.lexer.bufferPos ≤ data.length)

include h

theorem parseBindingInternal_ends :
  Ends (ReadsBehindDollar data) (parseBindingInternal data p) fun next =>
    (∀ binding, next.1 = .ok binding → binding.1 = p.tok.toManifest data)
      ∧ Passes data p next.2
  := by
  rw [parseBindingInternal]
  split_ifs with hname
  · refine (failLine_ends _ (p := p.setMode .none) h).imp ?_
    rintro ⟨parsed, next⟩ ⟨rfl, hconsumes⟩
    exact ⟨nofun, (hconsumes.passes rfl).of_setMode⟩
  apply (consumeExpectedToken_ends h).bind
  rintro ⟨name, p₁⟩ ⟨rfl, h₁⟩
  dsimp only at h₁ ⊢
  split_ifs with hequals
  · refine (failLine_ends _ (p := p₁.setMode .none) h₁.le_length).imp ?_
    rintro ⟨parsed, next⟩ ⟨rfl, hconsumes⟩
    exact ⟨nofun, h₁.toProgresses.passes (hconsumes.passes rfl).of_setMode⟩
  apply (consumeExpectedToken_ends (p := p₁.setMode .variableString) h₁.le_length).bind
  rintro ⟨equals, p₂⟩ ⟨-, h₂⟩
  have hprogresses := h₁.toProgresses.trans h₂.toProgresses.of_setMode.toFollows
  split_ifs with hempty hvalue
  · apply (consumeExpectedToken_ends (p := p₂.setMode .none) h₂.le_length).bind
    rintro ⟨value, next⟩ ⟨-, hconsumes⟩
    refine ⟨?_, hprogresses.passes (hconsumes.passes rfl).of_setMode⟩
    rintro _ ⟨⟩
    rfl
  · refine (failLine_ends _ (p := p₂.setMode .none) h₂.le_length).imp ?_
    rintro ⟨parsed, next⟩ ⟨rfl, hconsumes⟩
    exact ⟨nofun, hprogresses.passes (hconsumes.passes rfl).of_setMode⟩
  · apply (consumeExpectedToken_ends (p := p₂.setMode .none) h₂.le_length).bind
    rintro ⟨value, p₃⟩ ⟨-, h₃⟩
    refine (endLine_ends _ h₃.le_length).imp ?_
    rintro ⟨parsed, next⟩ ⟨hparsed, hconsumes⟩
    refine ⟨?_, ?_⟩
    · intro binding hbinding
      rw [hparsed binding hbinding]
    · have hprogresses' := hprogresses.trans h₃.toProgresses.of_setMode.toFollows
      exact hprogresses'.passes (hconsumes.passes h₃.mode)

theorem parseBindingDecl_ends (hkind : p.tok.tokenKind = .identifier) :
  Ends (ReadsBehindDollar data) (parseBindingDecl data p) fun next =>
    StartsWith data p.tok next.1 ∧ Passes data p next.2
  := by
  apply (parseBindingInternal_ends h).bind
  rintro ⟨parsed, next⟩ ⟨hname, hpasses⟩
  refine ⟨startsWith_toDecl ?_, hpasses⟩
  intro binding hbinding
  right
  rw [Form.ofToken, hkind, hname binding hbinding]
  rfl

theorem parseDefaultDecl_ends (hkind : p.tok.tokenKind = .kwDefault) :
  Ends (ReadsBehindDollar data) (parseDefaultDecl data p) fun next =>
    StartsWith data p.tok next.1 ∧ Passes data p next.2
  := by
  have hdecl (names : List Manifest.Token) : StartsWith data p.tok (.defaultDecl names) := by
    right
    rw [Form.ofToken, hkind]
    rfl
  apply (consumeExpectedToken_ends (p := p.setMode .pathString) h).bind
  rintro ⟨keyword, p₁⟩ ⟨-, h₁⟩
  apply (parsePaths_ends h₁.le_length).bind
  rintro ⟨names, p₂⟩ ⟨h₂, -⟩
  have hprogresses := h₁.toProgresses.of_setMode.trans h₂
  dsimp only
  split_ifs
  on_goal 1 => apply (failLine_ends _ (p := p₂.setMode .none) h₂.le_length).bind
  on_goal 2 => apply (endLine_ends _ (p := p₂.setMode .none) h₂.le_length).bind
  all_goals
    rintro ⟨parsed, next⟩ ⟨-, hconsumes⟩
    exact ⟨startsWith_toDecl fun names _ => hdecl names,
      hprogresses.passes (hconsumes.passes rfl).of_setMode⟩

theorem parseIncludeDecl_ends
    (hkind : p.tok.tokenKind = .kwInclude ∨ p.tok.tokenKind = .kwSubninja) :
  Ends (ReadsBehindDollar data) (parseIncludeDecl data p) fun next =>
    StartsWith data p.tok next.1 ∧ Passes data p next.2
  := by
  have hdecl (path : Manifest.Token) :
      StartsWith data p.tok (.includeDecl (p.tok.tokenKind = .kwInclude) path) := by
    right
    obtain hkind | hkind := hkind
    · rw [Form.ofToken, hkind]
      rfl
    · rw [Form.ofToken, hkind]
      rfl
  apply (consumeExpectedToken_ends (p := p.setMode .pathString) h).bind
  rintro ⟨keyword, p₁⟩ ⟨-, h₁⟩
  have hprogresses := h₁.toProgresses.of_setMode
  dsimp only at hprogresses ⊢
  split_ifs
  · apply (failLine_ends _ (p := p₁.setMode .none) h₁.le_length).bind
    rintro ⟨parsed, next⟩ ⟨-, hconsumes⟩
    exact ⟨startsWith_toDecl fun path _ => hdecl path,
      hprogresses.passes (hconsumes.passes rfl).of_setMode⟩
  · apply Ends.bind (p := fun next => Passes data p next.2)
    · apply (consumeExpectedToken_ends (p := p₁.setMode .none) h₁.le_length).bind
      rintro ⟨path, p₂⟩ ⟨-, h₂⟩
      refine (endLine_ends _ h₂.le_length).imp ?_
      rintro ⟨parsed, next⟩ ⟨-, hconsumes⟩
      exact (hprogresses.trans h₂.toProgresses.of_setMode.toFollows).passes
        (hconsumes.passes h₂.mode)
    · rintro ⟨parsed, next⟩ hpasses
      exact ⟨startsWith_toDecl fun path _ => hdecl path, hpasses⟩

end

/-! ### Declarations with parameters -/

/-- The parser has come to the end of a specifier, in no special mode. -/
structure Specifies {α : Type} (data : Bytes) (p : Parser) (next : Parsed α × Parser) : Prop where
  progresses : Progresses data p next.2
  mode : next.2.lexer.mode = .none
  atTop : ∀ a, next.1 = .ok a → AtTop data next.2

theorem Progresses.specifies {q : Parser} {next : Parsed α × Parser} (h : Progresses data p q)
    (h' : Follows data q next.2) (hmode : next.2.lexer.mode = .none)
    (htop : ∀ a, next.1 = .ok a → AtTop data next.2) :
  Specifies data p next
  := ⟨h.trans h', hmode, htop⟩

theorem endSpecifier_ends (a : α) (h : p.lexer.bufferPos ≤ data.length)
    (hmode : p.lexer.mode = .none) :
  Ends (ReadsBehindDollar data) (endSpecifier data a p) fun next =>
    Follows data p next.2 ∧ next.2.lexer.mode = .none
      ∧ ∀ a, next.1 = .ok a → AtTop data next.2
  := by
  apply (consumeIfToken_ends .newline h).bind
  rintro ⟨isThere, next⟩ ⟨hthere, hmissing, hfollows, hmode'⟩
  dsimp only at hthere hmissing hfollows hmode' ⊢
  split_ifs with his
  · exact ⟨hfollows, hmode'.trans hmode, fun _ _ => (hthere his).atTop hmode⟩
  · exact ⟨hfollows, hmode'.trans hmode, nofun⟩

theorem parseBuildInputs_ends (outputs implicitOutputs : List Manifest.Token)
    (h : p.lexer.bufferPos ≤ data.length) :
  Ends (ReadsBehindDollar data) (parseBuildInputs data outputs implicitOutputs p)
    (Specifies data p)
  := by
  apply (consumeExpectedToken_ends (p := p.setMode .identifierSpecific) h).bind
  rintro ⟨colon, p₁⟩ ⟨-, h₁⟩
  have hprogresses := h₁.toProgresses.of_setMode
  dsimp only at hprogresses ⊢
  split_ifs
  · exact hprogresses.specifies (q := p₁) ⟨h₁.le_length, le_refl _⟩ rfl nofun
  apply (consumeExpectedToken_ends (p := p₁.setMode .pathString) h₁.le_length).bind
  rintro ⟨name, p₂⟩ ⟨-, h₂⟩
  apply (parsePaths_ends h₂.le_length).bind
  rintro ⟨inputs, p₃⟩ ⟨h₃, -⟩
  apply (parsePathsAfter_ends .pipe h₃.le_length).bind
  rintro ⟨implicitInputs, p₄⟩ ⟨h₄, -⟩
  apply (parsePathsAfter_ends .pipePipe h₄.le_length).bind
  rintro ⟨orderOnlyInputs, p₅⟩ ⟨h₅, -⟩
  have hfollows := ((h₂.toProgresses.of_setMode.toFollows.trans h₃).trans h₄).trans h₅
  refine (endSpecifier_ends _ (p := p₅.setMode .none) h₅.le_length rfl).imp ?_
  rintro ⟨specifier, next⟩ ⟨hnext, hmode, htop⟩
  exact (hprogresses.trans hfollows).specifies ⟨hnext.le_length, hnext.room_le⟩ hmode htop

theorem parseBuildSpecifier_ends (h : p.lexer.bufferPos ≤ data.length) :
  Ends (ReadsBehindDollar data) (parseBuildSpecifier data p) (Specifies data p)
  := by
  apply (consumeExpectedToken_ends (p := p.setMode .pathString) h).bind
  rintro ⟨keyword, p₁⟩ ⟨-, h₁⟩
  have hprogresses := h₁.toProgresses.of_setMode
  dsimp only at hprogresses ⊢
  split_ifs
  · exact hprogresses.specifies (q := p₁) ⟨h₁.le_length, le_refl _⟩ rfl nofun
  apply (parsePaths_ends h₁.le_length).bind
  rintro ⟨outputs, p₂⟩ ⟨h₂, -⟩
  apply (parsePathsAfter_ends .pipe h₂.le_length).bind
  rintro ⟨implicitOutputs, p₃⟩ ⟨h₃, -⟩
  have hprogresses' := hprogresses.trans (h₂.trans h₃)
  split_ifs
  · exact hprogresses'.specifies (q := p₃) ⟨h₃.le_length, le_refl _⟩ rfl nofun
  · refine (parseBuildInputs_ends outputs implicitOutputs h₃.le_length).imp ?_
    rintro next ⟨hnext, hmode, htop⟩
    exact hprogresses'.specifies hnext.toFollows hmode htop

theorem parseNameSpecifier_ends (message : String) (h : p.lexer.bufferPos ≤ data.length) :
  Ends (ReadsBehindDollar data) (parseNameSpecifier data message p) (Specifies data p)
  := by
  apply (consumeExpectedToken_ends (p := p.setMode .identifierSpecific) h).bind
  rintro ⟨keyword, p₁⟩ ⟨-, h₁⟩
  have hprogresses := h₁.toProgresses.of_setMode
  dsimp only at hprogresses ⊢
  split_ifs
  · exact hprogresses.specifies (q := p₁) ⟨h₁.le_length, le_refl _⟩ rfl nofun
  apply (consumeExpectedToken_ends (p := p₁.setMode .none) h₁.le_length).bind
  rintro ⟨name, p₂⟩ ⟨-, h₂⟩
  refine (endSpecifier_ends _ h₂.le_length h₂.mode).imp ?_
  rintro ⟨specifier, next⟩ ⟨hnext, hmode, htop⟩
  exact (hprogresses.trans h₂.toProgresses.of_setMode.toFollows).specifies hnext hmode htop

/-- A token that is not the end of the file has bytes. -/
theorem Progresses.bufferPos_lt (h : Progresses data p p') (hkind : p'.tok.tokenKind ≠ .endOfFile) :
  p.lexer.bufferPos < p'.lexer.bufferPos
  := by
  have hroom := h.room_le
  have hlt := h.room_lt
  rw [room, room, if_neg hkind] at hroom hlt
  split_ifs at hroom hlt with heof
  · omega
  · have hlt := hlt heof
    omega

theorem skipIndented_ends
    (h : p.lexer.bufferPos ≤ data.length) (hmode : p.lexer.mode = .none)
    (hsteps : data.length - p.lexer.bufferPos < steps) :
  Ends (ReadsBehindDollar data) (skipIndented data steps p) (Passes data p)
  := by
  induction steps generalizing p with
  | zero => cases hsteps
  | succ steps ih =>
    apply (skipPastEOL_ends h).bind
    intro next hconsumes
    split_ifs with hkind
    · have hlt := hconsumes.bufferPos_lt (by rw [hkind]; decide)
      have hle := hconsumes.le_length
      refine (ih hle (hconsumes.mode.trans hmode) (by omega)).imp ?_
      exact fun last hlast => hconsumes.toProgresses.passes hlast
    · exact hconsumes.passes hmode

theorem parseBindings_ends
    (h : p.lexer.bufferPos ≤ data.length) (htop : AtTop data p) (hsteps : room data p < steps) :
  Ends (ReadsBehindDollar data) (parseBindings data steps p) fun next =>
    Follows data p next.2 ∧ AtTop data next.2
  := by
  induction steps generalizing p with
  | zero => cases hsteps
  | succ steps ih =>
    rw [parseBindings]
    split_ifs with hkind
    · apply (consumeExpectedToken_ends (p := p.setMode .identifierSpecific) h).bind
      rintro ⟨indentation, p₁⟩ ⟨-, h₁⟩
      have hprogresses := h₁.toProgresses.of_setMode
      have hlt := hprogresses.room_lt (by rw [hkind]; decide)
      dsimp only at hprogresses hlt ⊢
      split_ifs
      · apply (consumeExpectedToken_ends (p := p₁.setMode .none) h₁.le_length).bind
        rintro ⟨newline, p₂⟩ ⟨-, h₂⟩
        have hpasses := (h₂.passes rfl).of_setMode
        have hroom := hpasses.room_le
        refine (ih hpasses.le_length hpasses.atTop (by omega)).imp ?_
        rintro next ⟨hfollows, htop⟩
        exact ⟨(hprogresses.toFollows.trans hpasses.toFollows).trans hfollows, htop⟩
      · apply (parseBindingInternal_ends h₁.le_length).bind
        rintro ⟨binding, p₂⟩ ⟨-, hpasses⟩
        have hroom := hpasses.room_le
        dsimp only at hpasses hroom ⊢
        apply (ih hpasses.le_length hpasses.atTop (by omega)).bind
        rintro ⟨bindings, next⟩ ⟨hfollows, htop⟩
        exact ⟨(hprogresses.toFollows.trans hpasses.toFollows).trans hfollows, htop⟩
    · exact ⟨Follows.refl h, htop⟩

theorem parseParameters_ends {decl : α → List Binding → Decl}
    {specified : Parsed α × Parser} {tok : Token} (h : Specifies data p specified)
    (hdecl : ∀ a bindings, StartsWith data tok (decl a bindings)) :
  Ends (ReadsBehindDollar data) (parseParameters data decl specified.1 specified.2) fun next =>
    StartsWith data tok next.1 ∧ Passes data p next.2
  := by
  obtain ⟨hprogresses, hmode, htop⟩ := h
  obtain ⟨specifier, p'⟩ := specified
  cases specifier with
  | error reported =>
    have hsteps : data.length - p'.lexer.bufferPos < data.length + 2 := by omega
    apply (skipIndented_ends hprogresses.le_length hmode hsteps).bind
    intro next hpasses
    exact ⟨startsWith_error tok _ _, hprogresses.passes hpasses⟩
  | ok specifier =>
    apply (parseBindings_ends hprogresses.le_length (htop specifier rfl)
      (room_lt_length_add_two data p')).bind
    rintro ⟨bindings, next⟩ ⟨hfollows, htop⟩
    exact ⟨hdecl specifier bindings, hprogresses.trans hfollows, htop⟩

theorem parseParameterizedDecl_ends (h : p.lexer.bufferPos ≤ data.length)
    (hkind : p.tok.tokenKind ∈ [.kwBuild, .kwRule, .kwPool]) :
  Ends (ReadsBehindDollar data) (parseParameterizedDecl data p) fun next =>
    StartsWith data p.tok next.1 ∧ Passes data p next.2
  := by
  rw [parseParameterizedDecl]
  split
  next hbuild =>
    apply (parseBuildSpecifier_ends h).bind
    intro specified hspecified
    apply parseParameters_ends hspecified
    intro specifier bindings
    right
    rw [Form.ofToken, hbuild]
    rfl
  next hpool =>
    apply (parseNameSpecifier_ends _ h).bind
    intro specified hspecified
    apply parseParameters_ends hspecified
    intro specifier bindings
    right
    rw [Form.ofToken, hpool]
    rfl
  next hbuild hpool =>
    have hrule : p.tok.tokenKind = .kwRule := by
      simp only [List.mem_cons] at hkind
      tauto
    apply (parseNameSpecifier_ends _ h).bind
    intro specified hspecified
    apply parseParameters_ends hspecified
    intro specifier bindings
    right
    rw [Form.ofToken, hrule]
    rfl

/-! ### Files -/

/-- What is found at the start of a declaration: nothing on an empty line. -/
def IsFound (data : Bytes) (tok : Token) (decl : Option Decl) : Prop :=
  match decl with
  | none => tok.tokenKind = .newline
  | some decl => StartsWith data tok decl

/-- A declaration is parsed: what is found starts with the current token, and the next
declaration starts with a token that was found in no special mode. -/
theorem parseDecl_ends (htop : AtTop data p) :
  Ends (ReadsBehindDollar data) (parseDecl data p) fun next =>
    IsFound data p.tok next.1 ∧ Passes data p next.2
  := by
  obtain ⟨lexer, hmode, hle, hlex⟩ := id htop
  have h : p.lexer.bufferPos ≤ data.length := ((lex_ends hle).of_eq hlex).stop_le
  have hmode := htop.mode
  -- The declaration of a branch is returned as it is.
  have hsome {decl : Except Fault (Decl × Parser)}
      (hdecl : Ends (ReadsBehindDollar data) decl fun next =>
        StartsWith data p.tok next.1 ∧ Passes data p next.2) :
      Ends (ReadsBehindDollar data) (decl >>= fun next => pure (some next.1, next.2)) fun next =>
        IsFound data p.tok next.1 ∧ Passes data p next.2 := by
    apply hdecl.bind
    rintro ⟨decl, next⟩ ⟨hstarts, hpasses⟩
    exact ⟨hstarts, hpasses⟩
  rw [parseDecl]
  split
  next hkind =>
    apply (consumeToken_ends h).bind
    intro next hconsumes
    exact ⟨hkind, hconsumes.passes hmode⟩
  next hkind => exact hsome (parseParameterizedDecl_ends h (by rw [hkind]; decide))
  next hkind => exact hsome (parseParameterizedDecl_ends h (by rw [hkind]; decide))
  next hkind => exact hsome (parseParameterizedDecl_ends h (by rw [hkind]; decide))
  next hkind => exact hsome (parseDefaultDecl_ends h hkind)
  next hkind => exact hsome (parseIncludeDecl_ends h (.inl hkind))
  next hkind => exact hsome (parseIncludeDecl_ends h (.inr hkind))
  next hkind => exact hsome (parseBindingDecl_ends h hkind)
  next =>
    apply (failLine_ends _ h).bind
    rintro ⟨parsed, next⟩ ⟨rfl, hconsumes⟩
    exact ⟨startsWith_error _ _ _, hconsumes.passes hmode⟩

theorem parseDecls_ends (htop : AtTop data p) (hsteps : room data p < steps) :
  Ends (ReadsBehindDollar data) (parseDecls data steps p) fun _ => True
  := by
  induction steps generalizing p with
  | zero => cases hsteps
  | succ steps ih =>
    rw [parseDecls]
    split_ifs with hkind
    · exact trivial
    · apply (parseDecl_ends htop).bind
      rintro ⟨decl, next⟩ ⟨-, hpasses⟩
      have hlt := hpasses.room_lt hkind
      apply (ih hpasses.atTop (lt_of_lt_of_le hlt (le_of_lt_succ hsteps))).bind
      exact fun _ _ => trivial

/-- The first token of a file is found in no special mode. -/
theorem getNextNonCommentToken_initial (data : Bytes) :
  Ends (ReadsBehindDollar data) (getNextNonCommentToken data (data.length + 1) .initial)
    (AtTop data)
  := (getNextNonCommentToken_ends (initial_le data) (sub_lt_length_add_one data .initial)).imp
    fun _ hfound => hfound.2.2 rfl

/-- The parser comes to the end of every file, unless the last byte is a dollar sign and the
lexer reads behind it. -/
theorem parse_ends (data : Bytes) :
  Ends (ReadsBehindDollar data) (parse data) fun _ => True
  := (getNextNonCommentToken_initial data).bind fun p htop =>
    parseDecls_ends htop (room_lt_length_add_two data p)

end LLBuild.Ninja.Parser

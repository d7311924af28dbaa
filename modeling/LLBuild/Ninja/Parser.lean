import LLBuild.Ninja.Lexer
import LLBuild.Ninja.ManifestLoader

/-!
# The parser of Ninja manifests

The parser looks at one token at a time.  The lexer finds the next token when the current one
is consumed, so the parser sets the mode of the lexer before that.  What the parser finds in a
file is a sequence of declarations and errors, in the order in which the loader acts on them.

After an error in a declaration the parser goes on with the next line, or, if the declaration
has parameters, with the next line that is not indented.
-/

namespace LLBuild.Ninja

open BinaryCoding Buffer
open Manifest (Binding BuildSpecifier Decl)

/-- The parser: the lexer, and the token that was found last. -/
structure Parser where
  lexer : Lexer
  tok : Token
  deriving DecidableEq

/-- The part of a buffer that a token stands for. -/
def Token.text (data : Bytes) (token : Token) : Bytes :=
  slice data token.start (token.start + token.length.toNat)

/-- A token, as the loader sees it. -/
def Token.toManifest (data : Bytes) (token : Token) : Manifest.Token :=
  ⟨token.start, token.text data⟩

/-- What the parser finds: a value, or an error that it reports at a token. -/
abbrev Parsed (α : Type) : Type := Except (Bytes × Manifest.Token) α

namespace Parser

def setMode (mode : LexingMode) (p : Parser) : Parser :=
  { p with lexer := { p.lexer with mode := mode } }

variable (data : Bytes) {α : Type} (message : String)

variable (p : Parser)

/-- An error at the current token. -/
def error : Parsed α :=
  .error (ascii message, p.tok.toManifest data)

/-! ### Tokens -/

/-- Find the next token that is not a comment. -/
def getNextNonCommentToken : (steps : ℕ) → Lexer → Except Fault Parser
  | 0, _ => .error .unterminated
  | steps + 1, lexer => do
      let (tok, lexer) ← lexer.lex data
      if tok.tokenKind = .comment then getNextNonCommentToken steps lexer
      else return ⟨lexer, tok⟩

/-- Consume the current token. -/
def consumeToken : Except Fault Parser :=
  getNextNonCommentToken data (data.length + 1) p.lexer

/-- Consume the current token, which is of the expected kind, and return it. -/
def consumeExpectedToken : Except Fault (Manifest.Token × Parser) := do
  let next ← consumeToken data p
  return (p.tok.toManifest data, next)

/-- Consume the current token if it is of the given kind. -/
def consumeIfToken (kind : Token.Kind) (p : Parser) : Except Fault (Bool × Parser) :=
  if p.tok.tokenKind = kind then do
    let p ← consumeToken data p
    return (true, p)
  else return (false, p)

/-- Find tokens, comments too, until there is a newline or the end of the file. -/
def skipToEOL : (steps : ℕ) → Parser → Except Fault Parser
  | 0, _ => .error .unterminated
  | steps + 1, p =>
      if p.tok.tokenKind = .newline ∨ p.tok.tokenKind = .endOfFile then return p
      else do
        let (tok, lexer) ← p.lexer.lex data
        skipToEOL steps ⟨lexer, tok⟩

/-- Consume tokens until past the next newline; at least one token is consumed. -/
def skipPastEOL : Except Fault Parser := do
  let p ← skipToEOL data (data.length + 2) p
  consumeToken data p

/-- Consume the strings that come next. -/
def consumeStrings : (steps : ℕ) → Parser → Except Fault (List Manifest.Token × Parser)
  | 0, _ => .error .unterminated
  | steps + 1, p =>
      if p.tok.tokenKind = .string then do
        let (string, p) ← consumeExpectedToken data p
        let (strings, p) ← consumeStrings steps p
        return (string :: strings, p)
      else return ([], p)

/-- Consume a list of paths. -/
def parsePaths : Except Fault (List Manifest.Token × Parser) :=
  consumeStrings data (data.length + 2) p

/-- Consume a separator and a list of paths, if the separator is there. -/
def parsePathsAfter (kind : Token.Kind) (p : Parser) :
    Except Fault (List Manifest.Token × Parser) := do
  let (isThere, p) ← consumeIfToken data kind p
  if isThere then parsePaths data p else return ([], p)

/-! ### Bindings -/

/-- An error at the current token of a line, which is skipped. -/
def failLine : Except Fault (Parsed α × Parser) := do
  let next ← skipPastEOL data p
  return (error data message p, next)

/-- The end of a declaration that fills a line. -/
def endLine (a : α) (p : Parser) : Except Fault (Parsed α × Parser) := do
  let (isThere, p) ← consumeIfToken data .newline p
  if isThere then return (.ok a, p) else failLine data "expected newline token" p

/-- Parse a variable binding: its name and its value. -/
def parseBindingInternal :
    Except Fault (Parsed (Manifest.Token × Manifest.Token) × Parser) :=
  if p.tok.tokenKind ≠ .identifier then
    failLine data "expected variable name" (p.setMode .none)
  else do
    let (name, p) ← consumeExpectedToken data p
    if p.tok.tokenKind ≠ .equals then
      failLine data "expected '=' token" (p.setMode .none)
    else
      -- The value is found when the equals sign is consumed.
      let (_, p) ← consumeExpectedToken data (p.setMode .variableString)
      let p := p.setMode .none
      if p.tok.tokenKind = .newline then
        let (value, p) ← consumeExpectedToken data p
        return (.ok (name, { value with text := [] }), p)
      else if p.tok.tokenKind ≠ .string then failLine data "expected variable value" p
      else
        let (value, p) ← consumeExpectedToken data p
        endLine data (name, value) p

/-- What the parser of a declaration without parameters found, as a declaration. -/
def toDecl (decl : α → Decl) : Parsed α → Decl
  | .ok a => decl a
  | .error (message, token) => .error message token

def parseBindingDecl : Except Fault (Decl × Parser) := do
  let (binding, p) ← parseBindingInternal data p
  return (toDecl (fun binding => .bindingDecl binding.1 binding.2) binding, p)

/-! ### Default and include declarations -/

def parseDefaultDecl : Except Fault (Decl × Parser) := do
  let (_, p) ← consumeExpectedToken data (p.setMode .pathString)
  let (names, p) ← parsePaths data p
  let p := p.setMode .none
  let (names, p) ← (if names = [] then failLine data "expected target path string" p
    else endLine data names p)
  return (toDecl .defaultDecl names, p)

def parseIncludeDecl : Except Fault (Decl × Parser) := do
  let isInclude := p.tok.tokenKind = .kwInclude
  let (_, p) ← consumeExpectedToken data (p.setMode .pathString)
  let p := p.setMode .none
  let (path, p) ← (if p.tok.tokenKind ≠ .string then failLine data "expected path string" p
    else do
      let (path, p) ← consumeExpectedToken data p
      endLine data path p)
  return (toDecl (.includeDecl isInclude) path, p)

/-! ### Declarations with parameters -/

/-- The end of a specifier. -/
def endSpecifier (a : α) (p : Parser) : Except Fault (Parsed α × Parser) := do
  let (isThere, p) ← consumeIfToken data .newline p
  if isThere then return (.ok a, p) else return (error data "expected newline token" p, p)

/-- An error in a specifier of a build statement. -/
def failSpecifier : Except Fault (Parsed α × Parser) :=
  return (error data message p, p.setMode .none)

/-- The rule and the inputs of a build statement, from the colon on. -/
def parseBuildInputs (outputs implicitOutputs : List Manifest.Token) (p : Parser) :
    Except Fault (Parsed BuildSpecifier × Parser) := do
  -- The name of the rule is found when the colon is consumed.
  let (_, p) ← consumeExpectedToken data (p.setMode .identifierSpecific)
  let p := p.setMode .pathString
  if p.tok.tokenKind ≠ .identifier then failSpecifier data "expected rule name identifier" p
  else
    let (name, p) ← consumeExpectedToken data p
    let (inputs, p) ← parsePaths data p
    let (implicitInputs, p) ← parsePathsAfter data .pipe p
    let (orderOnlyInputs, p) ← parsePathsAfter data .pipePipe p
    endSpecifier data ⟨name, outputs, implicitOutputs, inputs, implicitInputs, orderOnlyInputs⟩
      (p.setMode .none)

def parseBuildSpecifier : Except Fault (Parsed BuildSpecifier × Parser) := do
  let (_, p) ← consumeExpectedToken data (p.setMode .pathString)
  if p.tok.tokenKind ≠ .string then failSpecifier data "expected output path string" p
  else
    let (outputs, p) ← parsePaths data p
    let (implicitOutputs, p) ← parsePathsAfter data .pipe p
    if p.tok.tokenKind ≠ .colon then failSpecifier data "expected ':' token" p
    else parseBuildInputs data outputs implicitOutputs p

/-- The name of a pool or a rule. -/
def parseNameSpecifier :
    Except Fault (Parsed Manifest.Token × Parser) := do
  let (_, p) ← consumeExpectedToken data (p.setMode .identifierSpecific)
  let p := p.setMode .none
  if p.tok.tokenKind ≠ .identifier then return (error data message p, p)
  else
    let (name, p) ← consumeExpectedToken data p
    endSpecifier data name p

def parsePoolSpecifier : Except Fault (Parsed Manifest.Token × Parser) :=
  parseNameSpecifier data "expected pool name identifier" p

def parseRuleSpecifier : Except Fault (Parsed Manifest.Token × Parser) :=
  parseNameSpecifier data "expected rule name identifier" p

/-- Skip the rest of a declaration: its line and the indented lines after it. -/
def skipIndented : (steps : ℕ) → Parser → Except Fault Parser
  | 0, _ => .error .unterminated
  | steps + 1, p => do
      let p ← skipPastEOL data p
      if p.tok.tokenKind = .indentation then skipIndented steps p else return p

/-- A binding in a declaration. -/
def toBinding : Parsed (Manifest.Token × Manifest.Token) → Binding
  | .ok (name, value) => .decl name value
  | .error (message, token) => .error message token

/-- Parse the indented bindings of a declaration. -/
def parseBindings : (steps : ℕ) → Parser → Except Fault (List Binding × Parser)
  | 0, _ => .error .unterminated
  | steps + 1, p =>
      if p.tok.tokenKind = .indentation then do
        let (_, p) ← consumeExpectedToken data (p.setMode .identifierSpecific)
        if p.tok.tokenKind = .newline then
          -- Blank lines are allowed.
          let (_, p) ← consumeExpectedToken data (p.setMode .none)
          parseBindings steps p
        else
          let (binding, p) ← parseBindingInternal data p
          let (bindings, p) ← parseBindings steps p
          return (toBinding binding :: bindings, p)
      else return ([], p)

/-- What follows the specifier of a declaration with parameters. -/
def parseParameters (decl : α → List Binding → Decl) (specifier : Parsed α)
    (p : Parser) : Except Fault (Decl × Parser) :=
  match specifier with
  | .error (message, token) => do
      let p ← skipIndented data (data.length + 2) p
      return (.error message token, p)
  | .ok specifier => do
      let (bindings, p) ← parseBindings data (data.length + 2) p
      return (decl specifier bindings, p)

/-- Parse a declaration with parameters. -/
def parseParameterizedDecl : Except Fault (Decl × Parser) := do
  let startTok := p.tok.toManifest data
  match p.tok.tokenKind with
  | .kwBuild =>
      let (specifier, p) ← parseBuildSpecifier data p
      parseParameters data (.buildDecl startTok) specifier p
  | .kwPool =>
      let (specifier, p) ← parsePoolSpecifier data p
      parseParameters data (.poolDecl startTok) specifier p
  | _ =>
      let (specifier, p) ← parseRuleSpecifier data p
      parseParameters data (.ruleDecl startTok) specifier p

/-! ### Files -/

/-- Parse a declaration; there is none on an empty line. -/
def parseDecl : Except Fault (Option Decl × Parser) :=
  match p.tok.tokenKind with
  | .newline => do
      let p ← consumeToken data p
      return (none, p)
  | .kwBuild | .kwRule | .kwPool => do
      let (decl, p) ← parseParameterizedDecl data p
      return (some decl, p)
  | .kwDefault => do
      let (decl, p) ← parseDefaultDecl data p
      return (some decl, p)
  | .kwInclude | .kwSubninja => do
      let (decl, p) ← parseIncludeDecl data p
      return (some decl, p)
  | .identifier => do
      let (decl, p) ← parseBindingDecl data p
      return (some decl, p)
  | _ => do
      let (decl, p) ← failLine data "unexpected token" p
      return (some (toDecl id decl), p)

/-- Parse the declarations up to the end of the file. -/
def parseDecls : (steps : ℕ) → Parser → Except Fault (List Decl)
  | 0, _ => .error .unterminated
  | steps + 1, p =>
      if p.tok.tokenKind = .endOfFile then return []
      else do
        let (decl, p) ← parseDecl data p
        let decls ← parseDecls steps p
        return decl.toList ++ decls

/-- Parse a file. -/
def parse : Except Fault (List Decl) := do
  let p ← getNextNonCommentToken data (data.length + 1) .initial
  parseDecls data (data.length + 2) p

end Parser

end LLBuild.Ninja

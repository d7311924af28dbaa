import LLBuild.Basic.ShellUtility
import LLBuild.Basic.Template
import LLBuild.Ninja.EvalString
import LLBuild.Ninja.Manifest

/-!
# Loading Ninja manifests

The loader acts on the declarations the parsers find, one after the other.  A file that is
included is entered at once, and the including file goes on when it is exited; the file of
a `subninja` declaration has a scope of its own.  A step of the loader acts on the next
declaration of the current file, or exits the file.

Variables of the files and of the build statements are evaluated when they are declared.
The parameters of a rule are evaluated for each command, at the end of its build
statement, and refer to each other: `lookupBuildParameter` and `evalString` call each other,
as deep as the stack allows.
-/

namespace LLBuild.Ninja.Manifest

open BinaryCoding

/-- A token of a file. -/
structure Token where
  start : ℕ
  text : Bytes
  deriving DecidableEq

/-- A binding in a declaration, or the error the parser reports for it. -/
inductive Binding
  | decl (name value : Token)
  | error (message : Bytes) (token : Token)
  deriving DecidableEq

/-- What a build statement says before its bindings. -/
structure BuildSpecifier where
  name : Token
  outputs : List Token
  implicitOutputs : List Token := []
  inputs : List Token := []
  implicitInputs : List Token := []
  orderOnlyInputs : List Token := []
  deriving DecidableEq

/-- What the parser of a file finds. -/
inductive Decl
  | error (message : Bytes) (token : Token)
  | bindingDecl (name value : Token)
  | defaultDecl (names : List Token)
  | includeDecl (isInclude : Bool) (path : Token)
  | buildDecl (startTok : Token) (specifier : BuildSpecifier) (bindings : List Binding)
  | poolDecl (startTok name : Token) (bindings : List Binding)
  | ruleDecl (startTok name : Token) (bindings : List Binding)
  deriving DecidableEq

/-- A file that was read, with the declarations its parser finds. -/
structure File where
  identifier : Bytes
  decls : List Decl

/-- The files, and the normal forms of paths; both depend on the working directory. -/
structure Environment where
  readFile : Bytes → Option File
  normalizePath : Bytes → Option Bytes

/-- An error that is reported. -/
structure Diagnostic where
  filename : Bytes
  message : Bytes
  token : Token
  deriving DecidableEq

/-- A file that was entered, with the declarations that are still to come. -/
structure IncludeEntry where
  filename : Bytes
  decls : List Decl
  isSubninja : Bool

/-- The state of the loader. The scope is the one of the current file, and the parents are
its parent, the parent of its parent and so on. -/
structure Loader where
  manifest : Manifest := {}
  scope : Scope := rootScope
  parents : List Scope := []
  includeStack : List IncludeEntry := []
  errors : List Diagnostic := []

/-- The loader cannot go on: a recursion is too deep for the stack, or a null pointer to a
node was to be used. -/
inductive Trap
  | stackOverflow
  | nullNode
  deriving DecidableEq

/-! ### Strings -/

/-- What the evaluation of a string puts out: characters of the result, and errors. -/
inductive Output
  | char (c : UInt8)
  | error (message : Bytes)
  deriving DecidableEq

namespace Output

def chars (text : Bytes) : List Output := text.map char

/-- The character of a symbol of the result. -/
def text : Output → Bytes
  | char c => [c]
  | error _ => []

/-- The result of an evaluation. -/
def result (output : List Output) : Bytes := output.flatMap text

/-- The errors of an evaluation. -/
def messages (output : List Output) : List Bytes :=
  output.flatMap (fun symbol =>
    match symbol with
    | char _ => []
    | error message => [message])

end Output

/-- What the evaluation does with a piece of a string. -/
def toPiece (error : Bytes → Bytes) : StringPiece → Template.Piece Bytes Output
  | .text text => .emit (Output.chars text)
  | .reference name => .reference name
  | .error message => .emit [.error (error message)]

/-- The pieces of a string, as they are evaluated. -/
def template (error : Bytes → Bytes) (string : Bytes) : List (Template.Piece Bytes Output) :=
  (pieces string).map (toPiece error)

/-- Evaluate a string; the variables are looked up as they are found. -/
def evalString (string : Bytes) (lookup : Bytes → Option (List Output))
    (error : Bytes → Bytes) : Option (List Output) :=
  Template.substitute lookup (template error string)

namespace Loader

variable (l : Loader)

/-- The scope of the current file and its parents. -/
def scopes : List Scope := l.scope :: l.parents

def getCurrentFilename : Bytes :=
  (l.includeStack.head?.map IncludeEntry.filename).getD []

/-- Report errors at a token. -/
def report (messages : List Bytes) (token : Token) (l : Loader) : Loader :=
  { l with errors := l.errors ++ messages.map (⟨l.getCurrentFilename, ·, token⟩) }

/-- Report an error. -/
def error (message : Bytes) (token : Token) (l : Loader) : Loader := l.report [message] token

/-- The value of a string with the bindings of the scopes. No lookup of a binding fails. -/
def evalInScopes (scopes : List Scope) (string : Bytes) : List Output :=
  Template.render (fun name => Output.chars (lookupBinding scopes name)) (template id string)

/-- Evaluate a token with the bindings of the files. -/
def evalToken (value : Token) (l : Loader) : Bytes × Loader :=
  let output := evalInScopes l.scopes value.text
  (Output.result output, l.report (Output.messages output) value)

/-! ### Files -/

variable (env : Environment)

/-- Enter a file, if it can be read. -/
def enterFile (filename : Bytes) (isSubninja : Bool) (l : Loader) : Loader :=
  match env.readFile filename with
  | none => l
  | some file =>
      let entry := ⟨file.identifier, file.decls, isSubninja⟩
      let l := { l with includeStack := entry :: l.includeStack }
      if isSubninja then { l with scope := {}, parents := l.scope :: l.parents } else l

/-- Exit the current file. -/
def exitCurrentFile : Loader :=
  match l.includeStack with
  | [] => l
  | entry :: includeStack =>
      let l := { l with includeStack := includeStack }
      if entry.isSubninja then
        match l.parents with
        | [] => l
        | parent :: parents => { l with scope := parent, parents := parents }
      else l

/-! ### Declarations without parameters -/

variable (nameTok valueTok : Token)

def actOnBindingDecl (l : Loader) : Loader :=
  let (value, l) := l.evalToken valueTok
  { l with scope := { l.scope with entries := l.scope.entries.insert nameTok.text value } }

def actOnDefaultDecl (nameToks : List Token) (l : Loader) : Loader :=
  nameToks.foldl (fun l nameTok =>
    match l.manifest.findNode env.normalizePath nameTok.text with
    | none => l.error (ascii "unknown target name") nameTok
    | some node =>
        { l with manifest := { l.manifest with
            defaultTargets := l.manifest.defaultTargets ++ [node] } }) l

def actOnIncludeDecl (isInclude : Bool) (pathTok : Token) (l : Loader) : Loader :=
  let (path, l) := l.evalToken pathTok
  l.enterFile env path (!isInclude)

/-! ### Build statements -/

/-- The path of a token and its node. -/
def resolveNode (emptyPath : Bytes) (token : Token) (l : Loader) :
    Option (Bytes × Node × Loader) :=
  let (path, l) := l.evalToken token
  let l := if path = [] then l.error emptyPath token else l
  (l.manifest.findOrCreateNode env.normalizePath path).map (fun found =>
    (path, found.1, { l with manifest := found.2 }))

/-- Resolve the outputs of a build statement, each of which is recorded once.
`numExplicitOutputs` is the number of the explicit outputs that remain. -/
def resolveOutputs : List (Token × Bool) → List Node → (numExplicitOutputs : ℕ) → Loader →
    Option (List Node × ℕ × Loader)
  | [], outputs, numExplicitOutputs, l => some (outputs, numExplicitOutputs, l)
  | (token, isExplicit) :: tokens, outputs, numExplicitOutputs, l =>
      match l.resolveNode env (ascii "empty output path") token with
      | none => none
      | some (_, node, l) =>
          if node ∈ outputs then
            resolveOutputs tokens outputs
              (if isExplicit then numExplicitOutputs - 1 else numExplicitOutputs) l
          else resolveOutputs tokens (outputs ++ [node]) numExplicitOutputs l

/-- Resolve the inputs of a build statement. -/
def resolveInputs : List Token → List NodeInCommand → Loader →
    Option (List NodeInCommand × Loader)
  | [], inputs, l => some (inputs, l)
  | token :: tokens, inputs, l =>
      match l.resolveNode env (ascii "empty input path") token with
      | none => none
      | some (path, node, l) => resolveInputs tokens (inputs ++ [.ofPath node path]) l

/-- The rule of a name, which has to be declared in the scope of the file. -/
def resolveRule (nameTok : Token) (l : Loader) : Rule × Loader :=
  match l.scope.rules.lookup nameTok.text with
  | none => (phonyRule, l.error (ascii "unknown rule") nameTok)
  | some rule => (rule, l)

/-- The command of a build statement, unless a path has no normal form: its node would be a
null pointer. -/
def actOnBeginBuildDecl (specifier : BuildSpecifier) (l : Loader) : Option (Command × Loader) :=
  let (rule, l) := l.resolveRule specifier.name
  let outputTokens := specifier.outputs.map (·, true) ++ specifier.implicitOutputs.map (·, false)
  let inputTokens := specifier.inputs ++ specifier.implicitInputs ++ specifier.orderOnlyInputs
  match l.resolveOutputs env outputTokens [] specifier.outputs.length with
  | none => none
  | some (outputs, numExplicitOutputs, l) =>
      match l.resolveInputs env inputTokens [] with
      | none => none
      | some (inputs, l) => some (
          { rule := rule
            outputs := outputs
            inputs := inputs
            numExplicitInputs := specifier.inputs.length
            numImplicitInputs := specifier.implicitInputs.length
            numExplicitOutputs := numExplicitOutputs }, l)

/-- The value of a binding of a build statement is evaluated at once, with the bindings of
the files only. -/
def actOnBuildBindingDecl (decl : Command) (l : Loader) :
    Command × Loader :=
  let (value, l) := l.evalToken valueTok
  ({ decl with parameters := decl.parameters.insert nameTok.text value }, l)

/-- The bindings of a build statement. -/
def buildBindings : List Binding → Command → Loader → Command × Loader
  | [], decl, l => (decl, l)
  | .error message token :: bindings, decl, l =>
      buildBindings bindings decl (l.error message token)
  | .decl nameTok valueTok :: bindings, decl, l =>
      let (decl, l) := l.actOnBuildBindingDecl nameTok valueTok decl
      buildBindings bindings decl l

/-- The paths with a separator between them. -/
def joinPaths (separator : Char) (shellEscapeInAndOut : Bool) (paths : List Bytes) : Bytes :=
  [separator.toUInt8].intercalate
    (paths.map (fun path => if shellEscapeInAndOut then shellEscaped path else path))

/-- What a reference to a variable in a parameter of a rule stands for, unless the stack is
too small for the recursion. -/
def lookupBuildParameter (scopes : List Scope) (decl : Command) (shellEscapeInAndOut : Bool) :
    (depth : ℕ) → (name : Bytes) → Option (List Output)
  | 0, _ => none
  | depth + 1, name =>
      if name = ascii "in" ∨ name = ascii "in_newline" then
        let separator := if name = ascii "in" then ' ' else '\n'
        some (Output.chars (joinPaths separator shellEscapeInAndOut
          (decl.explicitInputs.map NodeInCommand.getScreenPath)))
      else if name = ascii "out" then
        some (Output.chars (joinPaths ' ' shellEscapeInAndOut
          (decl.explicitOutputs.map Node.screenPath)))
      else
        match decl.parameters.lookup name with
        | some value => some (Output.chars value)
        | none =>
            match decl.rule.parameters.lookup name with
            | some value =>
                evalString value (lookupBuildParameter scopes decl shellEscapeInAndOut depth)
                  (fun message => message ++ ascii " during evaluation of '" ++ name ++ ascii "'")
            | none => some (Output.chars (lookupBinding scopes name))

variable (depth : ℕ)

/-- Evaluate a parameter of a command. -/
def lookupNamedBuildParameter (decl : Command) (name : Bytes) (l : Loader) :
    Option (List Output) :=
  lookupBuildParameter l.scopes decl (name = ascii "command") depth name

/-- The style of the dependencies, and the error if there is no such style. -/
def depsStyleOf (deps depfile : Bytes) : DepsStyleKind × List Bytes :=
  if deps = [] then (if depfile ≠ [] then .gcc else .none, [])
  else if deps = ascii "gcc" then (.gcc, [])
  else if deps = ascii "msvc" then (.msvc, [])
  else (.none, [ascii "invalid 'deps' style '" ++ deps ++ ascii "'"])

/-- The file of the dependencies, and the error if it does not go with the style. -/
def depsFileOf (depsStyle : DepsStyleKind) (depfile : Bytes) : Bytes × List Bytes :=
  if depfile ≠ [] then
    if depsStyle ≠ .gcc then
      ([], [ascii "invalid 'depfile' attribute with selected 'deps' style"])
    else (depfile, [])
  else if depsStyle = .gcc then
    ([], [ascii "missing 'depfile' attribute with selected 'deps' style"])
  else ([], [])

/-- The pool of a name, and the error if there is none. -/
def executionPoolOf (poolName : Bytes) (l : Loader) : Option Pool × List Bytes :=
  if poolName = [] then (none, [])
  else
    match l.manifest.pools.lookup poolName with
    | none => (none, [ascii "unknown pool '" ++ poolName ++ ascii "'"])
    | some pool => (some pool, [])

/-- Evaluate the parameters of a command. -/
def actOnEndBuildDecl (startTok : Token) (decl : Command) (l : Loader) :
    Option (Command × Loader) := do
  let command ← l.lookupNamedBuildParameter depth decl (ascii "command")
  let description ← l.lookupNamedBuildParameter depth decl (ascii "description")
  let deps ← l.lookupNamedBuildParameter depth decl (ascii "deps")
  let depfile ← l.lookupNamedBuildParameter depth decl (ascii "depfile")
  let depsStyle := depsStyleOf (Output.result deps) (Output.result depfile)
  let depsFile := depsFileOf depsStyle.1 (Output.result depfile)
  let poolName ← l.lookupNamedBuildParameter depth decl (ascii "pool")
  let executionPool := l.executionPoolOf (Output.result poolName)
  let generator ← l.lookupNamedBuildParameter depth decl (ascii "generator")
  let restat ← l.lookupNamedBuildParameter depth decl (ascii "restat")
  let rspfile ← l.lookupNamedBuildParameter depth decl (ascii "rspfile")
  let decl' := { decl with
    commandString := Output.result command
    description := Output.result description
    depsStyle := depsStyle.1
    depsFile := depsFile.1
    executionPool := executionPool.1
    isGenerator := Output.result generator ≠ []
    shouldRestat := Output.result restat ≠ [] }
  let messages := Output.messages command ++ Output.messages description ++ Output.messages deps
    ++ Output.messages depfile ++ depsStyle.2 ++ depsFile.2 ++ Output.messages poolName
    ++ executionPool.2 ++ Output.messages generator ++ Output.messages restat
    ++ Output.messages rspfile
  let l' := l.report messages startTok
  if Output.result rspfile = [] then some (decl', l')
  else
    match env.normalizePath (Output.result rspfile) with
    | none => some (decl', l')
    | some rspFile => do
        let rspfileContent ← l.lookupNamedBuildParameter depth decl (ascii "rspfile_content")
        some ({ decl' with
          rspFile := rspFile
          rspFileContent := Output.result rspfileContent },
          l'.report (Output.messages rspfileContent) startTok)

/-- A build statement: the command is evaluated after all its bindings. -/
def actOnBuildDecl (startTok : Token) (specifier : BuildSpecifier)
    (bindings : List Binding) (l : Loader) : Except Trap Loader :=
  match l.actOnBeginBuildDecl env specifier with
  | none => .error .nullNode
  | some (decl, l) =>
      let (decl, l) := l.buildBindings bindings decl
      match l.actOnEndBuildDecl env depth startTok decl with
      | none => .error .stackOverflow
      | some (decl, l) => .ok { l with manifest := { l.manifest with
          commands := l.manifest.commands ++ [decl] } }

/-! ### Pools -/

/-- Read the decimal digits at the start of a string; there is no result if the value does
not fit in 64 bits. -/
def consumeDigits : (result : UInt64) → Bytes → Option (UInt64 × Bytes)
  | result, [] => some (result, [])
  | result, c :: string =>
      if '0'.toUInt8 ≤ c ∧ c ≤ '9'.toUInt8 then
        let next := result * 10 + (c - '0'.toUInt8).toUInt64
        if next / 10 < result then none else consumeDigits next string
      else some (result, c :: string)

def consumeUnsignedInteger (string : Bytes) : Option (UInt64 × Bytes) :=
  (consumeDigits 0 string).filter (fun read => read.2.length ≠ string.length)

/-- The value of a decimal number that fits in a `long`, if that is all the string has. -/
def getAsInteger (string : Bytes) : Option ℤ :=
  match string with
  | [] => none
  | c :: rest =>
      if c ≠ '-'.toUInt8 then
        match consumeUnsignedInteger string with
        | some (value, []) => if 2 ^ 63 ≤ value.toNat then none else some value.toNat
        | _ => none
      else
        match consumeUnsignedInteger rest with
        | some (value, []) => if 2 ^ 63 < value.toNat then none else some (-value.toNat)
        | _ => none

def actOnPoolBindingDecl (decl : Pool) (l : Loader) :
    Pool × Loader :=
  let (value, l) := l.evalToken valueTok
  if nameTok.text = ascii "depth" then
    match getAsInteger value with
    | none => (decl, l.error (ascii "invalid depth") valueTok)
    | some intValue =>
        if intValue ≤ 0 then (decl, l.error (ascii "invalid depth") valueTok)
        else ({ decl with depth := .ofNat intValue.toNat }, l)
  else (decl, l.error (ascii "unexpected variable") nameTok)

/-- The bindings of a pool. -/
def poolBindings : List Binding → Pool → Loader → Pool × Loader
  | [], decl, l => (decl, l)
  | .error message token :: bindings, decl, l =>
      poolBindings bindings decl (l.error message token)
  | .decl nameTok valueTok :: bindings, decl, l =>
      let (decl, l) := l.actOnPoolBindingDecl nameTok valueTok decl
      poolBindings bindings decl l

/-- A pool replaces the pool of the same name. -/
def actOnPoolDecl (startTok nameTok : Token) (bindings : List Binding) (l : Loader) : Loader :=
  let l := if nameTok.text ∈ l.manifest.pools then l.error (ascii "duplicate pool") nameTok else l
  let (decl, l) := l.poolBindings bindings ⟨nameTok.text, 0⟩
  let l := { l with manifest := { l.manifest with
    pools := l.manifest.pools.insert nameTok.text decl } }
  if decl.depth = 0 then l.error (ascii "missing 'depth' variable assignment") startTok else l

/-! ### Rules -/

/-- The value of a parameter of a rule is kept as it is written. -/
def actOnRuleBindingDecl (decl : Rule) (l : Loader) : Rule × Loader :=
  if h : Rule.isValidParameterName nameTok.text = true then
    (decl.setParameter nameTok.text valueTok.text h, l)
  else (decl, l.error (ascii "unexpected variable") nameTok)

/-- The bindings of a rule. -/
def ruleBindings : List Binding → Rule → Loader → Rule × Loader
  | [], decl, l => (decl, l)
  | .error message token :: bindings, decl, l =>
      ruleBindings bindings decl (l.error message token)
  | .decl nameTok valueTok :: bindings, decl, l =>
      let (decl, l) := l.actOnRuleBindingDecl nameTok valueTok decl
      ruleBindings bindings decl l

/-- A rule replaces the rule of the same name in the scope of the file. -/
def actOnRuleDecl (startTok nameTok : Token) (bindings : List Binding) (l : Loader) : Loader :=
  let l := if nameTok.text ∈ l.scope.rules then l.error (ascii "duplicate rule") nameTok else l
  let (decl, l) := l.ruleBindings bindings (.empty nameTok.text)
  let l := { l with scope := { l.scope with rules := l.scope.rules.insert nameTok.text decl } }
  if ascii "command" ∈ decl.parameters then l
  else l.error (ascii "missing 'command' variable assignment") startTok

/-! ### Loading -/

/-- Act on a declaration of the current file. -/
def act (decl : Decl) (l : Loader) : Except Trap Loader :=
  match decl with
  | .error message token => .ok (l.error message token)
  | .bindingDecl nameTok valueTok => .ok (l.actOnBindingDecl nameTok valueTok)
  | .defaultDecl nameToks => .ok (l.actOnDefaultDecl env nameToks)
  | .includeDecl isInclude pathTok => .ok (l.actOnIncludeDecl env isInclude pathTok)
  | .buildDecl startTok specifier bindings =>
      l.actOnBuildDecl env depth startTok specifier bindings
  | .poolDecl startTok nameTok bindings => .ok (l.actOnPoolDecl startTok nameTok bindings)
  | .ruleDecl startTok nameTok bindings => .ok (l.actOnRuleDecl startTok nameTok bindings)

/-- The next step of the loader. -/
def step (l : Loader) : Except Trap Loader :=
  match l.includeStack with
  | [] => .ok l
  | entry :: includeStack =>
      match entry.decls with
      | [] => .ok l.exitCurrentFile
      | decl :: decls =>
          act env depth decl { l with
            includeStack := { entry with decls := decls } :: includeStack }

/-- A number of steps of the loader. -/
def run (depth : ℕ) : ℕ → Loader → Except Trap Loader
  | 0, l => .ok l
  | n + 1, l =>
      match l.step env depth with
      | .error trap => .error trap
      | .ok l => l.run depth n

/-- The loader in the main file. -/
def start (mainFilename : Bytes) : Loader := enterFile env mainFilename false {}

end Loader

end LLBuild.Ninja.Manifest

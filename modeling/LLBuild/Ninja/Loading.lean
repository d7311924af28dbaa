import LLBuild.Ninja.Expansion

/-!
# What the loader does with a manifest

`Acts` says what the loader does when it acts on a declaration, or comes to the end of a
file: which bindings the scopes have then, which file is entered, and which command is added,
with the values its variables have in the scopes at that moment.  In every state of a load
the next step is what `Acts` says, unless a path has no normal form.
-/

namespace LLBuild.Ninja.Manifest

open Option

open Rule

open List

open BinaryCoding

/-! ### The effect of a declaration -/

/-- The token of the last binding of a variable. -/
def lastBinding (x : Bytes) : List Binding → Option Token
  | [] => none
  | .error _ _ :: bindings => lastBinding x bindings
  | .decl nameTok valueTok :: bindings =>
      (lastBinding x bindings).or (if nameTok.text = x then some valueTok else none)

/-- The declarations that neither bind variables nor enter files nor add commands. -/
def Decl.isOther : Decl → Bool
  | error _ _ => true
  | defaultDecl _ => true
  | poolDecl _ _ _ => true
  | _ => false

/-- The parameters of a command have been set to the values of the variables. -/
structure Command.Evaluated (env : Environment) (pools : Table Bytes Pool)
    (value : Bytes → Bytes) (decl : Command) : Prop where
  commandString : decl.commandString = value (ascii "command")
  description : decl.description = value (ascii "description")
  depsStyle : decl.depsStyle
    = (Loader.depsStyleOf (value (ascii "deps")) (value (ascii "depfile"))).1
  depsFile : decl.depsFile = (Loader.depsFileOf decl.depsStyle (value (ascii "depfile"))).1
  executionPool : decl.executionPool
    = if value (ascii "pool") = [] then none else pools.lookup (value (ascii "pool"))
  isGenerator : decl.isGenerator = decide (value (ascii "generator") ≠ [])
  shouldRestat : decl.shouldRestat = decide (value (ascii "restat") ≠ [])
  rspFile : decl.rspFile = if value (ascii "rspfile") = [] then []
    else (env.normalizePath (value (ascii "rspfile"))).getD []
  rspFileContent : decl.rspFileContent
    = if value (ascii "rspfile") = [] ∨ env.normalizePath (value (ascii "rspfile")) = none then []
      else value (ascii "rspfile_content")

/-- The rule the bindings of a declaration make. -/
def Rule.bind (rule : Rule) : List Binding → Rule
  | [] => rule
  | .error _ _ :: bindings => rule.bind bindings
  | .decl nameTok valueTok :: bindings =>
      if h : isValidParameterName nameTok.text = true then
        (rule.setParameter nameTok.text valueTok.text h).bind bindings
      else rule.bind bindings

theorem Rule.isAcyclic_empty (name : Bytes) :
  (empty name).IsAcyclic
  := by
  intro x hx
  obtain ⟨y, ⟨value, ps, hvalue, -⟩, -⟩ := Relation.TransGen.head'_iff.mp hx
  cases hvalue

namespace Loader

/-- The bindings of the scope of the current file and of its parents. -/
def bindings (l : Loader) : List (Bytes → Option Bytes) := l.scopes.map Scope.bindings

/-- The files that were entered, with what is to come of them. -/
def enter (file : File) (isSubninja : Bool) (l : Loader) : List IncludeEntry :=
  ⟨file.identifier, file.decls, isSubninja⟩ :: l.includeStack

/-- What acting on a declaration, or coming to the end of the current file, does. -/
inductive Acts (env : Environment) (l l' : Loader) : Option Decl → Prop
  /-- A binding is expanded when it is declared. -/
  | binding {nameTok valueTok : Token} {text : Bytes}
      (htext : FileText l.bindings valueTok.text text)
      (hscope : l'.scope.bindings = Function.update l.scope.bindings nameTok.text (some text))
      (hrules : l'.scope.rules = l.scope.rules) (hparents : l'.parents = l.parents)
      (hstack : l'.includeStack = l.includeStack)
      (hcommands : l'.manifest.commands = l.manifest.commands) :
      Acts env l l' (some (.bindingDecl nameTok valueTok))
  /-- A build statement adds a command, the bindings of which are expanded when they are
  declared. -/
  | build {startTok : Token} {specifier : BuildSpecifier} {bindings : List Binding}
      {decl : Command} {value : Bytes → Bytes}
      (hrule : decl.rule = (l.scope.rules.lookup specifier.name.text).getD phonyRule)
      (hbindings : ∀ x, Option.Rel (fun valueTok text => FileText l.bindings valueTok.text text)
        (lastBinding x bindings) (decl.parameters.lookup x))
      (hvalue : ∀ x text, (decl.edge l.scopes).Value x text ↔ text = value x)
      (hevaluated : decl.Evaluated env l.manifest.pools value)
      (hscope : l'.scopes = l.scopes) (hstack : l'.includeStack = l.includeStack)
      (hcommands : l'.manifest.commands = l.manifest.commands ++ [decl]) :
      Acts env l l' (some (.buildDecl startTok specifier bindings))
  /-- A rule is declared in the scope of the file. -/
  | rule {startTok nameTok : Token} {bindings : List Binding}
      (hscope : l'.scope.bindings = l.scope.bindings)
      (hrules : l'.scope.rules
        = l.scope.rules.insert nameTok.text ((empty nameTok.text).bind bindings))
      (hparents : l'.parents = l.parents) (hstack : l'.includeStack = l.includeStack)
      (hcommands : l'.manifest.commands = l.manifest.commands) :
      Acts env l l' (some (.ruleDecl startTok nameTok bindings))
  /-- An included file has the scope of the including file. -/
  | includeFile {pathTok : Token} {path : Bytes} {file : File}
      (hpath : FileText l.bindings pathTok.text path) (hfile : env.readFile path = some file)
      (hscopes : l'.scopes = l.scopes) (hstack : l'.includeStack = l.enter file false)
      (hcommands : l'.manifest.commands = l.manifest.commands) :
      Acts env l l' (some (.includeDecl true pathTok))
  /-- The file of a `subninja` declaration has a new scope inside the one of the file. -/
  | subninja {pathTok : Token} {path : Bytes} {file : File}
      (hpath : FileText l.bindings pathTok.text path) (hfile : env.readFile path = some file)
      (hscopes : l'.scopes = {} :: l.scopes) (hstack : l'.includeStack = l.enter file true)
      (hcommands : l'.manifest.commands = l.manifest.commands) :
      Acts env l l' (some (.includeDecl false pathTok))
  /-- A file that cannot be read is ignored. -/
  | unreadable {isInclude : Bool} {pathTok : Token} {path : Bytes}
      (hpath : FileText l.bindings pathTok.text path) (hfile : env.readFile path = none)
      (hscopes : l'.scopes = l.scopes) (hstack : l'.includeStack = l.includeStack)
      (hcommands : l'.manifest.commands = l.manifest.commands) :
      Acts env l l' (some (.includeDecl isInclude pathTok))
  /-- Other declarations have nothing to do with bindings and commands. -/
  | other {decl : Decl} (hdecl : decl.isOther = true) (hscopes : l'.scopes = l.scopes)
      (hstack : l'.includeStack = l.includeStack)
      (hcommands : l'.manifest.commands = l.manifest.commands) :
      Acts env l l' (some decl)
  /-- At the end of a file its scope is left, if it is not the one of the including file. -/
  | endOfFile {entry : IncludeEntry} {stack : List IncludeEntry}
      (hentry : l.includeStack = entry :: stack)
      (hscopes : l'.scopes = if entry.isSubninja then l.parents else l.scopes)
      (hstack : l'.includeStack = stack)
      (hcommands : l'.manifest.commands = l.manifest.commands) :
      Acts env l l' none

/-! ### What is kept -/

/-- The loader has reported errors and found nodes, at most. -/
structure Keeps (l l' : Loader) : Prop where
  scope : l'.scope = l.scope
  parents : l'.parents = l.parents
  includeStack : l'.includeStack = l.includeStack
  commands : l'.manifest.commands = l.manifest.commands
  pools : l'.manifest.pools = l.manifest.pools

namespace Keeps

theorem refl (l : Loader) : l.Keeps l := ⟨rfl, rfl, rfl, rfl, rfl⟩

theorem trans {l l' l'' : Loader} (h : l.Keeps l') (h' : l'.Keeps l'') :
  l.Keeps l''
  := ⟨h'.scope.trans h.scope, h'.parents.trans h.parents, h'.includeStack.trans h.includeStack,
    h'.commands.trans h.commands, h'.pools.trans h.pools⟩

theorem scopes {l l' : Loader} (h : l.Keeps l') :
  l'.scopes = l.scopes
  := by
  rw [Loader.scopes, Loader.scopes, h.scope, h.parents]

end Keeps

theorem keeps_report (messages : List Bytes) (token : Token) (l : Loader) :
  l.Keeps (l.report messages token)
  := ⟨rfl, rfl, rfl, rfl, rfl⟩

variable {env : Environment} {l l' : Loader}

theorem keeps_findOrCreateNode {path : Bytes} {node : Node} {manifest : Manifest}
    (h : l.manifest.findOrCreateNode env.normalizePath path = some (node, manifest)) :
  l.Keeps { l with manifest := manifest }
  := by
  obtain ⟨canonicalPath, -, h⟩ := map_eq_some_iff.mp h
  split at h
  · obtain ⟨-, rfl⟩ := Prod.mk.inj h
    exact .refl l
  · obtain ⟨-, rfl⟩ := Prod.mk.inj h
    exact ⟨rfl, rfl, rfl, rfl, rfl⟩

theorem keeps_resolveNode {emptyPath path : Bytes} {token : Token}
    {node : Node} (h : l.resolveNode env emptyPath token = some (path, node, l')) :
  l.Keeps l'
  := by
  obtain ⟨⟨node', manifest⟩, hfound, h⟩ := map_eq_some_iff.mp h
  obtain ⟨-, -, rfl⟩ : _ ∧ _ ∧ _ := by simpa only [Prod.mk.injEq] using h
  refine .trans ?_ (keeps_findOrCreateNode hfound)
  split_ifs
  · exact (keeps_report _ token l).trans (keeps_report _ token _)
  · exact keeps_report _ token l

section

variable {env : Environment} {r : Loader → Loader → Prop} {l l' : Loader}

/-- What holds of the resolution of one output, whatever the loader is, holds of all. -/
theorem rel_resolveOutputs {tokens : List (Token × Bool)} {outputs outputs' : List Node}
    {n n' : ℕ} (hrefl : ∀ l, r l l) (htrans : ∀ {l l' l''}, r l l' → r l' l'' → r l l'')
    (hnode : ∀ {l l' token path node},
      l.resolveNode env (ascii "empty output path") token = some (path, node, l') → r l l')
    (h : l.resolveOutputs env tokens outputs n = some (outputs', n', l')) :
  r l l'
  := by
  induction tokens generalizing outputs n l with
  | nil =>
    obtain ⟨-, -, rfl⟩ : _ ∧ _ ∧ _ := by simpa only [resolveOutputs, some.injEq,
      Prod.mk.injEq] using h
    exact hrefl l
  | cons token tokens ih =>
    rw [resolveOutputs] at h
    split at h
    · cases h
    next path node l₁ hfound =>
      split at h
      · exact htrans (hnode hfound) (ih h)
      · exact htrans (hnode hfound) (ih h)

/-- What holds of the resolution of one input, whatever the loader is, holds of all. -/
theorem rel_resolveInputs {tokens : List Token} {inputs inputs' : List NodeInCommand}
    (hrefl : ∀ l, r l l) (htrans : ∀ {l l' l''}, r l l' → r l' l'' → r l l'')
    (hnode : ∀ {l l' token path node},
      l.resolveNode env (ascii "empty input path") token = some (path, node, l') → r l l')
    (h : l.resolveInputs env tokens inputs = some (inputs', l')) :
  r l l'
  := by
  induction tokens generalizing inputs l with
  | nil =>
    obtain ⟨-, rfl⟩ : _ ∧ _ := by simpa only [resolveInputs, some.injEq, Prod.mk.injEq] using h
    exact hrefl l
  | cons token tokens ih =>
    rw [resolveInputs] at h
    split at h
    · cases h
    next path node l₁ hfound => exact htrans (hnode hfound) (ih h)

theorem keeps_resolveOutputs {tokens : List (Token × Bool)} {outputs outputs' : List Node}
    {n n' : ℕ} (h : l.resolveOutputs env tokens outputs n = some (outputs', n', l')) :
  l.Keeps l'
  := rel_resolveOutputs Keeps.refl Keeps.trans keeps_resolveNode h

theorem keeps_resolveInputs {tokens : List Token} {inputs inputs' : List NodeInCommand}
    (h : l.resolveInputs env tokens inputs = some (inputs', l')) :
  l.Keeps l'
  := rel_resolveInputs Keeps.refl Keeps.trans keeps_resolveNode h

end

/-- The command of a build statement has the rule of the scope, and no bindings yet. -/
theorem actOnBeginBuildDecl_spec {specifier : BuildSpecifier} {decl : Command}
    (h : l.actOnBeginBuildDecl env specifier = some (decl, l')) :
  l.Keeps l' ∧ decl.parameters = ∅ ∧ decl.rspFile = [] ∧ decl.rspFileContent = []
    ∧ decl.rule = (l.scope.rules.lookup specifier.name.text).getD phonyRule
  := by
  have hresolve : l.Keeps (l.resolveRule specifier.name).2
      ∧ (l.resolveRule specifier.name).1
        = (l.scope.rules.lookup specifier.name.text).getD phonyRule := by
    rw [resolveRule]
    cases l.scope.rules.lookup specifier.name.text with
    | none => exact ⟨keeps_report _ _ l, rfl⟩
    | some rule => exact ⟨.refl l, rfl⟩
  rw [actOnBeginBuildDecl] at h
  dsimp only at h
  split at h
  · cases h
  next outputs n l₁ houtputs =>
    split at h
    · cases h
    next inputs l₂ hinputs =>
      obtain ⟨rfl, rfl⟩ := Prod.mk.inj (some.inj h)
      exact ⟨(hresolve.1.trans (keeps_resolveOutputs houtputs)).trans
        (keeps_resolveInputs hinputs), rfl, rfl, rfl, hresolve.2⟩

/-! ### The bindings of a build statement -/

theorem fileText_of_eq (hscopes : l'.scopes = l.scopes) (valueTok : Token) :
  FileText l.bindings valueTok.text (l'.evalToken valueTok).1
  := by
  have h := fileText_evalInScopes l'.scopes valueTok.text
  rw [hscopes] at h
  rw [evalToken, hscopes]
  exact h

/-- The bindings are expanded in the scopes of the build statement, and the last one of a
variable counts. -/
theorem buildBindings_spec {l₀ l : Loader} (hkeeps : l₀.Keeps l) (bindings : List Binding)
    (decl : Command) :
  l₀.Keeps (l.buildBindings bindings decl).2
    ∧ (l.buildBindings bindings decl).1
      = { decl with parameters := (l.buildBindings bindings decl).1.parameters }
    ∧ ∀ x, (lastBinding x bindings = none →
        (l.buildBindings bindings decl).1.parameters.lookup x = decl.parameters.lookup x)
      ∧ ∀ valueTok, lastBinding x bindings = some valueTok →
        ∃ text, FileText l₀.bindings valueTok.text text
          ∧ (l.buildBindings bindings decl).1.parameters.lookup x = some text
  := by
  induction bindings generalizing l decl with
  | nil => exact ⟨hkeeps, rfl, fun _ => ⟨fun _ => rfl, nofun⟩⟩
  | cons binding bindings ih =>
    cases binding with
    | error message token => exact ih (hkeeps.trans (keeps_report _ token l)) decl
    | decl nameTok valueTok =>
      obtain ⟨hkeeps', hdecl, hlast⟩ := ih (hkeeps.trans (keeps_report _ valueTok l))
        (l.actOnBuildBindingDecl nameTok valueTok decl).1
      refine ⟨hkeeps', hdecl, fun x => ?_⟩
      obtain ⟨hnone, hsome⟩ := hlast x
      rw [lastBinding]
      cases hx : lastBinding x bindings with
      | some valueTok' =>
        refine ⟨nofun, ?_⟩
        rintro _ ⟨⟩
        exact hsome valueTok' hx
      | none =>
        have hlookup := (hnone hx).trans
          (Table.lookup_insert decl.parameters nameTok.text x (l.evalToken valueTok).1)
        split_ifs with hname
        · rw [if_pos hname.symm] at hlookup
          refine ⟨nofun, ?_⟩
          rintro _ ⟨⟩
          exact ⟨_, fileText_of_eq hkeeps.scopes valueTok, hlookup⟩
        · rw [if_neg (Ne.symm hname)] at hlookup
          exact ⟨fun _ => hlookup, nofun⟩

/-! ### The evaluation of a command -/

/-- The parameters that were evaluated do not change what the variables depend on. -/
theorem actOnEndBuildDecl_spec (env : Environment) {depth : ℕ} (startTok : Token)
    {decl : Command} {value : Bytes → Bytes} (hrspFile : decl.rspFile = [])
    (hrspFileContent : decl.rspFileContent = [])
    (hvalue : ∀ name, ∃ output, l.lookupNamedBuildParameter depth decl name = some output
      ∧ Output.result output = value name) :
  ∃ decl' l', l.actOnEndBuildDecl env depth startTok decl = some (decl', l') ∧ l.Keeps l'
    ∧ decl'.rule = decl.rule ∧ decl'.parameters = decl.parameters
    ∧ decl'.edge l.scopes = decl.edge l.scopes
    ∧ decl'.Evaluated env l.manifest.pools value
  := by
  obtain ⟨command, hcommand, hcommand'⟩ := hvalue (ascii "command")
  obtain ⟨description, hdescription, hdescription'⟩ := hvalue (ascii "description")
  obtain ⟨deps, hdeps, hdeps'⟩ := hvalue (ascii "deps")
  obtain ⟨depfile, hdepfile, hdepfile'⟩ := hvalue (ascii "depfile")
  obtain ⟨pool, hpool, hpool'⟩ := hvalue (ascii "pool")
  obtain ⟨generator, hgenerator, hgenerator'⟩ := hvalue (ascii "generator")
  obtain ⟨restat, hrestat, hrestat'⟩ := hvalue (ascii "restat")
  obtain ⟨rspfile, hrspfile, hrspfile'⟩ := hvalue (ascii "rspfile")
  obtain ⟨content, hcontent, hcontent'⟩ := hvalue (ascii "rspfile_content")
  have hpools : (l.executionPoolOf (value (ascii "pool"))).1
      = if value (ascii "pool") = [] then none
        else l.manifest.pools.lookup (value (ascii "pool")) := by
    rw [executionPoolOf]
    split_ifs
    · rfl
    · cases l.manifest.pools.lookup (value (ascii "pool")) <;> rfl
  simp only [actOnEndBuildDecl, hcommand, hdescription, hdeps, hdepfile, hpool, hgenerator,
    hrestat, hrspfile, hcontent, bind_eq_bind, bind_some, hcommand',
    hdescription', hdeps', hdepfile', hpool', hgenerator', hrestat', hrspfile', hcontent']
  split_ifs with hempty
  · refine ⟨_, _, rfl, keeps_report _ _ _, rfl, rfl, rfl,
      ⟨rfl, rfl, rfl, rfl, hpools, rfl, rfl, ?_, ?_⟩⟩
    · rw [if_pos hempty]
      exact hrspFile
    · rw [if_pos (.inl hempty)]
      exact hrspFileContent
  · cases hnormal : env.normalizePath (value (ascii "rspfile")) with
    | none =>
      refine ⟨_, _, rfl, keeps_report _ _ _, rfl, rfl, rfl,
        ⟨rfl, rfl, rfl, rfl, hpools, rfl, rfl, ?_, ?_⟩⟩
      · rw [if_neg hempty, hnormal]
        exact hrspFile
      · rw [if_pos (.inr hnormal)]
        exact hrspFileContent
    | some path =>
      refine ⟨_, _, rfl, (keeps_report _ _ _).trans (keeps_report _ _ _), rfl, rfl, rfl,
        ⟨rfl, rfl, rfl, rfl, hpools, rfl, rfl, ?_, ?_⟩⟩
      · rw [if_neg hempty, hnormal]
        rfl
      · rw [if_neg (by rw [hnormal]; simp [hempty])]

/-- What the loader does with a build statement. -/
theorem acts_buildDecl {depth : ℕ} (hdepth : parameterNames.length < depth) {startTok : Token}
    {specifier : BuildSpecifier} {bindings : List Binding}
    (hacyclic : ∀ name rule, l.scope.rules.lookup name = some rule → rule.IsAcyclic) :
  l.actOnBuildDecl env depth startTok specifier bindings = .error .nullNode
    ∨ ∃ l', l.actOnBuildDecl env depth startTok specifier bindings = .ok l'
      ∧ Acts env l l' (some (.buildDecl startTok specifier bindings))
  := by
  rw [actOnBuildDecl]
  cases hbegin : l.actOnBeginBuildDecl env specifier with
  | none => exact .inl rfl
  | some begun =>
    right
    obtain ⟨decl₀, l₁⟩ := begun
    obtain ⟨hkeeps, hparameters, hrspFile, hcontent, hrule⟩ := actOnBeginBuildDecl_spec hbegin
    obtain ⟨hkeeps', hdecl, hlast⟩ := buildBindings_spec hkeeps bindings decl₀
    dsimp only
    generalize l₁.buildBindings bindings decl₀ = bound at hkeeps' hdecl hlast ⊢
    obtain ⟨decl, l₂⟩ := bound
    dsimp only at hkeeps' hdecl hlast ⊢
    have hrule' : decl.rule = (l.scope.rules.lookup specifier.name.text).getD phonyRule := by
      rw [hdecl]
      exact hrule
    have hacyclic' : decl.rule.IsAcyclic := by
      rw [hrule']
      cases hlookup : l.scope.rules.lookup specifier.name.text with
      | none => exact isAcyclic_empty _
      | some rule => exact hacyclic _ rule hlookup
    choose output houtput hvalue using Command.exists_value l.scopes hacyclic' hdepth
    have hlookup : ∀ name, ∃ output', l₂.lookupNamedBuildParameter depth decl name = some output'
        ∧ Output.result output' = Output.result (output name) := by
      intro name
      refine ⟨output name, ?_, rfl⟩
      rw [lookupNamedBuildParameter, hkeeps'.scopes]
      exact houtput name
    obtain ⟨decl', l₃, hend, hkeeps'', hrule'', hparameters'', hedge, hevaluated⟩ :=
      actOnEndBuildDecl_spec env startTok (by rw [hdecl]; exact hrspFile)
        (by rw [hdecl]; exact hcontent) hlookup
    rw [hend]
    refine ⟨_, rfl, ?_⟩
    have hall := hkeeps'.trans hkeeps''
    rw [hkeeps'.scopes] at hedge
    rw [hkeeps'.pools] at hevaluated
    refine .build (hrule''.trans hrule') ?_ ?_ hevaluated hall.scopes hall.includeStack ?_
    · intro x
      rw [hparameters'']
      obtain ⟨hnone, hsome⟩ := hlast x
      cases hx : lastBinding x bindings with
      | none =>
        rw [hnone hx, hparameters]
        exact .none
      | some valueTok =>
        obtain ⟨text, htext, htext'⟩ := hsome valueTok hx
        rw [htext']
        exact .some htext
    · rw [hedge]
      exact hvalue
    · exact congrArg (· ++ [decl']) hall.commands

/-! ### The other declarations -/

variable {env : Environment} {l : Loader}

theorem acts_bindingDecl (nameTok valueTok : Token) :
  Acts env l (l.actOnBindingDecl nameTok valueTok) (some (.bindingDecl nameTok valueTok))
  := by
  refine .binding (fileText_of_eq rfl valueTok) ?_ rfl rfl rfl rfl
  funext x
  rw [Function.update_apply]
  exact Table.lookup_insert l.scope.entries nameTok.text x _

theorem acts_includeDecl (isInclude : Bool) (pathTok : Token) :
  Acts env l (l.actOnIncludeDecl env isInclude pathTok) (some (.includeDecl isInclude pathTok))
  := by
  have hpath : FileText l.bindings pathTok.text (l.evalToken pathTok).1 :=
    fileText_of_eq rfl pathTok
  rw [actOnIncludeDecl]
  dsimp only
  cases hfile : env.readFile (l.evalToken pathTok).1 with
  | none =>
    rw [enterFile, hfile]
    exact .unreadable hpath hfile rfl rfl rfl
  | some file =>
    rw [enterFile, hfile]
    cases isInclude with
    | true => exact .includeFile hpath hfile rfl rfl rfl
    | false => exact .subninja hpath hfile rfl rfl rfl

variable (env) in
theorem keeps_actOnDefaultDecl (nameToks : List Token) (l : Loader) :
  l.Keeps (l.actOnDefaultDecl env nameToks)
  := by
  rw [actOnDefaultDecl]
  induction nameToks generalizing l with
  | nil => exact .refl l
  | cons nameTok nameToks ih =>
    refine .trans ?_ (ih _)
    dsimp only
    split
    · exact keeps_report _ nameTok l
    · exact ⟨rfl, rfl, rfl, rfl, rfl⟩

theorem keeps_actOnPoolBindingDecl (nameTok valueTok : Token) (decl : Pool) (l : Loader) :
  l.Keeps (l.actOnPoolBindingDecl nameTok valueTok decl).2
  := by
  have hkeeps : l.Keeps (l.evalToken valueTok).2 := keeps_report _ valueTok l
  rw [actOnPoolBindingDecl]
  dsimp only
  split_ifs
  · split
    · exact hkeeps.trans (keeps_report _ _ _)
    · split_ifs
      · exact hkeeps.trans (keeps_report _ _ _)
      · exact hkeeps
  · exact hkeeps.trans (keeps_report _ _ _)

variable (bindings : List Binding)

theorem keeps_poolBindings (decl : Pool) (l : Loader) :
  l.Keeps (l.poolBindings bindings decl).2
  := by
  induction bindings generalizing decl l with
  | nil => exact .refl l
  | cons binding bindings ih =>
    cases binding with
    | error message token => exact (keeps_report _ token l).trans (ih decl _)
    | decl nameTok valueTok =>
      exact (keeps_actOnPoolBindingDecl nameTok valueTok decl l).trans (ih _ _)

/-- An error may be reported. -/
theorem keeps_ite_error (p : Prop) [Decidable p] (message : Bytes) (token : Token) (l : Loader) :
  l.Keeps (if p then l.error message token else l)
  := by
  split_ifs
  · exact keeps_report _ token l
  · exact .refl l

theorem acts_poolDecl (startTok nameTok : Token) (bindings : List Binding) :
  Acts env l (l.actOnPoolDecl startTok nameTok bindings)
    (some (.poolDecl startTok nameTok bindings))
  := by
  have hkeeps := (keeps_ite_error (nameTok.text ∈ l.manifest.pools) (ascii "duplicate pool")
    nameTok l).trans (keeps_poolBindings bindings ⟨nameTok.text, 0⟩ _)
  rw [actOnPoolDecl]
  generalize poolBindings bindings _ _ = bound at hkeeps ⊢
  have hlast := keeps_ite_error (bound.1.depth = 0)
    (ascii "missing 'depth' variable assignment") startTok
    { bound.2 with manifest := { bound.2.manifest with
      pools := bound.2.manifest.pools.insert nameTok.text bound.1 } }
  apply Acts.other
  · rfl
  · exact hlast.scopes.trans hkeeps.scopes
  · exact hlast.includeStack.trans hkeeps.includeStack
  · exact hlast.commands.trans hkeeps.commands

theorem ruleBindings_spec (decl : Rule) (l : Loader) :
  l.Keeps (l.ruleBindings bindings decl).2 ∧ (l.ruleBindings bindings decl).1 = decl.bind bindings
  := by
  induction bindings generalizing decl l with
  | nil => exact ⟨.refl l, rfl⟩
  | cons binding bindings ih =>
    cases binding with
    | error message token =>
      obtain ⟨hkeeps, hrule⟩ := ih decl (l.error message token)
      exact ⟨(keeps_report _ token l).trans hkeeps, hrule⟩
    | decl nameTok valueTok =>
      rw [ruleBindings, actOnRuleBindingDecl, Rule.bind]
      split_ifs with h
      · exact ih _ l
      · obtain ⟨hkeeps, hrule⟩ := ih decl (l.error (ascii "unexpected variable") nameTok)
        exact ⟨(keeps_report _ _ l).trans hkeeps, hrule⟩

theorem acts_ruleDecl (startTok nameTok : Token) (bindings : List Binding) :
  Acts env l (l.actOnRuleDecl startTok nameTok bindings)
    (some (.ruleDecl startTok nameTok bindings))
  := by
  have hduplicate := keeps_ite_error (nameTok.text ∈ l.scope.rules) (ascii "duplicate rule")
    nameTok l
  obtain ⟨hbound, hrule⟩ := ruleBindings_spec bindings (.empty nameTok.text)
    (if nameTok.text ∈ l.scope.rules then l.error (ascii "duplicate rule") nameTok else l)
  have hkeeps := hduplicate.trans hbound
  rw [actOnRuleDecl]
  dsimp only
  generalize ruleBindings bindings _ _ = bound at hkeeps hrule ⊢
  obtain ⟨decl, l₁⟩ := bound
  obtain rfl : decl = _ := hrule
  have hbindings : l₁.scope.bindings = l.scope.bindings := congrArg Scope.bindings hkeeps.scope
  have hrules : l₁.scope.rules.insert nameTok.text ((empty nameTok.text).bind bindings)
      = l.scope.rules.insert nameTok.text ((empty nameTok.text).bind bindings) :=
    congrArg (fun scope =>
        scope.rules.insert nameTok.text ((empty nameTok.text).bind bindings))
      (show l₁.scope = l.scope from hkeeps.scope)
  split_ifs
  · exact .rule hbindings hrules hkeeps.parents hkeeps.includeStack hkeeps.commands
  · exact .rule hbindings hrules hkeeps.parents hkeeps.includeStack hkeeps.commands

/-- What the loader does with a declaration that is not a build statement. -/
theorem acts_of_not_build (depth : ℕ) {decl : Decl}
    (hdecl : ∀ startTok specifier bindings, decl ≠ .buildDecl startTok specifier bindings) :
  ∃ l', l.act env depth decl = .ok l' ∧ Acts env l l' (some decl)
  := by
  cases decl with
  | buildDecl startTok specifier bindings => exact absurd rfl (hdecl startTok specifier bindings)
  | error message token => exact ⟨_, rfl, .other rfl rfl rfl rfl⟩
  | bindingDecl nameTok valueTok => exact ⟨_, rfl, acts_bindingDecl nameTok valueTok⟩
  | defaultDecl nameToks =>
    have hkeeps := keeps_actOnDefaultDecl env nameToks l
    exact ⟨_, rfl, .other rfl hkeeps.scopes hkeeps.includeStack hkeeps.commands⟩
  | includeDecl isInclude pathTok => exact ⟨_, rfl, acts_includeDecl isInclude pathTok⟩
  | poolDecl startTok nameTok bindings => exact ⟨_, rfl, acts_poolDecl startTok nameTok bindings⟩
  | ruleDecl startTok nameTok bindings => exact ⟨_, rfl, acts_ruleDecl startTok nameTok bindings⟩

/-- What the loader does with a declaration. -/
theorem acts_act {depth : ℕ} (hdepth : parameterNames.length < depth)
    (hacyclic : ∀ name rule, l.scope.rules.lookup name = some rule → rule.IsAcyclic) (decl : Decl) :
  l.act env depth decl = .error .nullNode
    ∨ ∃ l', l.act env depth decl = .ok l' ∧ Acts env l l' (some decl)
  := by
  by_cases hdecl : ∃ startTok specifier bindings, decl = .buildDecl startTok specifier bindings
  · obtain ⟨startTok, specifier, bindings, rfl⟩ := hdecl
    exact acts_buildDecl hdepth hacyclic
  · push Not at hdecl
    exact .inr (acts_of_not_build depth hdecl)

/-- What acting on a declaration means for the files that are open. -/
theorem Acts.includeStack_cases {l l' : Loader} {decl : Option Decl} (h : Acts env l l' decl) :
  (decl = none ∧ l'.includeStack = l.includeStack.tail)
    ∨ (decl ≠ none ∧ l'.includeStack = l.includeStack)
    ∨ ∃ isInclude pathTok path file, decl = some (.includeDecl isInclude pathTok)
      ∧ FileText l.bindings pathTok.text path ∧ env.readFile path = some file
      ∧ ∃ isSubninja, l'.includeStack = l.enter file isSubninja
  := by
  cases h with
  | binding htext hscope hrules hparents hstack hcommands
  | build hrule hbindings hvalue hevaluated hscopes hstack hcommands
  | rule hscope hrules hparents hstack hcommands
  | unreadable hpath hfile hscopes hstack hcommands | other hdecl hscopes hstack hcommands =>
    exact .inr (.inl ⟨some_ne_none _, hstack⟩)
  | includeFile hpath hfile hscopes hstack hcommands
  | subninja hpath hfile hscopes hstack hcommands =>
    exact .inr (.inr ⟨_, _, _, _, rfl, hpath, hfile, _, hstack⟩)
  | endOfFile hentry hscopes hstack hcommands =>
    refine .inl ⟨rfl, ?_⟩
    rw [hstack, hentry]
    rfl

end Loader

/-! ### The states of a load -/

/-- The parameters of no rule among the declarations refer to each other in a circle. -/
def RulesAcyclic (decls : List Decl) : Prop :=
  ∀ startTok nameTok bindings, .ruleDecl startTok nameTok bindings ∈ decls →
    ((empty nameTok.text).bind bindings).IsAcyclic

/-- The parameters of no rule of a file refer to each other in a circle. -/
def Environment.RulesAcyclic (env : Environment) : Prop :=
  ∀ path file, env.readFile path = some file → Manifest.RulesAcyclic file.decls

namespace Loader

/-- What holds in every state of a load. -/
structure Sound (l : Loader) : Prop where
  /-- The rules that were declared have no circles. -/
  rules : ∀ scope ∈ l.scopes, ∀ name rule, scope.rules.lookup name = some rule → rule.IsAcyclic
  /-- The rules that are still to be declared have no circles. -/
  decls : ∀ entry ∈ l.includeStack, RulesAcyclic entry.decls
  /-- The files with a scope of their own have parents. -/
  nested : l.parents.length = (l.includeStack.filter IncludeEntry.isSubninja).length

/-- The loader after the next declaration was taken from the current file. -/
def advance (l : Loader) : Loader :=
  { l with includeStack :=
      match l.includeStack with
      | [] => []
      | entry :: includeStack => { entry with decls := entry.decls.tail } :: includeStack }

/-- The next declaration of the current file. -/
def next (l : Loader) : Option Decl := l.includeStack.head?.bind (fun entry => entry.decls.head?)

namespace Sound

variable {env : Environment} {l l' : Loader}

/-- Only the rules of the scopes and the files matter. -/
theorem of_rules (hs : l.Sound) (hrules : l'.scope.rules = l.scope.rules)
    (hparents : l'.parents = l.parents) (hstack : l'.includeStack = l.includeStack) :
  l'.Sound
  := by
  refine ⟨?_, ?_, ?_⟩
  · obtain ⟨hscope, hscopes⟩ := forall_mem_cons.mp hs.rules
    rw [scopes, hparents]
    refine forall_mem_cons.mpr ⟨?_, hscopes⟩
    rw [hrules]
    exact hscope
  · rw [hstack]
    exact hs.decls
  · rw [hparents, hstack]
    exact hs.nested

theorem of_scopes (hs : l.Sound) (hscopes : l'.scopes = l.scopes)
    (hstack : l'.includeStack = l.includeStack) :
  l'.Sound
  := by
  obtain ⟨hscope, hparents⟩ := cons.inj hscopes
  exact hs.of_rules (congrArg Scope.rules hscope) hparents hstack

theorem advance (hs : l.Sound) :
  l.advance.Sound
  := by
  obtain ⟨hrules, hdecls, hnested⟩ := hs
  rw [Loader.advance]
  cases hstack : l.includeStack with
  | nil =>
    rw [hstack] at hdecls hnested
    exact ⟨hrules, hdecls, hnested⟩
  | cons entry stack =>
    rw [hstack] at hdecls hnested
    obtain ⟨hentry, hdecls⟩ := forall_mem_cons.mp hdecls
    refine ⟨hrules, forall_mem_cons.mpr ⟨?_, hdecls⟩, ?_⟩
    · intro startTok nameTok bindings h
      exact hentry startTok nameTok bindings (mem_of_mem_tail h)
    · rw [hnested, filter_cons, filter_cons]
      split_ifs <;> rfl

theorem isAcyclic_of_next (hs : l.Sound) {startTok nameTok : Token} {bindings : List Binding}
    (h : l.next = some (.ruleDecl startTok nameTok bindings)) :
  ((empty nameTok.text).bind bindings).IsAcyclic
  := by
  obtain ⟨entry, hentry, hdecl⟩ := bind_eq_some_iff.mp h
  exact hs.decls entry (mem_of_head? hentry) startTok nameTok bindings
    (mem_of_head? hdecl)

/-- Acting on a declaration keeps the state sound. -/
theorem acts {decl : Option Decl} (henv : env.RulesAcyclic) (hs : l.Sound)
    (hrule : ∀ startTok nameTok bindings, decl = some (.ruleDecl startTok nameTok bindings) →
      ((empty nameTok.text).bind bindings).IsAcyclic)
    (h : Acts env l l' decl) :
  l'.Sound
  := by
  cases h with
  | binding htext hscope hrules hparents hstack hcommands =>
    exact hs.of_rules hrules hparents hstack
  | build hrule hbindings hvalue hevaluated hscopes hstack hcommands =>
    exact hs.of_scopes hscopes hstack
  | @rule startTok nameTok bindings hscope hrules hparents hstack hcommands =>
    obtain ⟨hrules', hdecls, hnested⟩ := hs
    obtain ⟨hdeclared, hscopes⟩ := forall_mem_cons.mp hrules'
    rw [← hparents] at hscopes hnested
    rw [← hstack] at hdecls hnested
    refine ⟨forall_mem_cons.mpr ⟨?_, hscopes⟩, hdecls, hnested⟩
    intro name rule hlookup
    rw [hrules, Table.lookup_insert] at hlookup
    split_ifs at hlookup
    · cases hlookup
      exact hrule startTok nameTok bindings rfl
    · exact hdeclared name rule hlookup
  | includeFile hpath hfile hscopes hstack hcommands =>
    obtain ⟨hrules', hdecls, hnested⟩ := hs
    obtain ⟨-, hparents⟩ := cons.inj hscopes
    refine ⟨?_, ?_, ?_⟩
    · rw [hscopes]
      exact hrules'
    · rw [hstack]
      exact forall_mem_cons.mpr ⟨henv _ _ hfile, hdecls⟩
    · rw [hparents, hstack]
      exact hnested
  | subninja hpath hfile hscopes hstack hcommands =>
    obtain ⟨hrules', hdecls, hnested⟩ := hs
    obtain ⟨-, hparents⟩ := cons.inj hscopes
    refine ⟨?_, ?_, ?_⟩
    · rw [hscopes]
      exact forall_mem_cons.mpr ⟨fun _ _ hlookup => (nomatch hlookup), hrules'⟩
    · rw [hstack]
      exact forall_mem_cons.mpr ⟨henv _ _ hfile, hdecls⟩
    · rw [hparents, hstack]
      exact congrArg Nat.succ hnested
  | unreadable hpath hfile hscopes hstack hcommands | other hdecl hscopes hstack hcommands =>
    exact hs.of_scopes hscopes hstack
  | @endOfFile entry stack hentry hscopes hstack hcommands =>
    obtain ⟨hrules', hdecls, hnested⟩ := hs
    rw [hentry] at hdecls hnested
    obtain ⟨-, hdecls⟩ := forall_mem_cons.mp hdecls
    obtain ⟨-, hrules''⟩ := forall_mem_cons.mp hrules'
    rw [← hstack] at hdecls hnested
    rw [filter_cons] at hnested
    split_ifs at hscopes hnested
    · rw [← hscopes] at hrules'' hnested
      exact ⟨hrules'', hdecls, Nat.succ.inj hnested⟩
    · obtain ⟨-, hparents⟩ := cons.inj hscopes
      rw [← hscopes] at hrules'
      rw [← hparents] at hnested
      exact ⟨hrules', hdecls, hnested⟩

end Sound

variable {env : Environment} {l : Loader}

/-- What the end of a file does. -/
theorem acts_exitCurrentFile {entry : IncludeEntry} {stack : List IncludeEntry}
    (hs : l.Sound) (hentry : l.includeStack = entry :: stack) :
  Acts env l l.exitCurrentFile none
  := by
  have hnested := hs.nested
  rw [hentry, filter_cons] at hnested
  rw [exitCurrentFile, hentry]
  dsimp only
  split_ifs at hnested ⊢ with hsubninja
  · cases hparents : l.parents with
    | nil =>
      rw [hparents] at hnested
      cases hnested
    | cons parent parents =>
      refine .endOfFile hentry ?_ rfl rfl
      rw [if_pos hsubninja, hparents]
      rfl
  · refine .endOfFile hentry ?_ rfl rfl
    rw [if_neg hsubninja]
    rfl

variable {depth n : ℕ}

variable (env) in
/-- What the next step of the loader does. -/
theorem acts_step (hdepth : parameterNames.length < depth) (hs : l.Sound)
    (hstack : l.includeStack ≠ []) :
  l.step env depth = .error .nullNode
    ∨ ∃ l', l.step env depth = .ok l' ∧ Acts env l.advance l' l.next
  := by
  have hrules := (forall_mem_cons.mp hs.rules).1
  obtain ⟨manifest, scope, parents, includeStack, errors⟩ := l
  obtain ⟨⟨filename, decls, isSubninja⟩, stack, rfl⟩ := exists_cons_of_ne_nil hstack
  cases decls with
  | nil => exact .inr ⟨_, rfl, acts_exitCurrentFile hs rfl⟩
  | cons decl decls =>
    let entry : IncludeEntry := ⟨filename, decls, isSubninja⟩
    exact acts_act (l := ⟨manifest, scope, parents, entry :: stack, errors⟩) hdepth hrules decl

theorem step_of_next {decl : Decl} (h : l.next = some decl) :
  l.step env depth = l.advance.act env depth decl
  := by
  obtain ⟨manifest, scope, parents, includeStack, errors⟩ := l
  obtain ⟨⟨filename, decls, isSubninja⟩, hentry, hdecl⟩ := bind_eq_some_iff.mp h
  cases includeStack with
  | nil => cases hentry
  | cons entry includeStack =>
    cases hentry
    cases decls with
    | nil => cases hdecl
    | cons first decls =>
      cases hdecl
      rfl

/-- A step of the loader: there is nothing to do, the end of a file is reached, or there is a
declaration to act on. -/
theorem step_inv {l' : Loader} (h : l.step env depth = .ok l') :
  (l.includeStack = [] ∧ l' = l)
    ∨ (l.includeStack ≠ [] ∧ l.next = none ∧ l' = l.exitCurrentFile)
    ∨ ∃ decl, l.next = some decl ∧ l.advance.act env depth decl = .ok l'
  := by
  cases hnext : l.next with
  | some decl =>
    rw [step_of_next hnext] at h
    exact .inr (.inr ⟨decl, rfl, h⟩)
  | none =>
    rw [step] at h
    rw [next] at hnext
    cases hstack : l.includeStack with
    | nil =>
      rw [hstack] at h
      exact .inl ⟨rfl, (Except.ok.inj h).symm⟩
    | cons entry stack =>
      rw [hstack] at h hnext
      dsimp only at h
      rw [head?_eq_none_iff.mp hnext] at h
      exact .inr (.inl ⟨cons_ne_nil _ _, rfl, (Except.ok.inj h).symm⟩)

/-- What every step keeps, a number of steps keep. -/
theorem run_induction {p : Loader → Prop} {l l' : Loader}
    (hstep : ∀ {l l' : Loader}, p l → l.step env depth = .ok l' → p l') (h : p l)
    (hrun : l.run env depth n = .ok l') :
  p l'
  := by
  induction n generalizing l with
  | zero =>
    cases hrun
    exact h
  | succ n ih =>
    rw [run] at hrun
    cases hfirst : l.step env depth with
    | error trap =>
      rw [hfirst] at hrun
      cases hrun
    | ok l₁ =>
      rw [hfirst] at hrun
      exact ih (hstep h hfirst) hrun

theorem sound_start (henv : env.RulesAcyclic) (mainFilename : Bytes) :
  (start env mainFilename).Sound
  := by
  have hroot : ∀ scope ∈ [rootScope], ∀ name rule, scope.rules.lookup name = some rule →
      rule.IsAcyclic := by
    intro scope hscope name rule hlookup
    obtain rfl := mem_singleton.mp hscope
    rw [rootScope, Table.lookup_insert] at hlookup
    split_ifs at hlookup
    · cases hlookup
      exact isAcyclic_empty _
    · cases hlookup
  rw [start, enterFile]
  cases hfile : env.readFile mainFilename with
  | none => exact ⟨hroot, nofun, rfl⟩
  | some file => exact ⟨hroot, forall_mem_cons.mpr ⟨henv _ _ hfile, nofun⟩, rfl⟩

theorem run_of_includeStack_eq_nil (h : l.includeStack = []) (depth n : ℕ) :
  l.run env depth n = .ok l
  := by
  induction n with
  | zero => rfl
  | succ n ih =>
    rw [run, step, h]
    exact ih

theorem Sound.run (henv : env.RulesAcyclic) (hdepth : parameterNames.length < depth)
    {l l' : Loader} (hs : l.Sound) (hrun : l.run env depth n = .ok l') :
  l'.Sound
  := by
  refine run_induction (p := Sound) ?_ hs hrun
  intro l l' hs hstep
  by_cases hstack : l.includeStack = []
  · rw [step, hstack] at hstep
    cases hstep
    exact hs
  · obtain hnull | ⟨l₁, hstep', hacts⟩ := acts_step env hdepth hs hstack
    · cases hnull.symm.trans hstep
    · obtain rfl := Except.ok.inj (hstep'.symm.trans hstep)
      exact hs.advance.acts henv (fun _ _ _ h => hs.isAcyclic_of_next h) hacts

/-- The next step of a load, in any state of it, does what the declarations say: it binds
variables to texts that are expanded in the scopes at that moment, and evaluates the
variables of a build statement with the bindings of the statement, the parameters of the
rule and the bindings of the enclosing scopes. Only a path without a normal form stops the load. -/
theorem acts_of_run (henv : env.RulesAcyclic) (mainFilename : Bytes) {depth : ℕ}
    (hdepth : parameterNames.length < depth) {n : ℕ} {l : Loader}
    (hrun : (start env mainFilename).run env depth n = .ok l) (hstack : l.includeStack ≠ []) :
  l.step env depth = .error .nullNode
    ∨ ∃ l', l.step env depth = .ok l' ∧ Acts env l.advance l' l.next
  := acts_step env hdepth ((sound_start henv mainFilename).run henv hdepth hrun) hstack

end Loader

namespace LoadSamples

def token (text : String) : Token := ⟨0, ascii text⟩

/-- A rule whose description refers to its command. -/
def rule : List Binding :=
  [.decl (token "command") (token "cc $flags -c $in -o $out"),
    .decl (token "description") (token "[$command]")]

/-- A build statement with a binding that is expanded in the scope of the file. -/
def statement : Decl :=
  .buildDecl (token "build") ⟨token "cc", [token "a$ b.o"], [], [token "a$ b.c"], [], []⟩
    [.decl (token "flags") (token "$flags -g")]

def main : File :=
  ⟨ascii "build.ninja", [.bindingDecl (token "flags") (token "-O2"),
    .ruleDecl (token "rule") (token "cc") rule, statement]⟩

/-- Every file is the same, and every path is normal. -/
def environment : Environment := ⟨fun _ => some main, some⟩

theorem rulesAcyclic_environment :
  environment.RulesAcyclic
  := by
  intro path file hfile startTok nameTok bindings hmem
  cases hfile
  obtain ⟨-, rfl, rfl⟩ : startTok = token "rule" ∧ nameTok = token "cc" ∧ bindings = rule := by
    simpa [main, statement] using hmem
  exact isAcyclic_of_rank (if · = ascii "description" then 1 else 0) (by decide)

end LoadSamples

open LoadSamples

set_option maxRecDepth 4000 in
theorem Loader.acts_of_run_statement :
  ∃ l, (start environment []).run environment 10 2 = .ok l ∧ l.next = some statement
    ∧ (l.step environment 10 = .error .nullNode
      ∨ ∃ l', l.step environment 10 = .ok l' ∧ Acts environment l.advance l' l.next)
  := by
  refine ⟨_, rfl, rfl, ?_⟩
  exact acts_of_run (n := 2) rulesAcyclic_environment [] (by decide) rfl (cons_ne_nil _ _)

end LLBuild.Ninja.Manifest

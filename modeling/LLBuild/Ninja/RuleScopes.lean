import LLBuild.Ninja.Nodes

/-!
# The scopes of rules

The file of a `subninja` declaration has a scope of its own inside the scope of the file that
has the declaration.  `Nesting` keeps track of the files that are open and of the rules that
were declared in each scope, from what happens in a load alone.

A build statement should use the rule of the innermost scope that declares its name.  The loader
looks only in the scope of the file.
-/

namespace LLBuild.Ninja.Manifest

open IncludeEntry

open Function

open List

open BinaryCoding

/-! ### The nesting of scopes -/

/-- What a step of a load means for the scopes. -/
inductive Event
  | declare (name : Bytes) (rule : Rule)
  | enter (isSubninja : Bool)
  | leave
  | other

/-- The files that are open, each with whether it has a scope of its own, and the scopes with
the rules that were declared in them; the innermost ones come first. -/
structure Nesting where
  files : List Bool
  scopes : List (Bytes → Option Rule)

namespace Nesting

/-- The main file is open, and the root scope has the phony rule. -/
def initial : Nesting := ⟨[false], [update (fun _ => none) (ascii "phony") phonyRule]⟩

variable (nesting : Nesting)

/-- A rule belongs to the innermost scope, and a scope ends with its file. -/
def next : Event → Nesting
  | .declare name rule =>
      { nesting with scopes := nesting.scopes.modifyHead (update · name (some rule)) }
  | .enter isSubninja =>
      ⟨isSubninja :: nesting.files,
        if isSubninja then (fun _ => none) :: nesting.scopes else nesting.scopes⟩
  | .leave =>
      ⟨nesting.files.tail,
        if nesting.files.head? = some true then nesting.scopes.tail else nesting.scopes⟩
  | .other => nesting

/-- The rule of a name in the innermost scope that declares it. -/
def resolve (name : Bytes) : Option Rule := nesting.scopes.findSome? (· name)

/-- The innermost scope declares the name, unless no scope does. -/
def IsLocal (name : Bytes) : Prop :=
  nesting.resolve name ≠ none → nesting.scopes.head?.bind (· name) ≠ none

instance (nesting : Nesting) (name : Bytes) : Decidable (nesting.IsLocal name) :=
  inferInstanceAs (Decidable (_ → _))

/-- A local name stands for the rule of the innermost scope. -/
theorem IsLocal.resolve_eq {nesting : Nesting} {name : Bytes} (h : nesting.IsLocal name) :
  nesting.resolve name = nesting.scopes.head?.bind (· name)
  := by
  rw [IsLocal, resolve] at h
  rw [resolve]
  cases hscopes : nesting.scopes with
  | nil => rfl
  | cons scope scopes =>
    rw [hscopes] at h
    rw [findSome?_cons] at h ⊢
    cases hname : scope name with
    | some rule => exact hname.symm
    | none =>
      rw [hname] at h
      by_contra hne
      exact h (fun hnone => hne (hnone.trans hname.symm)) hname

end Nesting

namespace ScopeSamples

open LoadSamples (token)

/-- A build statement with a rule that both of the files declare. -/
def statement : Decl :=
  .buildDecl (token "build") ⟨token "r", [token "a"], [], [], [], []⟩ []

/-- The main file declares a rule, and then has a `subninja` declaration.  Any other file
declares a rule of the same name, and uses it. -/
def environment : Environment :=
  ⟨fun filename => some ⟨filename,
    if filename = [] then
      [.ruleDecl (token "rule") (token "r") [.decl (token "command") (token "x")],
        .includeDecl false (token "b")]
    else
      [.ruleDecl (token "rule") (token "r") [.decl (token "command") (token "y")], statement]⟩,
    Path.normalForm (ascii "/w")⟩

/-- The main file and any other file have the given texts. -/
def nestedEnvironment (text nested : String) : Environment :=
  .ofTexts (ascii "/w") fun path =>
    some (ascii (if path = ascii "/w/build.ninja" then text else nested))

/-- The rules of the commands and the errors after the first steps of a load. -/
def rulesAndErrors (env : Environment) (n : ℕ) : Option (List Bytes × List Diagnostic) :=
  ((Loader.start env (ascii "build.ninja")).run env 10 n).toOption.map fun l =>
    (l.manifest.commands.map (·.rule.name), l.errors)

end ScopeSamples

namespace Loader

variable {env : Environment} {l l' l'' : Loader}

/-- What a declaration means for the scopes. -/
def declEvent (env : Environment) (l : Loader) : Decl → Event
  | .ruleDecl _ nameTok bindings =>
      .declare nameTok.text ((Rule.empty nameTok.text).bind bindings)
  | .includeDecl isInclude pathTok =>
      if (env.readFile (l.evalToken pathTok).1).isSome then .enter (!isInclude) else .other
  | _ => .other

/-- What the next step of the loader means for the scopes. -/
def event (env : Environment) (l : Loader) : Event :=
  match l.includeStack, l.next with
  | [], _ => .other
  | _ :: _, none => .leave
  | _ :: _, some decl => l.declEvent env decl

/-- What the first steps of a load mean for the scopes. -/
def events (env : Environment) (depth : ℕ) : ℕ → Loader → List Event
  | 0, _ => []
  | n + 1, l =>
      match l.step env depth with
      | .error _ => []
      | .ok l' => l.event env :: l'.events env depth n

/-- The scopes of the loader are those of the nesting. -/
structure Represents (l : Loader) (nesting : Nesting) : Prop where
  files : nesting.files = l.includeStack.map isSubninja
  scopes : nesting.scopes = l.scopes.map fun scope => scope.rules.lookup
  nested : l.parents.length = nesting.files.count true

namespace Represents

variable {nesting : Nesting}

section

variable (h : l.Represents nesting)
include h

/-- Only the rules of the scopes and the files matter. -/
theorem of_rules (hrules : l'.scope.rules = l.scope.rules) (hparents : l'.parents = l.parents)
    (hstack : l'.includeStack.map isSubninja = l.includeStack.map isSubninja) :
  l'.Represents nesting
  := by
  refine ⟨h.files.trans hstack.symm, ?_, ?_⟩
  · rw [h.scopes, Loader.scopes, Loader.scopes, hparents, map_cons, map_cons, hrules]
  · rw [hparents, h.nested]

theorem of_scopes (hscopes : l'.scopes = l.scopes) (hstack : l'.includeStack = l.includeStack) :
  l'.Represents nesting
  := by
  obtain ⟨hscope, hparents⟩ := cons.inj hscopes
  exact h.of_rules (congrArg Scope.rules hscope) hparents (by rw [hstack])

/-- The scopes do not change when a declaration is taken from the current file. -/
theorem advance :
  l.advance.Represents nesting
  := by
  refine h.of_rules rfl rfl ?_
  rw [Loader.advance]
  cases l.includeStack with
  | nil | cons => rfl

theorem enterFile {file : File} {filename : Bytes} (isSubninja : Bool)
    (hfile : env.readFile filename = some file) :
  (l.enterFile env filename isSubninja).Represents (nesting.next (.enter isSubninja))
  := by
  rw [Loader.enterFile, hfile]
  cases isSubninja with
  | true =>
    refine ⟨congrArg (true :: ·) h.files, ?_, ?_⟩
    · rw [Nesting.next, h.scopes]
      rfl
    · rw [Nesting.next, count_cons_self, ← h.nested]
      rfl
  | false =>
    refine ⟨congrArg (false :: ·) h.files, h.scopes, ?_⟩
    exact h.nested

theorem exitCurrentFile {entry : IncludeEntry} {stack : List IncludeEntry}
    (hstack : l.includeStack = entry :: stack) :
  l.exitCurrentFile.Represents (nesting.next .leave)
  := by
  have hfiles := h.files
  have hscopes := h.scopes
  have hnested := h.nested
  rw [hstack, map_cons] at hfiles
  rw [hfiles] at hnested
  rw [Loader.exitCurrentFile, hstack, Nesting.next, hfiles, head?_cons]
  dsimp only
  cases hsubninja : entry.isSubninja with
  | true =>
    rw [hsubninja, count_cons_self] at hnested
    cases hparents : l.parents with
    | nil =>
      rw [hparents] at hnested
      cases hnested
    | cons parent parents =>
      rw [Loader.scopes, hparents] at hscopes
      rw [hparents] at hnested
      refine ⟨rfl, ?_, Nat.succ.inj hnested⟩
      rw [hscopes]
      rfl
  | false =>
    rw [hsubninja] at hnested
    exact ⟨rfl, hscopes, hnested⟩

theorem declare {name : Bytes} {rule : Rule}
    (hrules : l'.scope.rules = l.scope.rules.insert name rule) (hparents : l'.parents = l.parents)
    (hstack : l'.includeStack = l.includeStack) :
  l'.Represents (nesting.next (.declare name rule))
  := by
  have hupdate : update l.scope.rules.lookup name (some rule)
      = (l.scope.rules.insert name rule).lookup := by
    funext x
    rw [update_apply]
    exact (Table.lookup_insert l.scope.rules name x rule).symm
  refine ⟨?_, ?_, ?_⟩
  · rw [hstack]
    exact h.files
  · rw [Nesting.next, h.scopes, Loader.scopes, Loader.scopes, map_cons, map_cons,
      modifyHead_cons, hparents, hrules, hupdate]
  · rw [hparents]
    exact h.nested

theorem act {depth : ℕ} {decl : Decl} (hact : l.act env depth decl = .ok l') :
  l'.Represents (nesting.next (l.declEvent env decl))
  := by
  cases decl with
  | error message token =>
    cases hact
    exact h.of_scopes rfl rfl
  | bindingDecl nameTok valueTok =>
    cases hact
    exact h.of_rules rfl rfl rfl
  | defaultDecl nameToks =>
    cases hact
    have hkeeps := keeps_actOnDefaultDecl env nameToks l
    exact h.of_scopes hkeeps.scopes hkeeps.includeStack
  | includeDecl isInclude pathTok =>
    cases hact
    have h' : (l.evalToken pathTok).2.Represents nesting := h.of_scopes rfl rfl
    rw [declEvent, actOnIncludeDecl]
    dsimp only
    cases hfile : env.readFile (l.evalToken pathTok).1 with
    | none =>
      rw [Loader.enterFile, hfile]
      exact h'
    | some file => exact h'.enterFile _ hfile
  | buildDecl startTok specifier bindings =>
    obtain ⟨-, -, -, -, hscopes, hstack, -⟩ := actOnBuildDecl_inv hact
    exact h.of_scopes hscopes hstack
  | poolDecl startTok nameTok bindings =>
    cases hact
    have hacts : Acts env l _ _ := acts_poolDecl startTok nameTok bindings
    cases hacts with
    | other hdecl hscopes hstack hcommands => exact h.of_scopes hscopes hstack
  | ruleDecl startTok nameTok bindings =>
    cases hact
    have hacts : Acts env l _ _ := acts_ruleDecl startTok nameTok bindings
    cases hacts with
    | rule hscope hrules hparents hstack hcommands => exact h.declare hrules hparents hstack
    | other hdecl hscopes hstack hcommands => cases hdecl

end

end Represents

variable {depth n : ℕ}

/-- The next step of the loader does what its event means for the scopes. -/
theorem Represents.step {nesting : Nesting} (h : l.Represents nesting)
    (hstep : l.step env depth = .ok l') :
  l'.Represents (nesting.next (l.event env))
  := by
  obtain ⟨hstack, rfl⟩ | ⟨hstack, hnext, rfl⟩ | ⟨decl, hnext, hact⟩ := step_inv hstep
  · rw [event, hstack]
    exact h
  · obtain ⟨entry, stack, hstack⟩ := exists_cons_of_ne_nil hstack
    rw [event, hstack, hnext]
    exact h.exitCurrentFile hstack
  · cases hstack : l.includeStack with
    | nil =>
      rw [Loader.next, hstack] at hnext
      cases hnext
    | cons entry stack =>
      rw [event, hstack, hnext]
      exact h.advance.act hact

/-- The scopes are those that the events of a load lead to. -/
theorem Represents.run {nesting : Nesting} (h : l.Represents nesting)
    (hrun : l.run env depth n = .ok l') :
  l'.Represents ((l.events env depth n).foldl Nesting.next nesting)
  := by
  induction n generalizing l nesting with
  | zero =>
    cases hrun
    exact h
  | succ n ih =>
    rw [Loader.run] at hrun
    split at hrun
    · cases hrun
    next l₁ hstep =>
      rw [Loader.events, hstep]
      apply ih (h.step hstep) hrun

variable {mainFilename : Bytes}

/-- The main file has the root scope. -/
theorem represents_start (h : (start env mainFilename).includeStack ≠ []) :
  (start env mainFilename).Represents .initial
  := by
  rw [start, enterFile] at h ⊢
  cases hfile : env.readFile mainFilename with
  | none =>
    rw [hfile] at h
    exact absurd rfl h
  | some file =>
    refine ⟨rfl, congrArg ([·]) ?_, rfl⟩
    funext x
    rw [update_apply]
    exact (Table.lookup_insert ∅ (ascii "phony") x phonyRule).symm

/-- The scopes in any state of a load in which there is a declaration. -/
theorem represents_of_run {decl : Decl}
    (hrun : (start env mainFilename).run env depth n = .ok l) (hnext : l.next = some decl) :
  l.Represents (((start env mainFilename).events env depth n).foldl Nesting.next .initial)
  := by
  by_cases hstack : (start env mainFilename).includeStack = []
  · rw [run_of_includeStack_eq_nil hstack] at hrun
    cases hrun
    rw [next, hstack] at hnext
    cases hnext
  · exact (represents_start hstack).run hrun

/-! ### Errors -/

/-- The errors that were reported are kept, and those that are new have a property. -/
def Reports (p : Diagnostic → Prop) (l l' : Loader) : Prop :=
  ∃ new, l'.errors = l.errors ++ new ∧ ∀ error ∈ new, p error

namespace Reports

variable {p : Diagnostic → Prop}

theorem refl (l : Loader) : Reports p l l := ⟨[], (append_nil _).symm, forall_mem_nil _⟩

theorem trans (h : Reports p l l') (h' : Reports p l' l'') :
  Reports p l l''
  := by
  obtain ⟨new, hnew, hp⟩ := h
  obtain ⟨new', hnew', hp'⟩ := h'
  refine ⟨new ++ new', ?_, ?_⟩
  · rw [hnew', hnew, append_assoc]
  · exact forall_mem_append.mpr ⟨hp, hp'⟩

end Reports

end Loader

/-- The messages of the errors in a string. -/
def StringPiece.messages : List Bytes :=
  [ascii "invalid '$'-escape at end of string",
    ascii "invalid variable reference in string (missing trailing '\x7d')",
    ascii "invalid variable name in reference",
    ascii "invalid '$'-escape (literal '$' should be written as '$$')"]

theorem StringPiece.mem_messages {string : Bytes} {ps : List StringPiece} (h : Reads string ps) :
  ∀ message, .error message ∈ ps → message ∈ StringPiece.messages
  := by
  induction h with
  | nil => simp
  | text htext hdollar hrest h ih | escape hc h ih | braced hname h ih
  | simple hname hchars hrest h ih => simpa using ih
  | newline hspace hrest h ih => exact ih
  | invalidName hbrace hname h ih => simpa [messages] using ih
  | unterminated | atEnd | invalid => simp [messages]

/-- The errors of the evaluation of a string are those of the string. -/
theorem messages_evalInScopes (scopes : List Scope) (string : Bytes) :
  ∀ message ∈ Output.messages (Loader.evalInScopes scopes string),
    message ∈ StringPiece.messages
  := by
  have hpieces := StringPiece.mem_messages (reads_pieces string)
  rw [Loader.evalInScopes, template]
  generalize pieces string = ps at hpieces
  induction ps with
  | nil => exact forall_mem_nil _
  | cons piece ps ih =>
    have hrest := ih fun message hmessage => hpieces message (mem_cons_of_mem _ hmessage)
    have happend (output output' : List Output) :
        Output.messages (output ++ output') = Output.messages output ++ Output.messages output' :=
      flatMap_append
    cases piece with
    | text text | reference name =>
      rw [map_cons, toPiece, Template.render, happend, messages_chars]
      exact hrest
    | error message =>
      exact forall_mem_append.mpr ⟨forall_mem_singleton.mpr (hpieces message mem_cons_self), hrest⟩

namespace Loader

variable {env : Environment} {l l' : Loader}

/-- An error that is not about the rule of a build statement. -/
def IsOther (error : Diagnostic) : Prop := error.message ≠ ascii "unknown rule"

theorem reports_evalToken (token : Token) (l : Loader) :
  Reports IsOther l (l.evalToken token).2
  := by
  refine ⟨_, rfl, ?_⟩
  intro error herror
  obtain ⟨message, hmessage, rfl⟩ := mem_map.mp herror
  have hmem := messages_evalInScopes l.scopes token.text message hmessage
  rintro rfl
  exact absurd hmem (by decide +kernel)

theorem reports_error {message : Bytes} (h : message ≠ ascii "unknown rule") (token : Token)
    (l : Loader) :
  Reports IsOther l (l.error message token)
  := ⟨_, rfl, forall_mem_singleton.mpr h⟩

theorem reports_resolveNode {emptyPath path : Bytes} {token : Token} {node : Node}
    (hempty : emptyPath ≠ ascii "unknown rule")
    (h : l.resolveNode env emptyPath token = some (path, node, l')) :
  Reports IsOther l l'
  := by
  obtain ⟨⟨node', manifest⟩, -, h⟩ := Option.map_eq_some_iff.mp h
  obtain ⟨-, -, rfl⟩ : _ ∧ _ ∧ _ := by simpa only [Prod.mk.injEq] using h
  have heval := reports_evalToken token l
  split_ifs
  · exact heval.trans (reports_error hempty token _)
  · exact heval

/-- A build statement reports that its rule is unknown if it is not in the scope of the file, and
only then. -/
theorem actOnBeginBuildDecl_errors {specifier : BuildSpecifier} {decl : Command}
    (h : l.actOnBeginBuildDecl env specifier = some (decl, l')) :
  ∃ new, l'.errors = l.errors ++ new ∧ ((∃ error ∈ new, error.message = ascii "unknown rule")
    ↔ l.scope.rules.lookup specifier.name.text = none)
  := by
  -- The paths of the statement report other errors.
  have hother : Reports IsOther (l.resolveRule specifier.name).2 l' := by
    rw [actOnBeginBuildDecl] at h
    dsimp only at h
    split at h
    · cases h
    next outputs n l₁ houtputs =>
      split at h
      · cases h
      next inputs l₂ hinputs =>
        obtain ⟨-, rfl⟩ := Prod.mk.inj (Option.some.inj h)
        have hreports := rel_resolveOutputs Reports.refl Reports.trans
          (reports_resolveNode (by decide)) houtputs
        exact hreports.trans (rel_resolveInputs Reports.refl Reports.trans
          (reports_resolveNode (by decide)) hinputs)
  obtain ⟨new, hnew, hother⟩ := hother
  have hnone : ¬ ∃ error ∈ new, error.message = ascii "unknown rule" := by
    rintro ⟨error, herror, heq⟩
    apply hother error herror heq
  rw [resolveRule] at hnew
  cases hlookup : l.scope.rules.lookup specifier.name.text with
  | none =>
    rw [hlookup] at hnew
    refine ⟨⟨l.getCurrentFilename, ascii "unknown rule", specifier.name⟩ :: new, ?_, ?_⟩
    · rw [hnew, Loader.error, Loader.report, append_assoc]
      rfl
    · exact iff_of_true ⟨_, mem_cons_self, rfl⟩ rfl
  | some rule =>
    rw [hlookup] at hnew
    exact ⟨new, hnew, iff_of_false hnone (Option.some_ne_none rule)⟩

/-- **The scopes of rules.**  The command of a build statement has the rule of its name in the
innermost scope that declares it, and it is an error that the rule is unknown if no scope declares
it, and only then: this holds exactly if the innermost scope declares the rule, or no scope. -/
theorem rule_of_run_iff {mainFilename : Bytes} {depth n : ℕ} {startTok : Token}
    {specifier : BuildSpecifier} {bindings : List Binding} {nesting : Nesting} {begun : Command}
    {l₁ : Loader} (hrun : (start env mainFilename).run env depth n = .ok l)
    (hnext : l.next = some (.buildDecl startTok specifier bindings))
    (hnesting : nesting = ((start env mainFilename).events env depth n).foldl Nesting.next .initial)
    (hbegin : l.advance.actOnBeginBuildDecl env specifier = some (begun, l₁)) :
  begun.rule = (nesting.resolve specifier.name.text).getD phonyRule
    ∧ (∃ new, l₁.errors = l.errors ++ new
      ∧ ((∃ error ∈ new, error.message = ascii "unknown rule")
        ↔ nesting.resolve specifier.name.text = none))
    ∧ (∀ l', l.step env depth = .ok l' →
      ∃ decl, l'.manifest.commands = l.manifest.commands ++ [decl] ∧ decl.rule = begun.rule)
    ↔ nesting.IsLocal specifier.name.text
  := by
  have hscope : l.scope.rules.lookup specifier.name.text
      = nesting.scopes.head?.bind (· specifier.name.text) := by
    have hrepresents := represents_of_run hrun hnext
    rw [← hnesting] at hrepresents
    rw [hrepresents.scopes]
    rfl
  obtain ⟨-, -, -, -, hrule⟩ := actOnBeginBuildDecl_spec hbegin
  obtain ⟨new, hnew, hunknown⟩ := actOnBeginBuildDecl_errors hbegin
  constructor
  · rintro ⟨-, ⟨new', hnew', hresolve⟩, -⟩ hne hnone
    obtain rfl : new' = new := append_cancel_left (hnew'.symm.trans hnew)
    exact hne (hresolve.mp (hunknown.mpr (hscope.trans hnone)))
  intro hlocal
  have hresolve := hscope.trans hlocal.resolve_eq.symm
  refine ⟨?_, ⟨new, hnew, ?_⟩, ?_⟩
  · rw [hrule, ← hresolve]
    rfl
  · rw [← hresolve]
    exact hunknown
  · intro l' hstep
    rw [step_of_next hnext] at hstep
    obtain ⟨decl₁, l₂, decl, hbegin', -, -, hmanifest, hrule', -⟩ := actOnBuildDecl_inv hstep
    obtain ⟨rfl, rfl⟩ := Prod.mk.inj (Option.some.inj (hbegin.symm.trans hbegin'))
    exact ⟨decl, congrArg Manifest.commands hmanifest, hrule'⟩

open ScopeSamples in
set_option maxRecDepth 4000 in
/-- The rule of the file itself hides the one of the main file. -/
theorem rule_of_run_hidden :
  ∃ l begun l₁ nesting, (start environment []).run environment 10 3 = .ok l
    ∧ l.next = some statement
    ∧ l.advance.actOnBeginBuildDecl environment ⟨LoadSamples.token "r", [LoadSamples.token "a"],
      [], [], [], []⟩ = some (begun, l₁)
    ∧ nesting = ((start environment []).events environment 10 3).foldl Nesting.next .initial
    ∧ begun.rule = (nesting.resolve (ascii "r")).getD phonyRule
    ∧ (∃ new, l₁.errors = l.errors ++ new
      ∧ ((∃ error ∈ new, error.message = ascii "unknown rule")
        ↔ nesting.resolve (ascii "r") = none))
    ∧ ∀ l', l.step environment 10 = .ok l' →
      ∃ decl, l'.manifest.commands = l.manifest.commands ++ [decl] ∧ decl.rule = begun.rule
  := by
  obtain ⟨l, hrun, hnext, begun, l₁, hbegin⟩ :
      ∃ l, (start environment []).run environment 10 3 = .ok l ∧ l.next = some statement
        ∧ ∃ begun l₁, l.advance.actOnBeginBuildDecl environment ⟨LoadSamples.token "r",
          [LoadSamples.token "a"], [], [], [], []⟩ = some (begun, l₁) :=
    ⟨_, rfl, rfl, _, _, rfl⟩
  exact ⟨l, begun, l₁, _, hrun, hnext, hbegin, rfl,
    (rule_of_run_iff hrun hnext rfl hbegin).mpr (by decide)⟩

open ScopeSamples in
/-- A rule of the main file, and the phony rule, are not known in the file of a `subninja`
declaration. -/
theorem unknown_rule_of_nested :
  (let env := nestedEnvironment "rule r\n  command = x\nsubninja b\n" "build a: r\n"
    let nesting := ((start env (ascii "build.ninja")).events env 10 2).foldl Nesting.next .initial
    (nesting.resolve (ascii "r")).map Rule.name = some (ascii "r")
      ∧ rulesAndErrors env 2 = some ([], [])
      ∧ rulesAndErrors env 3
        = some ([ascii "phony"], [⟨ascii "/w/b", ascii "unknown rule", ⟨9, ascii "r"⟩⟩]))
    ∧ (let env := nestedEnvironment "subninja b\n" "build a: phony\n"
      let nesting := ((start env (ascii "build.ninja")).events env 10 1).foldl Nesting.next .initial
      (nesting.resolve (ascii "phony")).map Rule.name = some (ascii "phony")
        ∧ rulesAndErrors env 2
          = some ([ascii "phony"], [⟨ascii "/w/b", ascii "unknown rule", ⟨9, ascii "phony"⟩⟩]))
  := by decide +kernel

end Loader

end LLBuild.Ninja.Manifest

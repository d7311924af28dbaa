import LLBuild.Ninja.Escaping
import LLBuild.Ninja.Loading
import LLBuild.Ninja.NormalizePath
import LLBuild.Ninja.Parser

/-!
# The nodes of a manifest

A path stands for the node of its normal form.  Nodes are created when they are first mentioned,
and are kept, so whatever is said later about the same path is about the same node.

The outputs of a build statement are the nodes its tokens stand for, each of them once.  The
targets of a default declaration are looked up by the text of their tokens, which is not
evaluated.
-/

namespace LLBuild.Ninja.Manifest

open Option

open List

open BinaryCoding

/-- The files with the given texts, as the parser reads them. -/
def Environment.ofTexts (workingDirectory : Bytes) (texts : Bytes → Option Bytes) :
    Environment where
  readFile filename := do
    let path := Path.makeAbsolute workingDirectory filename
    let text ← texts path
    let decls ← (Parser.parse text).toOption
    return ⟨path, decls⟩
  normalizePath := Path.normalForm workingDirectory

theorem eq_ok_of_toOption {ε α : Type} {result : Except ε α} {a : α}
    (h : result.toOption = some a) :
  result = .ok a
  := by
  cases result with
  | error error => cases h
  | ok b => exact congrArg Except.ok (some.inj h)

/-- A file that was read has a text, in which the parser found its declarations. -/
theorem Environment.exists_of_readFile {workingDirectory filename : Bytes}
    {texts : Bytes → Option Bytes} {file : File}
    (h : (Environment.ofTexts workingDirectory texts).readFile filename = some file) :
  ∃ text, texts (Path.makeAbsolute workingDirectory filename) = some text
    ∧ Parser.parse text = .ok file.decls
  := by
  obtain ⟨text, htext, h⟩ := bind_eq_some_iff.mp h
  obtain ⟨decls, hdecls, h⟩ := bind_eq_some_iff.mp h
  cases h
  exact ⟨text, htext, eq_ok_of_toOption hdecls⟩

/-- The outputs behind the explicit ones. -/
def Command.implicitOutputs (decl : Command) : List Node :=
  decl.outputs.drop decl.numExplicitOutputs

namespace NodeSamples

open LoadSamples (token)

/-- A build statement that names an output in several ways. -/
def statement : Decl :=
  .buildDecl (token "build") ⟨token "phony", [token "a", token "b/../a"], [token "c", token "/w/a"],
    [], [], []⟩ []

/-- Every file has the build statement. -/
def outputEnvironment : Environment :=
  ⟨fun _ => some ⟨ascii "build.ninja", [statement]⟩, Path.normalForm (ascii "/w")⟩

/-- The build statement, and a target that is named as in it. -/
def defaultEnvironment : Environment :=
  ⟨fun _ => some ⟨ascii "build.ninja", [statement, .defaultDecl [token "b/../a"]]⟩,
    Path.normalForm (ascii "/w")⟩

/-- What is loaded from a file with the given text. -/
def loadText (text : Bytes) : Option Loader :=
  let env := Environment.ofTexts (ascii "/w") fun _ => some text
  ((Loader.start env (ascii "build.ninja")).run env 10 text.length).toOption

end NodeSamples

theorem evaluates_of_not_mem {text : Bytes} (h : dollar ∉ text) :
  Evaluates text text
  := by
  have hspells : Spells (· ≠ dollar) text text := by
    induction text with
    | nil => exact .nil
    | cons c text ih =>
      obtain ⟨hc, htext⟩ := not_or.mp (mt mem_cons.mpr h)
      exact .plain (decide_eq_true (Ne.symm hc)) (ih htext)
  exact hspells.evaluates (by decide)

namespace Loader

variable {env : Environment} {l l' l'' : Loader} {token : Token} {node : Node}

/-- The nodes that were found are kept, and nodes are found by their paths. -/
def Grows (l l' : Loader) : Prop :=
  l.manifest.Keyed → l'.manifest.Keyed ∧ ∀ path node,
    l.manifest.nodes.lookup path = some node → l'.manifest.nodes.lookup path = some node

theorem Grows.of_nodes (h : l'.manifest.nodes = l.manifest.nodes) :
  l.Grows l'
  := by
  intro hkeyed
  rw [Manifest.Keyed, h]
  exact ⟨hkeyed, fun _ _ => id⟩

theorem Grows.refl (l : Loader) : l.Grows l := .of_nodes rfl

theorem Grows.trans (h : l.Grows l') (h' : l'.Grows l'') :
  l.Grows l''
  := by
  intro hkeyed
  obtain ⟨hkeyed', hnodes⟩ := h hkeyed
  obtain ⟨hkeyed'', hnodes'⟩ := h' hkeyed'
  exact ⟨hkeyed'', fun path node hnode => hnodes' path node (hnodes path node hnode)⟩

/-- What a token stands for: the node of the normal form of its value. -/
structure Names (env : Environment) (l : Loader) (token : Token) (node : Node) : Prop where
  path : env.normalizePath (Output.result (evalInScopes l.scopes token.text))
    = some node.canonicalPath
  node : l.manifest.nodes.lookup node.canonicalPath = some node

theorem Names.mono (h : Names env l token node) (hkeyed : l.manifest.Keyed) (hgrows : l.Grows l')
    (hscopes : l'.scopes = l.scopes) :
  Names env l' token node
  := by
  refine ⟨?_, (hgrows hkeyed).2 _ _ h.node⟩
  rw [hscopes]
  exact h.path

/-! ### Outputs -/

theorem resolveNode_spec {emptyPath path : Bytes} (hkeyed : l.manifest.Keyed)
    (h : l.resolveNode env emptyPath token = some (path, node, l')) :
  l.Grows l' ∧ Names env l' token node
  := by
  have hscopes := (keeps_resolveNode h).scopes
  obtain ⟨⟨node', manifest⟩, hfound, h⟩ := map_eq_some_iff.mp h
  obtain ⟨-, rfl, rfl⟩ : _ ∧ _ ∧ _ := by simpa only [Prod.mk.injEq] using h
  have hfound : l.manifest.findOrCreateNode env.normalizePath
      (Output.result (evalInScopes l.scopes token.text)) = some (node', manifest) := by
    -- Errors do not change the nodes.
    split_ifs at hfound
    · exact hfound
    · exact hfound
  obtain ⟨hpath, hkeyed', hnode, hkept⟩ := findOrCreateNode_spec hkeyed hfound
  refine ⟨fun _ => ⟨hkeyed', hkept⟩, ?_, hnode⟩
  rw [hscopes]
  exact hpath

theorem eraseDups_concat {α : Type} [DecidableEq α] (as : List α) (a : α) :
  (as ++ [a]).eraseDups = if a ∈ as.eraseDups then as.eraseDups else as.eraseDups ++ [a]
  := by
  rw [eraseDups_append]
  simp only [mem_eraseDups]
  split_ifs with h
  · simp [removeAll, h]
  · simp [removeAll, h, eraseDups_cons]

theorem nodup_eraseDups {α : Type} [DecidableEq α] (as : List α) :
  as.eraseDups.Nodup
  := by
  induction as using reverseRecOn with
  | nil => exact nodup_nil
  | append_singleton as a ih =>
    rw [eraseDups_concat]
    split_ifs with h
    · exact ih
    · refine nodup_append.mpr ⟨ih, nodup_singleton a, ?_⟩
      intro b hb c hc
      rw [mem_singleton.mp hc]
      exact ne_of_mem_of_not_mem hb h

variable {outputs outputs' : List Node} {n n' : ℕ}

/-- The outputs are the nodes of the tokens, each of them where it is first mentioned. -/
theorem resolveOutputs_spec {tokens : List (Token × Bool)} (done : List Node)
    (hkeyed : l.manifest.Keyed)
    (h : l.resolveOutputs env tokens done.eraseDups n = some (outputs, n', l')) :
  l.Grows l' ∧ ∃ nodes, List.Forall₂ (fun token node => Names env l' token.1 node) tokens nodes
    ∧ outputs = (done ++ nodes).eraseDups
  := by
  induction tokens generalizing done n l with
  | nil =>
    obtain ⟨rfl, -, rfl⟩ : _ ∧ _ ∧ _ := by simpa only [resolveOutputs, some.injEq,
      Prod.mk.injEq] using h
    exact ⟨.refl l, [], .nil, by rw [append_nil]⟩
  | cons token tokens ih =>
    rw [resolveOutputs] at h
    split at h
    · cases h
    next path node l₁ hnode =>
      obtain ⟨hgrows, hnames⟩ := resolveNode_spec hkeyed hnode
      have hkeyed₁ := (hgrows hkeyed).1
      have hnext : ∃ n₁, l₁.resolveOutputs env tokens (done ++ [node]).eraseDups n₁
          = some (outputs, n', l') := by
        rw [eraseDups_concat]
        split_ifs at h ⊢
        · exact ⟨_, h⟩
        · exact ⟨_, h⟩
        · exact ⟨_, h⟩
      obtain ⟨n₁, hnext⟩ := hnext
      obtain ⟨hgrows', nodes, hnodes, rfl⟩ := ih _ hkeyed₁ hnext
      refine ⟨hgrows.trans hgrows', node :: nodes, .cons ?_ hnodes, ?_⟩
      · exact hnames.mono hkeyed₁ hgrows' (keeps_resolveOutputs hnext).scopes
      · rw [append_assoc, singleton_append]

variable {tokens : List Token}

/-- Each explicit output is recorded, or its number goes down. -/
theorem resolveOutputs_explicit
    (hn : n = outputs.length + tokens.length)
    (h : l.resolveOutputs env (tokens.map (·, true)) outputs n = some (outputs', n', l')) :
  n' = outputs'.length
  := by
  induction tokens generalizing outputs n l with
  | nil =>
    obtain ⟨rfl, rfl, -⟩ : _ ∧ _ ∧ _ := by simpa only [map_nil, resolveOutputs,
      some.injEq, Prod.mk.injEq] using h
    exact hn
  | cons token tokens ih =>
    rw [map_cons, resolveOutputs] at h
    rw [length_cons] at hn
    split at h
    · cases h
    next path node l₁ hnode =>
      by_cases hmem : node ∈ outputs
      · rw [if_pos hmem, if_pos rfl] at h
        exact ih (by omega) h
      · rw [if_neg hmem] at h
        refine ih ?_ h
        rw [length_append, length_singleton]
        omega

theorem resolveOutputs_implicit
    (h : l.resolveOutputs env (tokens.map (·, false)) outputs n = some (outputs', n', l')) :
  n' = n
  := by
  induction tokens generalizing outputs l with
  | nil =>
    obtain ⟨-, rfl, -⟩ : _ ∧ _ ∧ _ := by simpa only [map_nil, resolveOutputs,
      some.injEq, Prod.mk.injEq] using h
    rfl
  | cons token tokens ih =>
    rw [map_cons, resolveOutputs] at h
    split at h
    · cases h
    next path node l₁ hnode =>
      by_cases hmem : node ∈ outputs
      · rw [if_pos hmem] at h
        exact ih h
      · rw [if_neg hmem] at h
        exact ih h

theorem resolveOutputs_append (tokens tokens' : List (Token × Bool)) (outputs : List Node)
    (n : ℕ) (l : Loader) :
  l.resolveOutputs env (tokens ++ tokens') outputs n
    = (l.resolveOutputs env tokens outputs n).bind fun found =>
      found.2.2.resolveOutputs env tokens' found.1 found.2.1
  := by
  induction tokens generalizing outputs n l with
  | nil => rfl
  | cons token tokens ih =>
    rw [cons_append, resolveOutputs, resolveOutputs]
    split
    · rfl
    · split_ifs
      · exact ih _ _ _
      · exact ih _ _ _
      · exact ih _ _ _

theorem resolveInputs_grows {inputs inputs' : List NodeInCommand}
    (h : l.resolveInputs env tokens inputs = some (inputs', l')) :
  l.Grows l'
  := by
  refine rel_resolveInputs Grows.refl Grows.trans ?_ h
  intro l l' token path node hnode hkeyed
  exact (resolveNode_spec hkeyed hnode).1 hkeyed

/-- The outputs of a command are the nodes of the tokens, each of them once, where it is first
mentioned; the explicit outputs are the nodes of the explicit tokens. -/
def Produces (env : Environment) (l : Loader) (specifier : BuildSpecifier) (decl : Command) :
    Prop :=
  ∃ explicit implicit, List.Forall₂ (Names env l) specifier.outputs explicit
    ∧ List.Forall₂ (Names env l) specifier.implicitOutputs implicit
    ∧ decl.outputs = (explicit ++ implicit).eraseDups
    ∧ decl.numExplicitOutputs = explicit.eraseDups.length

variable {nodes : List Node}

theorem forall₂_mono (hkeyed : l.manifest.Keyed) (hgrows : l.Grows l')
    (hscopes : l'.scopes = l.scopes) (h : List.Forall₂ (Names env l) tokens nodes) :
  List.Forall₂ (Names env l') tokens nodes
  := h.imp fun _ _ hnames => hnames.mono hkeyed hgrows hscopes

variable {specifier : BuildSpecifier} {decl' decl : Command}

theorem Produces.mono
    (h : Produces env l specifier decl) (hkeyed : l.manifest.Keyed) (hgrows : l.Grows l')
    (hscopes : l'.scopes = l.scopes) (houtputs : decl'.outputs = decl.outputs)
    (hnumber : decl'.numExplicitOutputs = decl.numExplicitOutputs) :
  Produces env l' specifier decl'
  := by
  obtain ⟨explicit, implicit, hexplicit, himplicit, hall, hfirst⟩ := h
  exact ⟨explicit, implicit, forall₂_mono hkeyed hgrows hscopes hexplicit,
    forall₂_mono hkeyed hgrows hscopes himplicit, houtputs.trans hall, hnumber.trans hfirst⟩

theorem actOnBeginBuildDecl_produces
    (hkeyed : l.manifest.Keyed) (h : l.actOnBeginBuildDecl env specifier = some (decl, l')) :
  l.Grows l' ∧ Produces env l' specifier decl
  := by
  have hrule : (l.resolveRule specifier.name).2.manifest = l.manifest := by
    rw [resolveRule]
    split <;> rfl
  rw [actOnBeginBuildDecl] at h
  dsimp only at h
  generalize (l.resolveRule specifier.name).2 = l₀ at h hrule
  have hgrows₀ : l.Grows l₀ := .of_nodes (congrArg Manifest.nodes hrule)
  have hkeyed₀ := (hgrows₀ hkeyed).1
  rw [resolveOutputs_append] at h
  split at h
  · cases h
  next outputs n l₂ houtputs =>
    obtain ⟨⟨outputs₁, n₁, l₁⟩, hexplicit, himplicit⟩ := bind_eq_some_iff.mp houtputs
    split at h
    · cases h
    next inputs l₃ hinputs =>
      obtain ⟨rfl, rfl⟩ := Prod.mk.inj (some.inj h)
      obtain ⟨hgrows₁, explicit, hnames₁, rfl⟩ := resolveOutputs_spec [] hkeyed₀ hexplicit
      have hkeyed₁ := (hgrows₁ hkeyed₀).1
      obtain ⟨hgrows₂, implicit, hnames₂, rfl⟩ := resolveOutputs_spec explicit hkeyed₁ himplicit
      have hkeyed₂ := (hgrows₂ hkeyed₁).1
      have hgrows₃ := resolveInputs_grows hinputs
      have hscopes₂ := (keeps_resolveOutputs himplicit).scopes
      have hscopes₃ := (keeps_resolveInputs hinputs).scopes
      have hnumber := resolveOutputs_explicit (Nat.zero_add _).symm hexplicit
      rw [forall₂_map_left_iff] at hnames₁ hnames₂
      refine ⟨((hgrows₀.trans hgrows₁).trans hgrows₂).trans hgrows₃, explicit, implicit, ?_, ?_,
        rfl, (resolveOutputs_implicit himplicit).trans hnumber⟩
      · exact forall₂_mono hkeyed₂ hgrows₃ hscopes₃ (forall₂_mono hkeyed₁ hgrows₂ hscopes₂ hnames₁)
      · exact forall₂_mono hkeyed₂ hgrows₃ hscopes₃ hnames₂

variable (bindings : List Binding)

theorem buildBindings_manifest (decl : Command) (l : Loader) :
  (l.buildBindings bindings decl).2.manifest = l.manifest
  := by
  induction bindings generalizing decl l with
  | nil => rfl
  | cons binding bindings ih =>
    cases binding with
    | error message token => exact ih decl _
    | decl nameTok valueTok => exact ih _ _

variable {depth : ℕ} {startTok : Token}

/-- The evaluation of a command changes neither its outputs nor the manifest. -/
theorem actOnEndBuildDecl_keeps
    (h : l.actOnEndBuildDecl env depth startTok decl = some (decl', l')) :
  l.Keeps l' ∧ l'.manifest = l.manifest ∧ decl'.rule = decl.rule ∧ decl'.outputs = decl.outputs
    ∧ decl'.numExplicitOutputs = decl.numExplicitOutputs
  := by
  obtain ⟨command, -, h⟩ := bind_eq_some_iff.mp h
  obtain ⟨description, -, h⟩ := bind_eq_some_iff.mp h
  obtain ⟨deps, -, h⟩ := bind_eq_some_iff.mp h
  obtain ⟨depfile, -, h⟩ := bind_eq_some_iff.mp h
  obtain ⟨pool, -, h⟩ := bind_eq_some_iff.mp h
  obtain ⟨generator, -, h⟩ := bind_eq_some_iff.mp h
  obtain ⟨restat, -, h⟩ := bind_eq_some_iff.mp h
  obtain ⟨rspfile, -, h⟩ := bind_eq_some_iff.mp h
  split at h
  · obtain ⟨rfl, rfl⟩ := Prod.mk.inj (some.inj h)
    exact ⟨keeps_report _ _ _, rfl, rfl, rfl, rfl⟩
  · split at h
    · obtain ⟨rfl, rfl⟩ := Prod.mk.inj (some.inj h)
      exact ⟨keeps_report _ _ _, rfl, rfl, rfl, rfl⟩
    · obtain ⟨content, -, h⟩ := bind_eq_some_iff.mp h
      obtain ⟨rfl, rfl⟩ := Prod.mk.inj (some.inj h)
      exact ⟨(keeps_report _ _ _).trans (keeps_report _ _ _), rfl, rfl, rfl, rfl⟩

/-- A build statement begins with its command; what comes after that changes neither the rule
and the outputs of the command nor the nodes and the scopes. -/
theorem actOnBuildDecl_inv {bindings : List Binding}
    (h : l.actOnBuildDecl env depth startTok specifier bindings = .ok l') :
  ∃ decl₁ l₁ decl, l.actOnBeginBuildDecl env specifier = some (decl₁, l₁)
    ∧ l'.scopes = l.scopes ∧ l'.includeStack = l.includeStack
    ∧ l'.manifest = { l₁.manifest with commands := l.manifest.commands ++ [decl] }
    ∧ decl.rule = decl₁.rule ∧ decl.outputs = decl₁.outputs
    ∧ decl.numExplicitOutputs = decl₁.numExplicitOutputs
  := by
  rw [actOnBuildDecl] at h
  split at h
  · cases h
  next decl₁ l₁ hbegin =>
    have hkeeps := (actOnBeginBuildDecl_spec hbegin).1
    obtain ⟨hkeeps₂, hdecl, -⟩ := buildBindings_spec (.refl l₁) bindings decl₁
    have hmanifest := buildBindings_manifest bindings decl₁ l₁
    generalize l₁.buildBindings bindings decl₁ = bound at h hkeeps₂ hdecl hmanifest
    dsimp only at h hkeeps₂ hdecl hmanifest
    split at h
    · cases h
    next decl l₃ hend =>
      cases h
      obtain ⟨hkeeps₃, hmanifest', hrule, houtputs, hnumber⟩ := actOnEndBuildDecl_keeps hend
      have hall := hkeeps.trans (hkeeps₂.trans hkeeps₃)
      refine ⟨decl₁, l₁, decl, hbegin, hall.scopes, hall.includeStack, ?_, ?_, ?_, ?_⟩
      · rw [hmanifest', hmanifest, hkeeps.commands]
      · rw [hrule, hdecl]
      · rw [houtputs, hdecl]
      · rw [hnumber, hdecl]

/-- A build statement adds a command with its outputs. -/
theorem actOnBuildDecl_produces
    {bindings : List Binding} (hkeyed : l.manifest.Keyed)
    (h : l.actOnBuildDecl env depth startTok specifier bindings = .ok l') :
  l.Grows l' ∧ ∃ decl, l'.manifest.commands = l.manifest.commands ++ [decl]
    ∧ Produces env l' specifier decl
  := by
  obtain ⟨decl₁, l₁, decl, hbegin, hscopes, -, hmanifest, -, houtputs, hnumber⟩ :=
    actOnBuildDecl_inv h
  obtain ⟨hgrows, hproduces⟩ := actOnBeginBuildDecl_produces hkeyed hbegin
  have hgrows' : l₁.Grows l' := .of_nodes (by rw [hmanifest])
  refine ⟨hgrows.trans hgrows', decl, congrArg Manifest.commands hmanifest, ?_⟩
  refine hproduces.mono (hgrows hkeyed).1 hgrows' ?_ houtputs hnumber
  rw [hscopes, (actOnBeginBuildDecl_spec hbegin).1.scopes]

/-! ### Whole loads -/

theorem actOnPoolBindingDecl_manifest (nameTok valueTok : Token) (decl : Pool) (l : Loader) :
  (l.actOnPoolBindingDecl nameTok valueTok decl).2.manifest = l.manifest
  := by
  rw [actOnPoolBindingDecl]
  dsimp only
  split_ifs
  · split
    · rfl
    · split_ifs <;> rfl
  · rfl

theorem actOnRuleBindingDecl_manifest (nameTok valueTok : Token) (decl : Rule) (l : Loader) :
  (l.actOnRuleBindingDecl nameTok valueTok decl).2.manifest = l.manifest
  := by
  rw [actOnRuleBindingDecl]
  split_ifs <;> rfl

theorem poolBindings_manifest (decl : Pool) (l : Loader) :
  (l.poolBindings bindings decl).2.manifest = l.manifest
  := by
  induction bindings generalizing decl l with
  | nil => rfl
  | cons binding bindings ih =>
    cases binding with
    | error message token => exact ih decl _
    | decl nameTok valueTok =>
      exact (ih _ _).trans (actOnPoolBindingDecl_manifest nameTok valueTok decl l)

theorem ruleBindings_manifest (decl : Rule) (l : Loader) :
  (l.ruleBindings bindings decl).2.manifest = l.manifest
  := by
  induction bindings generalizing decl l with
  | nil => rfl
  | cons binding bindings ih =>
    cases binding with
    | error message token => exact ih decl _
    | decl nameTok valueTok =>
      exact (ih _ _).trans (actOnRuleBindingDecl_manifest nameTok valueTok decl l)

theorem actOnDefaultDecl_keeps (nameToks : List Token) (l : Loader) :
  (l.actOnDefaultDecl env nameToks).manifest.nodes = l.manifest.nodes
    ∧ (l.actOnDefaultDecl env nameToks).manifest.commands = l.manifest.commands
  := by
  rw [actOnDefaultDecl]
  induction nameToks generalizing l with
  | nil => exact ⟨rfl, rfl⟩
  | cons nameTok nameToks ih =>
    rw [foldl_cons, (ih _).1, (ih _).2]
    split <;> exact ⟨rfl, rfl⟩

theorem enterFile_manifest (filename : Bytes) (isSubninja : Bool) (l : Loader) :
  (l.enterFile env filename isSubninja).manifest = l.manifest
  := by
  rw [enterFile]
  split
  · rfl
  · split_ifs <;> rfl

theorem exitCurrentFile_manifest (l : Loader) :
  l.exitCurrentFile.manifest = l.manifest
  := by
  rw [exitCurrentFile]
  split
  · rfl
  · dsimp only
    split_ifs
    · split <;> rfl
    · rfl

theorem ite_error_manifest (p : Prop) [Decidable p] (message : Bytes) (token : Token) (l : Loader) :
  (if p then l.error message token else l).manifest = l.manifest
  := by
  split_ifs <;> rfl

/-- Nodes and commands come from build statements only. -/
theorem act_keeps {decl : Decl} (h : l.act env depth decl = .ok l')
    (hdecl : ∀ startTok specifier bindings, decl ≠ .buildDecl startTok specifier bindings) :
  l'.manifest.nodes = l.manifest.nodes ∧ l'.manifest.commands = l.manifest.commands
  := by
  cases decl with
  | error message token | bindingDecl nameTok valueTok =>
    cases h
    exact ⟨rfl, rfl⟩
  | defaultDecl nameToks =>
    cases h
    exact actOnDefaultDecl_keeps nameToks l
  | includeDecl isInclude pathTok =>
    cases h
    rw [actOnIncludeDecl, enterFile_manifest]
    exact ⟨rfl, rfl⟩
  | buildDecl startTok specifier bindings => exact absurd rfl (hdecl startTok specifier bindings)
  | poolDecl startTok nameTok bindings =>
    cases h
    rw [actOnPoolDecl]
    rw [ite_error_manifest]
    rw [poolBindings_manifest, ite_error_manifest]
    exact ⟨rfl, rfl⟩
  | ruleDecl startTok nameTok bindings =>
    cases h
    have hmanifest : (l.actOnRuleDecl startTok nameTok bindings).manifest = l.manifest := by
      rw [actOnRuleDecl, apply_ite manifest]
      refine ite_eq_iff'.mpr ⟨fun _ => ?_, fun _ => ?_⟩
      · exact (ruleBindings_manifest _ _ _).trans (ite_error_manifest _ _ _ _)
      · exact (ruleBindings_manifest _ _ _).trans (ite_error_manifest _ _ _ _)
    rw [hmanifest]
    exact ⟨rfl, rfl⟩

theorem grows_act {decl : Decl} (h : l.act env depth decl = .ok l') :
  l.Grows l'
  := by
  by_cases hdecl : ∃ startTok specifier bindings, decl = .buildDecl startTok specifier bindings
  · obtain ⟨startTok, specifier, bindings, rfl⟩ := hdecl
    exact fun hkeyed => (actOnBuildDecl_produces hkeyed h).1 hkeyed
  · push Not at hdecl
    exact .of_nodes (act_keeps h hdecl).1

theorem grows_step (h : l.step env depth = .ok l') :
  l.Grows l'
  := by
  obtain ⟨-, rfl⟩ | ⟨-, -, rfl⟩ | ⟨decl, -, hact⟩ := step_inv h
  · exact .refl l'
  · exact .of_nodes (congrArg Manifest.nodes (exitCurrentFile_manifest l))
  · have hadvance : l.Grows l.advance := .of_nodes rfl
    exact hadvance.trans (grows_act hact)

theorem grows_run (h : l.run env depth n = .ok l') :
  l.Grows l'
  := run_induction (p := l.Grows) (fun hgrows hstep => hgrows.trans (grows_step hstep)) (.refl l) h

variable {mainFilename : Bytes}

theorem keyed_of_run (h : (start env mainFilename).run env depth n = .ok l) :
  l.manifest.Keyed
  := by
  refine (grows_run h ?_).1
  rw [start, enterFile_manifest]
  exact keyed_empty

/-- In lists that are related, each member of the second has one of the first. -/
theorem exists_related {α β : Type} {r : α → β → Prop} {as : List α} {bs : List β}
    (h : List.Forall₂ r as bs) :
  ∀ b ∈ bs, ∃ a ∈ as, r a b
  := by
  induction h with
  | nil => exact forall_mem_nil _
  | @cons a b as bs hab h ih =>
    refine forall_mem_cons.mpr ⟨⟨a, mem_cons_self, hab⟩, ?_⟩
    intro b' hb'
    obtain ⟨a', ha', hab'⟩ := ih b' hb'
    exact ⟨a', .tail _ ha', hab'⟩

theorem nodup_canonicalPath (h : List.Forall₂ (Names env l) tokens nodes) :
  (nodes.eraseDups.map Node.canonicalPath).Nodup
  := by
  apply List.Nodup.map_on _ (nodup_eraseDups nodes)
  intro node hnode node' hnode' heq
  obtain ⟨token, -, hnames⟩ := exists_related h node (mem_eraseDups.mp hnode)
  obtain ⟨token', -, hnames'⟩ := exists_related h node' (mem_eraseDups.mp hnode')
  exact (node_eq_iff hnames.node hnames'.node).mpr heq

/-- **The outputs of a command are distinct.**  The outputs of the command of a build statement
are the nodes that its tokens stand for, in the order in which they are first mentioned, and no
two of them have the same path.  The explicit outputs are the nodes of the explicit tokens, and
the implicit outputs are the other nodes. -/
theorem outputs_of_run {depth n : ℕ} {startTok : Token} {specifier : BuildSpecifier}
    {bindings : List Binding} (hrun : (start env mainFilename).run env depth n = .ok l)
    (hnext : l.next = some (.buildDecl startTok specifier bindings))
    (hstep : l.step env depth = .ok l') :
  ∃ decl explicit implicit, l'.manifest.commands = l.manifest.commands ++ [decl]
    ∧ List.Forall₂ (Names env l') specifier.outputs explicit
    ∧ List.Forall₂ (Names env l') specifier.implicitOutputs implicit
    ∧ decl.outputs = (explicit ++ implicit).eraseDups
    ∧ (decl.outputs.map Node.canonicalPath).Nodup
    ∧ ∀ node, (node ∈ decl.explicitOutputs ↔ node ∈ explicit)
      ∧ (node ∈ decl.implicitOutputs ↔ node ∈ implicit ∧ node ∉ explicit)
  := by
  rw [step_of_next hnext] at hstep
  have hkeyed : l.manifest.Keyed := keyed_of_run hrun
  obtain ⟨-, decl, hcommands, explicit, implicit, hexplicit, himplicit, houtputs, hnumber⟩ :=
    actOnBuildDecl_produces (l := l.advance) hkeyed hstep
  have hsplit : decl.outputs = explicit.eraseDups ++ (implicit.removeAll explicit).eraseDups := by
    rw [houtputs, eraseDups_append]
  refine ⟨decl, explicit, implicit, hcommands, hexplicit, himplicit, houtputs, ?_, ?_⟩
  · rw [houtputs]
    exact nodup_canonicalPath (rel_append hexplicit himplicit)
  · intro node
    rw [Command.explicitOutputs, Command.implicitOutputs, hsplit, hnumber, take_left,
      drop_left, mem_eraseDups]
    simp [removeAll]

open NodeSamples in
set_option maxRecDepth 4000 in
/-- Three of the four outputs are the same node. -/
theorem outputs_of_run_four :
  ∃ l decl explicit implicit, (start outputEnvironment []).step outputEnvironment 10 = .ok l
    ∧ l.manifest.commands = [decl]
    ∧ List.Forall₂ (Names outputEnvironment l)
      [LoadSamples.token "a", LoadSamples.token "b/../a"] explicit
    ∧ List.Forall₂ (Names outputEnvironment l)
      [LoadSamples.token "c", LoadSamples.token "/w/a"] implicit
    ∧ decl.outputs = (explicit ++ implicit).eraseDups
    ∧ (decl.outputs.map Node.canonicalPath).Nodup
    ∧ ∀ node, (node ∈ decl.explicitOutputs ↔ node ∈ explicit)
      ∧ (node ∈ decl.implicitOutputs ↔ node ∈ implicit ∧ node ∉ explicit)
  := by
  obtain ⟨l, hstep⟩ : ∃ l, (start outputEnvironment []).step outputEnvironment 10 = .ok l :=
    ⟨_, rfl⟩
  obtain ⟨decl, explicit, implicit, hdecl⟩ :=
    outputs_of_run
      (show (start outputEnvironment []).run outputEnvironment 10 0 = .ok _ from rfl) rfl hstep
  exact ⟨l, decl, explicit, implicit, hstep, hdecl⟩

/-! ### Default targets -/

/-- A declaration selects the node whose path its text is, and reports no error, or it is an
error. -/
theorem actOnDefaultDecl_iff {nameTok : Token} (hkeyed : l.manifest.Keyed)
    (hnode : l.manifest.nodes.lookup node.canonicalPath = some node) :
  (l.actOnDefaultDecl env [nameTok]).manifest.defaultTargets
        = l.manifest.defaultTargets ++ [node]
      ∧ (l.actOnDefaultDecl env [nameTok]).errors = l.errors
    ↔ env.normalizePath nameTok.text = some node.canonicalPath
  := by
  rw [actOnDefaultDecl, foldl_cons, foldl_nil]
  constructor
  · rintro ⟨htargets, -⟩
    cases hfind : l.manifest.findNode env.normalizePath nameTok.text with
    | none =>
      rw [hfind] at htargets
      exact absurd (congrArg List.length htargets.symm) (by simp [error, report])
    | some found =>
      rw [hfind] at htargets
      obtain rfl : found = node := by simpa using append_cancel_left htargets
      rw [findNode] at hfind
      obtain ⟨path, hpath, hlookup⟩ := Option.bind_eq_some_iff.mp hfind
      rw [hpath, hkeyed _ _ hlookup]
  · intro hpath
    rw [findNode, hpath, bind_some, hnode]
    exact ⟨rfl, rfl⟩

/-- **Default targets are the nodes that were built.**  Let a build statement have an output `T`.
Whatever comes between, a later declaration `default T` selects the node that is the output of the
command, and reports no error, exactly if `T` as it is written names the path that it names after
its evaluation. -/
theorem default_of_run_iff {depth m n : ℕ} {startTok nameTok : Token}
    {specifier : BuildSpecifier} {bindings : List Binding} {l₁ l₂ : Loader}
    (hrun : (start env mainFilename).run env depth m = .ok l)
    (hbuild : l.next = some (.buildDecl startTok specifier bindings))
    (hstep : l.step env depth = .ok l₁) (hrun' : l₁.run env depth n = .ok l₂)
    (hdefault : l₂.next = some (.defaultDecl [nameTok]))
    (htoken : token ∈ specifier.outputs ++ specifier.implicitOutputs)
    (htext : nameTok.text = token.text) :
  ∃ decl node l₃, l₁.manifest.commands = l.manifest.commands ++ [decl] ∧ node ∈ decl.outputs
    ∧ Names env l₁ token node ∧ l₂.step env depth = .ok l₃
    ∧ (l₃.manifest.defaultTargets = l₂.manifest.defaultTargets ++ [node]
        ∧ l₃.errors = l₂.errors
      ↔ env.normalizePath token.text
        = env.normalizePath (Output.result (evalInScopes l₁.scopes token.text)))
  := by
  rw [step_of_next hbuild] at hstep
  have hkeyed : l.manifest.Keyed := keyed_of_run hrun
  obtain ⟨hgrows, decl, hcommands, explicit, implicit, hexplicit, himplicit, houtputs, -⟩ :=
    actOnBuildDecl_produces (l := l.advance) hkeyed hstep
  have hkeyed₁ := (hgrows hkeyed).1
  obtain ⟨node, hnode, hnames⟩ := exists_related (rel_append hexplicit himplicit).flip token htoken
  obtain ⟨hkeyed₂, hkept⟩ := grows_run hrun' hkeyed₁
  refine ⟨decl, node, l₂.advance.actOnDefaultDecl env [nameTok], hcommands, ?_, hnames,
    step_of_next hdefault, ?_⟩
  · rw [houtputs]
    exact mem_eraseDups.mpr hnode
  · rw [hnames.path, ← htext]
    exact actOnDefaultDecl_iff (l := l₂.advance) hkeyed₂ (hkept _ _ hnames.node)

open NodeSamples in
set_option maxRecDepth 4000 in
/-- The target is spelled as in the build statement. -/
theorem default_of_run_spelled :
  ∃ l₁ decl node l₃, (start defaultEnvironment []).step defaultEnvironment 10 = .ok l₁
    ∧ l₁.manifest.commands = [decl] ∧ node ∈ decl.outputs
    ∧ Names defaultEnvironment l₁ (LoadSamples.token "b/../a") node
    ∧ l₁.step defaultEnvironment 10 = .ok l₃ ∧ l₃.manifest.defaultTargets = [node]
    ∧ l₃.errors = []
  := by
  obtain ⟨l₁, hstep, hnext, htargets, herrors⟩ :
      ∃ l₁, (start defaultEnvironment []).step defaultEnvironment 10 = .ok l₁
        ∧ l₁.next = some (.defaultDecl [LoadSamples.token "b/../a"])
        ∧ l₁.manifest.defaultTargets = [] ∧ l₁.errors = [] := ⟨_, rfl, rfl, rfl, rfl⟩
  have htoken : LoadSamples.token "b/../a" ∈ [LoadSamples.token "a", LoadSamples.token "b/../a"]
      ++ [LoadSamples.token "c", LoadSamples.token "/w/a"] := by decide
  obtain ⟨decl, node, l₃, hcommands, hnode, hnames, hstep', hselects⟩ :=
    default_of_run_iff (n := 0)
      (show (start defaultEnvironment []).run defaultEnvironment 10 0 = .ok _ from rfl) rfl hstep
      rfl hnext htoken rfl
  obtain ⟨htargets', herrors'⟩ := hselects.mpr (by
    rw [(evaluates_of_not_mem (by decide)).evalInScopes, Output.result_chars])
  exact ⟨l₁, decl, node, l₃, hstep, hcommands, hnode, hnames, hstep',
    htargets'.trans (by rw [htargets]; rfl), herrors'.trans herrors⟩

open NodeSamples in
/-- A target that is spelled with an escaped space, and one with a variable, are not found. -/
theorem default_unknown :
  (loadText (ascii "build a$ b: phony\ndefault a$ b\n")).map (fun l =>
      (l.manifest.defaultTargets, l.errors))
    = some ([], [⟨ascii "/w/build.ninja", ascii "unknown target name", ⟨26, ascii "a$ b"⟩⟩])
    ∧ (loadText (ascii "x = a\nbuild $x: phony\ndefault $x\n")).map (fun l =>
        (l.manifest.defaultTargets, l.errors))
      = some ([], [⟨ascii "/w/build.ninja", ascii "unknown target name", ⟨30, ascii "$x"⟩⟩])
  := by decide +kernel

end Loader

end LLBuild.Ninja.Manifest

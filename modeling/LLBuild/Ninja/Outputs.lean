import LLBuild.Ninja.AbsolutePath
import LLBuild.Ninja.Nodes

/-!
# The outputs of the commands of a load

The parser finds no build statement without an output, so every command that is loaded has one.
The outputs of a command have different paths, which are those of nodes of the manifest and
start with a separator.
-/

namespace LLBuild.Ninja

open List

open BinaryCoding Buffer Manifest

/-! ### Statements have outputs -/

/-- A build statement has an output. -/
def Manifest.Decl.HasOutputs : Decl → Prop
  | .buildDecl _ specifier _ => specifier.outputs ≠ []
  | _ => True

namespace Parser

variable {data : Bytes} {p : Parser}

theorem ends_any {β : Type} (result : Except Fault β) :
  Ends (fun _ => True) result fun _ => True
  := by
  cases result <;> exact trivial

theorem parseBuildInputs_outputs {outputs implicitOutputs : List Manifest.Token}
    (houtputs : outputs ≠ []) :
  Ends (fun _ => True) (parseBuildInputs data outputs implicitOutputs p)
    fun result => ∀ specifier, result.1 = .ok specifier → specifier.outputs ≠ []
  := by
  apply (ends_any _).bind
  rintro ⟨_, p⟩ -
  dsimp only
  split
  · rintro specifier ⟨⟩
  apply (ends_any _).bind
  rintro ⟨name, p⟩ -
  apply (ends_any _).bind
  rintro ⟨inputs, p⟩ -
  apply (ends_any _).bind
  rintro ⟨implicitInputs, p⟩ -
  apply (ends_any _).bind
  rintro ⟨orderOnlyInputs, p⟩ -
  apply (ends_any _).bind
  rintro ⟨isThere, p⟩ -
  dsimp only
  split
  · rintro specifier ⟨⟩
    exact houtputs
  · rintro specifier ⟨⟩

theorem parsePaths_ne_nil (h : p.tok.tokenKind = .string) :
  Ends (fun _ => True) (parsePaths data p) fun result => result.1 ≠ []
  := by
  rw [parsePaths, consumeStrings, if_pos h]
  apply (ends_any _).bind
  rintro ⟨string, p⟩ -
  apply (ends_any _).bind
  rintro ⟨strings, p⟩ -
  exact cons_ne_nil _ _

theorem parseBuildSpecifier_outputs :
  Ends (fun _ => True) (parseBuildSpecifier data p)
    fun result => ∀ specifier, result.1 = .ok specifier → specifier.outputs ≠ []
  := by
  apply (ends_any _).bind
  rintro ⟨_, p⟩ -
  dsimp only
  split
  · rintro specifier ⟨⟩
  next hstring =>
    apply (parsePaths_ne_nil (not_not.mp hstring)).bind
    rintro ⟨outputs, p⟩ houtputs
    apply (ends_any _).bind
    rintro ⟨implicitOutputs, p⟩ -
    split
    · rintro specifier ⟨⟩
    · exact parseBuildInputs_outputs houtputs

theorem parseParameters_hasOutputs {α : Type} {decl : α → List Binding → Decl}
    {specifier : Parsed α} (h : ∀ a bindings, specifier = .ok a → (decl a bindings).HasOutputs) :
  Ends (fun _ => True) (parseParameters data decl specifier p) fun result => result.1.HasOutputs
  := by
  cases specifier with
  | error error => exact (ends_any _).bind fun p _ => trivial
  | ok a =>
    apply (ends_any _).bind
    rintro ⟨bindings, p⟩ -
    apply h a bindings rfl

theorem toDecl_hasOutputs {α : Type} (decl : α → Decl) (h : ∀ a, (decl a).HasOutputs)
    (parsed : Parsed α) :
  (toDecl decl parsed).HasOutputs
  := by
  cases parsed with
  | error error => exact trivial
  | ok a => exact h a

/-- The build statements that the parser finds have outputs. -/
theorem parseDecl_hasOutputs :
  Ends (fun _ => True) (parseDecl data p) fun result => ∀ decl ∈ result.1, decl.HasOutputs
  := by
  have hparameterized : Ends (fun _ => True) (parseParameterizedDecl data p)
      fun result => result.1.HasOutputs := by
    rw [parseParameterizedDecl]
    split
    · apply parseBuildSpecifier_outputs.bind
      rintro ⟨specifier, p⟩ hspecifier
      exact parseParameters_hasOutputs fun a _ ha => hspecifier a ha
    · exact (ends_any _).bind fun _ _ => parseParameters_hasOutputs fun _ _ _ => trivial
    · exact (ends_any _).bind fun _ _ => parseParameters_hasOutputs fun _ _ _ => trivial
  have hdefault : Ends (fun _ => True) (parseDefaultDecl data p)
      fun result => result.1.HasOutputs := by
    refine (ends_any _).bind fun _ _ => (ends_any _).bind fun _ _ => (ends_any _).bind fun _ _ => ?_
    exact toDecl_hasOutputs Decl.defaultDecl (fun _ => trivial) _
  have hinclude : Ends (fun _ => True) (parseIncludeDecl data p)
      fun result => result.1.HasOutputs := by
    refine (ends_any _).bind fun _ _ => (ends_any _).bind fun _ _ => ?_
    exact toDecl_hasOutputs (Decl.includeDecl _) (fun _ => trivial) _
  have hbinding : Ends (fun _ => True) (parseBindingDecl data p)
      fun result => result.1.HasOutputs := by
    refine (ends_any _).bind fun _ _ => ?_
    exact toDecl_hasOutputs
      (fun binding : Manifest.Token × Manifest.Token => .bindingDecl binding.1 binding.2)
      (fun _ => trivial) _
  have hsome {result : Except Fault (Decl × Parser)}
      (h : Ends (fun _ => True) result fun result => result.1.HasOutputs) :
      Ends (fun _ => True) (result >>= fun next => pure (some next.1, next.2))
        fun result => ∀ decl ∈ result.1, decl.HasOutputs :=
    h.bind fun _ hdecl _ hmem => Option.some.inj hmem ▸ hdecl
  rw [parseDecl]
  split
  · apply (ends_any _).bind
    rintro p - decl ⟨⟩
  · exact hsome hparameterized
  · exact hsome hparameterized
  · exact hsome hparameterized
  · exact hsome hdefault
  · exact hsome hinclude
  · exact hsome hinclude
  · exact hsome hbinding
  · have herror : Ends (fun _ => True) (failLine (α := Decl) data "unexpected token" p)
        fun result => ∃ error, result.1 = .error error :=
      (ends_any _).bind fun _ _ => ⟨_, rfl⟩
    refine herror.bind ?_
    rintro ⟨_, p⟩ ⟨error, rfl⟩ decl ⟨⟩
    exact trivial

theorem hasOutputs_of_parse {decls : List Decl} (h : parse data = .ok decls) :
  ∀ decl ∈ decls, decl.HasOutputs
  := by
  have hdecls (steps : ℕ) (p : Parser) : Ends (fun _ => True) (parseDecls data steps p)
      fun decls => ∀ decl ∈ decls, decl.HasOutputs := by
    induction steps generalizing p with
    | zero => exact trivial
    | succ steps ih =>
      rw [parseDecls]
      split
      · exact forall_mem_nil _
      · apply parseDecl_hasOutputs.bind
        rintro ⟨decl, p⟩ hdecl
        refine (ih p).bind fun decls hdecls => ?_
        refine forall_mem_append.mpr ⟨?_, hdecls⟩
        exact fun decl' h => hdecl decl' (Option.mem_toList.mp h)
  exact ((ends_any _).bind fun p _ => hdecls _ p).of_eq h

end Parser

namespace Manifest.Loader

variable {env : Environment} {l l' : Loader}

/-! ### The commands of a load -/

/-- The files that are open after a declaration. -/
theorem act_includeStack {depth : ℕ} {decl : Decl} (h : l.act env depth decl = .ok l') :
  l'.includeStack = l.includeStack
    ∨ ∃ path file isSubninja, env.readFile path = some file
      ∧ l'.includeStack = l.enter file isSubninja
  := by
  by_cases hdecl : ∃ startTok specifier bindings, decl = .buildDecl startTok specifier bindings
  · obtain ⟨startTok, specifier, bindings, rfl⟩ := hdecl
    obtain ⟨-, -, -, -, -, hstack, -⟩ := actOnBuildDecl_inv h
    exact .inl hstack
  · push Not at hdecl
    obtain ⟨l₁, hact, hacts⟩ := acts_of_not_build depth hdecl
    obtain rfl := Except.ok.inj (hact.symm.trans h)
    obtain ⟨hnone, -⟩ | ⟨-, hsame⟩ | ⟨_, _, path, file, -, -, hfile, isSubninja, henter⟩ :=
      hacts.includeStack_cases
    · cases hnone
    · exact .inl hsame
    · exact .inr ⟨path, file, isSubninja, hfile, henter⟩

/-- A command has outputs, which have different paths and are nodes of the manifest. -/
structure IsListed (manifest : Manifest) (command : Manifest.Command) : Prop where
  ne_nil : command.outputs ≠ []
  nodup : (command.outputs.map Manifest.Node.canonicalPath).Nodup
  lookup : ∀ node ∈ command.outputs, manifest.nodes.lookup node.canonicalPath = some node
  head : ∀ node ∈ command.outputs, node.canonicalPath.head? = some Path.slash

/-- What holds in every state of a load of texts. -/
structure Lists (l : Loader) : Prop where
  keyed : l.manifest.Keyed
  decls : ∀ entry ∈ l.includeStack, ∀ decl ∈ entry.decls, decl.HasOutputs
  commands : ∀ command ∈ l.manifest.commands, IsListed l.manifest command

namespace Lists

variable {workingDirectory : Bytes} {texts : Bytes → Option Bytes}

theorem hasOutputs_of_readFile {path : Bytes} {file : File}
    (h : (Environment.ofTexts workingDirectory texts).readFile path = some file) :
  ∀ decl ∈ file.decls, decl.HasOutputs
  := by
  obtain ⟨text, -, hparse⟩ := Environment.exists_of_readFile h
  exact Parser.hasOutputs_of_parse hparse

theorem advance (h : l.Lists) :
  l.advance.Lists
  := by
  refine ⟨h.keyed, ?_, h.commands⟩
  have hdecls := h.decls
  rw [Loader.advance]
  cases hstack : l.includeStack with
  | nil => exact forall_mem_nil _
  | cons entry stack =>
    rw [hstack] at hdecls
    obtain ⟨hentry, hdecls⟩ := forall_mem_cons.mp hdecls
    refine forall_mem_cons.mpr ⟨?_, hdecls⟩
    exact fun decl hdecl => hentry decl (mem_of_mem_tail hdecl)

theorem exitCurrentFile (h : l.Lists) :
  l.exitCurrentFile.Lists
  := by
  have hstack : l.exitCurrentFile.includeStack = l.includeStack.tail := by
    rw [Loader.exitCurrentFile]
    split
    next hnil => rw [hnil, tail_nil]
    next entry stack hcons =>
      rw [hcons]
      dsimp only
      split_ifs
      · split <;> rfl
      · rfl
  refine ⟨?_, ?_, ?_⟩
  · rw [exitCurrentFile_manifest]
    exact h.keyed
  · rw [hstack]
    exact fun entry hentry => h.decls entry (mem_of_mem_tail hentry)
  · rw [exitCurrentFile_manifest]
    exact h.commands

/-- The command of a build statement is listed. -/
theorem isListed_of_produces {specifier : BuildSpecifier} {command : Manifest.Command}
    (houtputs : specifier.outputs ≠ [])
    (h : Produces (.ofTexts workingDirectory texts) l specifier command) :
  IsListed l.manifest command
  := by
  obtain ⟨explicit, implicit, hexplicit, himplicit, heq, -⟩ := h
  have hforall := rel_append hexplicit himplicit
  have hnames : ∀ node ∈ command.outputs, ∃ token,
      Names (.ofTexts workingDirectory texts) l token node := by
    intro node hnode
    rw [heq, mem_eraseDups] at hnode
    obtain ⟨token, -, hnames⟩ := exists_related hforall node hnode
    exact ⟨token, hnames⟩
  refine ⟨?_, ?_, ?_, ?_⟩
  · obtain ⟨token, htoken⟩ := exists_mem_of_ne_nil _ houtputs
    obtain ⟨node, hnode, -⟩ := exists_related hexplicit.flip token htoken
    rw [heq]
    exact ne_nil_of_mem (mem_eraseDups.mpr (mem_append_left implicit hnode))
  · rw [heq]
    exact nodup_canonicalPath hforall
  · intro node hnode
    obtain ⟨token, hnames⟩ := hnames node hnode
    exact hnames.node
  · intro node hnode
    obtain ⟨token, hnames⟩ := hnames node hnode
    exact Path.head?_of_normalForm hnames.path

theorem act {depth : ℕ} {decl : Decl} (h : l.Lists) (hdecl : decl.HasOutputs)
    (hact : l.act (.ofTexts workingDirectory texts) depth decl = .ok l') :
  l'.Lists
  := by
  obtain ⟨hkeyed, hnodes⟩ := grows_act hact h.keyed
  have hold : ∀ command ∈ l.manifest.commands, IsListed l'.manifest command := by
    intro command hcommand
    obtain ⟨hne, hnodup, hlookup, hhead⟩ := h.commands command hcommand
    exact ⟨hne, hnodup, fun node hnode => hnodes _ _ (hlookup node hnode), hhead⟩
  refine ⟨hkeyed, ?_, ?_⟩
  · obtain hsame | ⟨path, file, isSubninja, hfile, henter⟩ := act_includeStack hact
    · rw [hsame]
      exact h.decls
    · rw [henter]
      exact forall_mem_cons.mpr ⟨hasOutputs_of_readFile hfile, h.decls⟩
  · by_cases hbuild : ∃ startTok specifier bindings, decl = .buildDecl startTok specifier bindings
    · obtain ⟨startTok, specifier, bindings, rfl⟩ := hbuild
      obtain ⟨-, command, hcommands, hproduces⟩ := actOnBuildDecl_produces h.keyed hact
      rw [hcommands]
      refine forall_mem_append.mpr ⟨hold, forall_mem_singleton.mpr ?_⟩
      exact isListed_of_produces hdecl hproduces
    · push Not at hbuild
      rw [(act_keeps hact hbuild).2]
      exact hold

theorem step {depth : ℕ} (h : l.Lists)
    (hstep : l.step (.ofTexts workingDirectory texts) depth = .ok l') :
  l'.Lists
  := by
  obtain ⟨-, rfl⟩ | ⟨-, -, rfl⟩ | ⟨decl, hnext, hact⟩ := step_inv hstep
  · exact h
  · exact h.exitCurrentFile
  · obtain ⟨entry, hentry, hdecl⟩ := Option.bind_eq_some_iff.mp hnext
    have houtputs := h.decls entry (mem_of_head? hentry) decl (mem_of_head? hdecl)
    exact h.advance.act houtputs hact

/-- The commands are listed in every state of a load of texts. -/
theorem of_run {mainFilename : Bytes} {depth n : ℕ}
    (hrun : (start (.ofTexts workingDirectory texts) mainFilename).run
      (.ofTexts workingDirectory texts) depth n = .ok l) :
  l.Lists
  := by
  refine run_induction (p := Lists) step ⟨?_, ?_, ?_⟩ hrun
  · rw [start, enterFile_manifest]
    exact keyed_empty
  · rw [start, enterFile]
    split
    · exact forall_mem_nil _
    next file hfile => exact forall_mem_singleton.mpr (hasOutputs_of_readFile hfile)
  · rw [start, enterFile_manifest]
    exact forall_mem_nil _

end Lists

end Manifest.Loader

end LLBuild.Ninja

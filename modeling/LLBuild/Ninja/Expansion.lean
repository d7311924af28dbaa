import LLBuild.Ninja.ManifestLoader

/-!
# What the variables of a manifest stand for

`FileText` says what a string stands for in nested scopes, and `Edge.Value` what a variable
stands for in a build statement: the paths of the explicit inputs or outputs, the binding of
the statement, the parameter of the rule, with the references in it replaced in the
same way, or the binding of the innermost scope.  The recursion of the loader computes just
that, provided the parameters of a rule do not refer to each other in a circle.
-/

namespace LLBuild.Ninja.Manifest

open Loader

open List

open Output

open BinaryCoding Template.Piece

/-! ### Strings in nested scopes -/

variable (scopes : List (Bytes → Option Bytes))

/-- The binding of the innermost scope that has one. -/
def innermost (name : Bytes) : Option Bytes :=
  scopes.findSome? (· name)

/-- What a piece of a string stands for; an error stands for nothing. -/
def meaning : StringPiece → Template.Piece Bytes UInt8
  | .text text => .emit text
  | .reference name => .reference name
  | .error _ => .emit []

/-- A string stands for a text if each reference is replaced by the binding of the
innermost scope, if there is one, and by nothing otherwise. -/
def FileText (string text : Bytes) : Prop :=
  ∃ ps, Reads string ps
    ∧ Template.Expands
      (fun name definition => definition = [.emit ((innermost scopes name).getD [])])
      (ps.map meaning) text

/-! ### The variables of a build statement -/

/-- What the variables of a build statement depend on. -/
structure Edge where
  /-- The screen paths of the explicit inputs. -/
  inputs : List Bytes
  /-- The screen paths of the explicit outputs. -/
  outputs : List Bytes
  bindings : Bytes → Option Bytes
  /-- The parameters of the rule, which are not expanded. -/
  rule : Bytes → Option Bytes
  /-- The bindings of the enclosing scopes, the innermost one first. -/
  scopes : List (Bytes → Option Bytes)

namespace Edge

/-- The variables that are not looked up. -/
def builtins : List Bytes := [ascii "in", ascii "in_newline", ascii "out"]

/-- What a reference to a variable is replaced by. -/
inductive Defines (edge : Edge) (escape : Bool) :
    Bytes → List (Template.Piece Bytes UInt8) → Prop
  | input {name : Bytes} (hname : name = ascii "in") :
      Defines edge escape name [.emit (joinPaths ' ' escape edge.inputs)]
  | inputNewline {name : Bytes} (hname : name = ascii "in_newline") :
      Defines edge escape name [.emit (joinPaths '\n' escape edge.inputs)]
  | output {name : Bytes} (hname : name = ascii "out") :
      Defines edge escape name [.emit (joinPaths ' ' escape edge.outputs)]
  | binding {name value : Bytes} (hname : name ∉ builtins)
      (hbinding : edge.bindings name = some value) :
      Defines edge escape name [.emit value]
  | parameter {name value : Bytes} {ps : List StringPiece} (hname : name ∉ builtins)
      (hbinding : edge.bindings name = none) (hrule : edge.rule name = some value)
      (hread : Reads value ps) :
      Defines edge escape name (ps.map meaning)
  | scope {name value : Bytes} (hname : name ∉ builtins) (hbinding : edge.bindings name = none)
      (hrule : edge.rule name = none) (hscope : innermost edge.scopes name = some value) :
      Defines edge escape name [.emit value]
  | unbound {name : Bytes} (hname : name ∉ builtins) (hbinding : edge.bindings name = none)
      (hrule : edge.rule name = none) (hscope : innermost edge.scopes name = none) :
      Defines edge escape name [.emit []]

/-- A variable of a build statement has a text as its value. Paths are escaped for the shell
if it is the variable `command` that is evaluated. -/
def Value (edge : Edge) (name text : Bytes) : Prop :=
  Template.Expands (edge.Defines (name = ascii "command")) [.reference name] text

theorem Defines.unique {edge : Edge} {escape : Bool} {name : Bytes}
    {definition definition' : List (Template.Piece Bytes UInt8)}
    (h : edge.Defines escape name definition) (h' : edge.Defines escape name definition') :
  definition = definition'
  := by
  -- the variables that are not looked up are told apart by their names
  have hin : ascii "in" ∈ builtins := by decide
  have hnewline : ascii "in_newline" ∈ builtins := by decide
  have hout : ascii "out" ∈ builtins := by decide
  have hin_newline : ascii "in" ≠ ascii "in_newline" := by decide
  have hin_out : ascii "in" ≠ ascii "out" := by decide
  have hnewline_out : ascii "in_newline" ≠ ascii "out" := by decide
  cases h <;> cases h' <;> simp_all [reads_iff]

theorem Value.unique {edge : Edge} {name text text' : Bytes} (h : edge.Value name text)
    (h' : edge.Value name text') :
  text = text'
  := by
  refine Template.Expands.unique ?_ h h'
  intro x definition definition' hx hx'
  exact hx.unique hx'

end Edge

/-! ### Rules without circles -/

namespace Rule

/-- The parameter `x` of the rule refers to its parameter `y`. -/
def Refers (rule : Rule) (x y : Bytes) : Prop :=
  ∃ value ps, rule.parameters.lookup x = some value ∧ Reads value ps ∧ .reference y ∈ ps
    ∧ y ∈ rule.parameters

/-- No parameter of the rule refers to itself, directly or through others. -/
def IsAcyclic (rule : Rule) : Prop := ∀ x, ¬ Relation.TransGen rule.Refers x x

/-- A rule has no circles if its parameters can be ranked. -/
theorem isAcyclic_of_rank {rule : Rule} (rank : Bytes → ℕ)
    (h : ∀ x ∈ rule.parameters.keys, ∀ y ∈ rule.parameters.keys,
      .reference y ∈ pieces ((rule.parameters.lookup x).getD []) → rank y < rank x) :
  rule.IsAcyclic
  := by
  have hrefers : rule.Refers ≤ fun x y => rank y < rank x := by
    rintro x y ⟨value, ps, hvalue, hread, hy, hmem⟩
    rw [reads_iff] at hread
    subst hread
    refine h x ?_ y (AList.mem_keys.mp hmem) ?_
    · exact AList.mem_keys.mp (AList.lookup_isSome.mp (Option.isSome_of_mem hvalue))
    · rw [hvalue]
      exact hy
  intro x hx
  exact lt_irrefl (rank x) (Relation.transGen_minimal hrefers x x hx)

end Rule

/-! ### The evaluation of strings -/

/-- The bindings of a scope. -/
def Scope.bindings (scope : Scope) (name : Bytes) : Option Bytes := scope.entries.lookup name

theorem innermost_getD (scopes : List Scope) (name : Bytes) :
  (innermost (scopes.map Scope.bindings) name).getD [] = lookupBinding scopes name
  := by
  induction scopes with
  | nil => rfl
  | cons scope parents ih =>
    rw [lookupBinding, map_cons, innermost, findSome?_cons, Scope.bindings]
    cases scope.entries.lookup name with
    | none => exact ih
    | some value => rfl

@[simp]
theorem Output.result_chars (text : Bytes) :
  result (chars text) = text
  := by
  induction text with
  | nil => rfl
  | cons c text ih => exact congrArg (c :: ·) ih

variable (error : Bytes → Bytes)

theorem bind_toPiece (piece : StringPiece) :
  (toPiece error piece).bind text = meaning piece
  := by
  cases piece with
  | text text => exact congrArg emit (result_chars text)
  | reference | error => rfl

theorem map_bind_template (string : Bytes) :
  (template error string).map (bind text) = (pieces string).map meaning
  := by
  rw [template, map_map]
  exact map_congr_left (fun piece _ => bind_toPiece error piece)

/-- The value of a string is what it stands for in the scopes. -/
theorem fileText_evalInScopes (scopes : List Scope) (string : Bytes) :
  FileText (scopes.map Scope.bindings) string
    (result (evalInScopes scopes string))
  := by
  refine ⟨pieces string, reads_pieces string, ?_⟩
  have hexpands : Template.Expands
      (fun name definition => definition = [.emit (chars (lookupBinding scopes name))])
      (template id string) (evalInScopes scopes string) := by
    apply Template.expands_render
    exact fun name => ⟨_, rfl, Template.expands_emit _⟩
  rw [← map_bind_template id]
  apply hexpands.bind text
  rintro name _ rfl
  rw [innermost_getD]
  exact congrArg ([emit ·]) (result_chars _)

/-! ### The recursion of the lookup -/

namespace Command

/-- The edge of a build statement in the scopes. -/
def edge (scopes : List Scope) (decl : Command) : Edge where
  inputs := decl.explicitInputs.map NodeInCommand.getScreenPath
  outputs := decl.explicitOutputs.map Node.screenPath
  bindings name := decl.parameters.lookup name
  rule name := decl.rule.parameters.lookup name
  scopes := scopes.map Scope.bindings

/-- What the lookup finds for a variable, before references are looked up. -/
def definition (scopes : List Scope) (decl : Command) (escape : Bool) (name : Bytes) :
    List (Template.Piece Bytes Output) :=
  if name = ascii "in" ∨ name = ascii "in_newline" then
    let separator := if name = ascii "in" then ' ' else '\n'
    [.emit (chars (joinPaths separator escape
      (decl.explicitInputs.map NodeInCommand.getScreenPath)))]
  else if name = ascii "out" then
    [.emit (chars (joinPaths ' ' escape
      (decl.explicitOutputs.map Node.screenPath)))]
  else
    match decl.parameters.lookup name with
    | some value => [.emit (chars value)]
    | none =>
        match decl.rule.parameters.lookup name with
        | some value =>
            template
              (fun message => message ++ ascii " during evaluation of '" ++ name ++ ascii "'") value
        | none => [.emit (chars (lookupBinding scopes name))]

variable (scopes : List Scope) (decl : Command) (escape : Bool)

/-- The mutual recursion of the lookup and the evaluation expands what the lookup finds. -/
theorem lookupBuildParameter_eq_expand (depth : ℕ) (name : Bytes) :
  lookupBuildParameter scopes decl escape depth name
    = Template.expand (decl.definition scopes escape) depth name
  := by
  induction depth generalizing name with
  | zero => rfl
  | succ depth ih =>
    have ih : lookupBuildParameter scopes decl escape depth
        = Template.expand (decl.definition scopes escape) depth := funext ih
    rw [lookupBuildParameter, Template.expand, definition, ih]
    split
    · exact (Template.substitute_emit _ _).symm
    split
    · exact (Template.substitute_emit _ _).symm
    · cases decl.parameters.lookup name with
      | some value => exact (Template.substitute_emit _ _).symm
      | none =>
        cases decl.rule.parameters.lookup name with
        | some value => rfl
        | none => exact (Template.substitute_emit _ _).symm

/-- What the lookup finds is what a reference is replaced by. -/
theorem defines_definition (name : Bytes) :
  (decl.edge scopes).Defines escape name
    ((decl.definition scopes escape name).map (bind Output.text))
  := by
  have hemit (text : Bytes) : [emit (Output.chars text)].map
      (bind (ν := Bytes) Output.text) = [.emit text] :=
    congrArg ([emit ·]) (Output.result_chars text)
  rw [definition]
  split_ifs with hin hsep hout
  · rw [hemit]
    exact .input hsep
  · rw [hemit]
    exact .inputNewline (hin.resolve_left hsep)
  · rw [hemit]
    exact .output hout
  · have hname : name ∉ Edge.builtins := by
      simp only [Edge.builtins, mem_cons]
      tauto
    cases hbinding : decl.parameters.lookup name with
    | some value =>
      rw [hemit]
      exact .binding hname hbinding
    | none =>
      cases hrule : decl.rule.parameters.lookup name with
      | some value =>
        rw [map_bind_template]
        exact .parameter hname hbinding hrule (reads_pieces value)
      | none =>
        rw [hemit, ← innermost_getD]
        cases hscope : innermost (scopes.map Scope.bindings) name with
        | some value => exact .scope hname hbinding hrule hscope
        | none => exact .unbound hname hbinding hrule hscope

variable {scopes decl escape} {y x : Bytes}

section

variable (h : Template.Refers (decl.definition scopes escape) x y)
include h

/-- Only parameters of the rule refer to other variables. -/
theorem exists_of_refers :
  ∃ value, decl.rule.parameters.lookup x = some value ∧ .reference y ∈ pieces value
  := by
  rw [Template.Refers, definition] at h
  split_ifs at h
  · cases mem_singleton.mp h
  · cases mem_singleton.mp h
  · cases mem_singleton.mp h
  · cases hbinding : decl.parameters.lookup x with
    | some value =>
      rw [hbinding] at h
      cases mem_singleton.mp h
    | none =>
      rw [hbinding] at h
      cases hrule : decl.rule.parameters.lookup x with
      | none =>
        rw [hrule] at h
        cases mem_singleton.mp h
      | some value =>
        rw [hrule] at h
        obtain ⟨piece, hpiece, heq⟩ := mem_map.mp h
        cases piece with
        | reference name =>
          obtain rfl := reference.inj heq
          exact ⟨value, rfl, hpiece⟩
        | text text => cases heq
        | error message => cases heq

theorem mem_of_refers :
  x ∈ decl.rule.parameters
  := by
  obtain ⟨value, hvalue, -⟩ := exists_of_refers h
  exact AList.lookup_isSome.mp (Option.isSome_of_mem hvalue)

end

theorem refers_of_leads (h : Template.Leads (decl.definition scopes escape) x y) :
  decl.rule.Refers x y
  := by
  obtain ⟨hxy, z, hyz⟩ := h
  obtain ⟨value, hvalue, hreference⟩ := exists_of_refers hxy
  exact ⟨value, pieces value, hvalue, reads_pieces value, hreference, mem_of_refers hyz⟩

/-- If the parameters of the rule do not refer to each other in a circle and the stack has
room for one recursion for each name of a parameter, the evaluation of a variable yields
its value. -/
theorem exists_value (scopes : List Scope) {decl : Command} (hacyclic : decl.rule.IsAcyclic)
    {depth : ℕ} (hdepth : Rule.parameterNames.length < depth) (name : Bytes) :
  ∃ output, lookupBuildParameter scopes decl (name = ascii "command") depth name
      = some output
    ∧ ∀ text, (decl.edge scopes).Value name text ↔ text = result output
  := by
  have hnames : ∀ x y, Template.Refers (decl.definition scopes (name = ascii "command")) x y →
      x ∈ Rule.parameterNames.toFinset := by
    intro x y hxy
    have hvalid := decl.rule.valid x (mem_of_refers hxy)
    exact mem_toFinset.mpr (contains_iff_mem.mp hvalid)
  have hleads : Template.Leads (decl.definition scopes (name = ascii "command"))
      ≤ decl.rule.Refers := fun _ _ => refers_of_leads
  have hcircle x := fun hx => hacyclic x (Relation.TransGen.mono hleads x x hx)
  obtain ⟨output, houtput⟩ := Template.exists_expand hnames hcircle
    ((toFinset_card_le _).trans_lt hdepth) name
  refine ⟨output, (lookupBuildParameter_eq_expand scopes decl _ depth name).trans houtput, ?_⟩
  have hexpands := Template.expands_of_expand (fun _ => rfl) houtput
  have hvalue := hexpands.bind text (fun x _ hx => hx ▸ defines_definition scopes decl _ x)
  have hread : (decl.edge scopes).Value name (result output) := by
    rw [← append_nil (result output)]
    exact .reference name (defines_definition scopes decl _ name) hvalue .nil
  intro text
  constructor
  · intro htext
    exact htext.unique hread
  · rintro rfl
    exact hread

end Command

end LLBuild.Ninja.Manifest

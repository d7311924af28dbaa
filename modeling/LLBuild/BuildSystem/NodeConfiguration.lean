import LLBuild.BuildSystem.ShellCommand

/-!
# The attributes of nodes

The type of a node is set by the attribute `type`, or by one of the older attributes
`is-directory`, `is-directory-structure` and `is-virtual`, which say the same with a truth value.
The two spellings do the same for directory structures and for virtual nodes.  They do not for
directories: `type: directory` sets the type of a plain node.

Two configurations that spell the type of a directory differently are compared through `Near`:
the nodes agree up to one being plain and the other one a directory.  An attribute that sets the
type of both brings them together again.
-/

namespace LLBuild.BuildSystem

open BinaryCoding

/-- A node with all that is configured of it. -/
structure ConfiguredNode extends BuildNode where
  /-- What is left out of the listings of a directory. -/
  exclusionPatterns : StringList := {}
  /-- The nodes that come before the scan of a directory. -/
  mustScanAfterPaths : List Bytes := []
  deriving DecidableEq

/-- An attribute of a node, with a single value, a list of values or a list of pairs. -/
inductive NodeAttribute
  | scalar (name value : Bytes)
  | list (name : Bytes) (values : CStrings)
  | pairs (name : Bytes) (values : Bindings)

namespace ConfiguredNode

open ShellCommand (invalidValue unexpectedAttribute)

variable (node : ConfiguredNode) (name value : Bytes)

/-- The type by its name. -/
def configureType : Except Bytes ConfiguredNode :=
  if value = ascii "plain" then .ok { node with type := .plain }
  else if value = ascii "directory" then .ok { node with type := .plain }
  else if value = ascii "directory-structure" then .ok { node with type := .directoryStructure }
  else if value = ascii "virtual" then .ok { node with type := .virtual }
  else .error (invalidValue name value)

/-- An attribute that is a truth value, with what becomes of the node in both cases. -/
def configureFlag (onTrue onFalse : ConfiguredNode) :
    Except Bytes ConfiguredNode :=
  if value = ascii "true" then .ok onTrue
  else if value = ascii "false" then .ok onFalse
  else .error (invalidValue name value)

/-- A node that is not of the type any more. -/
def clearType (type : NodeType) : ConfiguredNode :=
  if node.type = type then { node with type := .plain } else node

/-- Configure an attribute with a single value. -/
def configureScalar :
    Except Bytes ConfiguredNode :=
  if name = ascii "type" then node.configureType name value
  else if name = ascii "is-directory" then
    configureFlag name value { node with type := .directory } (node.clearType .directory)
  else if name = ascii "is-directory-structure" then
    configureFlag name value { node with type := .directoryStructure }
      (node.clearType .directoryStructure)
  else if name = ascii "is-virtual" then
    configureFlag name value { node with type := .virtual }
      { node.clearType .virtual with commandTimestamp := false }
  else if name = ascii "is-command-timestamp" then
    configureFlag name value { node with commandTimestamp := true, type := .virtual }
      { node with commandTimestamp := false }
  else if name = ascii "is-mutated" then
    configureFlag name value { node with mutated := true } { node with mutated := false }
  else if name = ascii "content-exclusion-patterns" then
    .ok { node with exclusionPatterns := .ofString value }
  else .error (unexpectedAttribute name)

/-- Configure an attribute with a list of values.  The code keeps references to the strings of a
list that does not outlive the assignment to `mustScanAfterPaths`. -/
def configureList (name : Bytes) (values : CStrings) :
    Except Bytes ConfiguredNode :=
  if name = ascii "content-exclusion-patterns" then
    .ok { node with exclusionPatterns := .ofValues values }
  else if name = ascii "must-scan-after-paths" then
    .ok { node with mustScanAfterPaths := (StringList.ofValues values).getValues }
  else .error (unexpectedAttribute name)

/-- Configure an attribute. -/
def configureAttribute : NodeAttribute → Except Bytes ConfiguredNode
  | .scalar name value => node.configureScalar name value
  | .list name values => node.configureList name values
  | .pairs name _ => .error (unexpectedAttribute name)

/-- Configure attributes one after another; the first error ends the configuration. -/
def configureAttributes : List NodeAttribute → ConfiguredNode → Except Bytes ConfiguredNode
  | [], node => .ok node
  | attr :: attrs, node =>
      match node.configureAttribute attr with
      | .error message => .error message
      | .ok node => configureAttributes attrs node

end ConfiguredNode

namespace NodeAttribute

/-! ### Two spellings -/

/-- The spellings of the type of a directory. -/
def typeDirectory : NodeAttribute := .scalar (ascii "type") (ascii "directory")

def isDirectory : NodeAttribute := .scalar (ascii "is-directory") (ascii "true")

/-- One attribute is the other, or an older spelling of it. -/
inductive Respells : NodeAttribute → NodeAttribute → Prop
  | same (attr : NodeAttribute) : Respells attr attr
  | directory : Respells typeDirectory isDirectory
  | directoryStructure : Respells (.scalar (ascii "type") (ascii "directory-structure"))
      (.scalar (ascii "is-directory-structure") (ascii "true"))
  | virtual : Respells (.scalar (ascii "type") (ascii "virtual"))
      (.scalar (ascii "is-virtual") (ascii "true"))

/-- After the attribute it does not matter whether the node was plain or a directory. -/
def setsType : NodeAttribute → Bool
  | .scalar name value =>
      name = ascii "type" || name = ascii "is-directory"
        || ((name = ascii "is-directory-structure" || name = ascii "is-virtual"
          || name = ascii "is-command-timestamp") && value = ascii "true")
  | _ => false

/-- A node rejects the attribute, and so does any other. -/
def isRejected (attr : NodeAttribute) : Bool :=
  !(({ name := [] } : ConfiguredNode).configureAttribute attr).isOk

/-- Where the type of a directory is respelled, a later attribute sets the type. -/
def Settled : List NodeAttribute → List NodeAttribute → Prop
  | a :: as, b :: bs =>
      (a = typeDirectory → b = isDirectory → ∃ later ∈ as, later.setsType = true) ∧ Settled as bs
  | _, _ => True

end NodeAttribute

namespace ConfiguredNode

open NodeAttribute

/-- The nodes are the same, or one is plain and the other one a directory. -/
def Near (node other : ConfiguredNode) : Prop :=
  node = other ∨ node.type = .plain ∧ other = { node with type := .directory }

/-- What becomes of a plain node and of a directory: the same, or they stay a plain node and a
directory after an attribute that does not set the type. -/
def StaysNear (sets : Bool) (result other : Except Bytes ConfiguredNode) : Prop :=
  result = other
    ∨ sets = false ∧ ∃ next : ConfiguredNode, next.type = .plain ∧ result = .ok next
      ∧ other = .ok { next with type := .directory }

theorem configureFlag_staysNear
    {sets : Bool} {name value : Bytes} {onTrue onTrue' onFalse onFalse' : ConfiguredNode}
    (htrue : value = ascii "true" → StaysNear sets (.ok onTrue) (.ok onTrue'))
    (hfalse : value = ascii "false" → StaysNear sets (.ok onFalse) (.ok onFalse')) :
  StaysNear sets (configureFlag name value onTrue onFalse)
    (configureFlag name value onTrue' onFalse')
  := by
  rw [configureFlag, configureFlag]
  split_ifs with hvalue hvalue'
  · apply htrue hvalue
  · apply hfalse hvalue'
  · exact .inl rfl

variable {node : ConfiguredNode}

section

variable (hplain : node.type = .plain)
include hplain

/-- An attribute that sets the type does the same to a plain node and to a directory; any other
one keeps them plain and a directory, or is rejected for both. -/
theorem configureScalar_plain (name value : Bytes) :
  StaysNear (NodeAttribute.scalar name value).setsType (node.configureScalar name value)
    ({ node with type := .directory }.configureScalar name value)
  := by
  obtain ⟨⟨nodeName, type, commandTimestamp, mutated⟩, exclusionPatterns, paths⟩ := node
  obtain rfl : type = .plain := hplain
  have hsets (htype : name ≠ ascii "type") (hdirectory : name ≠ ascii "is-directory")
      (hstructure : name ≠ ascii "is-directory-structure") (hvirtual : name ≠ ascii "is-virtual")
      (htimestamp : name ≠ ascii "is-command-timestamp") :
      (NodeAttribute.scalar name value).setsType = false := by
    simp [setsType, htype, hdirectory, hstructure, hvirtual, htimestamp]
  rw [configureScalar, configureScalar]
  split_ifs with htype hdirectory hstructure hvirtual htimestamp hmutated
  · exact .inl rfl
  · -- A directory that is none any more is a plain node.
    apply configureFlag_staysNear
    · exact fun _ => .inl rfl
    · exact fun _ => .inl rfl
  · apply configureFlag_staysNear
    · exact fun _ => .inl rfl
    · intro hvalue
      exact .inr ⟨by rw [hstructure, hvalue]; decide, _, rfl, rfl, rfl⟩
  · apply configureFlag_staysNear
    · exact fun _ => .inl rfl
    · intro hvalue
      exact .inr ⟨by rw [hvirtual, hvalue]; decide, _, rfl, rfl, rfl⟩
  · apply configureFlag_staysNear
    · exact fun _ => .inl rfl
    · intro hvalue
      exact .inr ⟨by rw [htimestamp, hvalue]; decide, _, rfl, rfl, rfl⟩
  · have hsets := hsets htype hdirectory hstructure hvirtual htimestamp
    apply configureFlag_staysNear
    · exact fun _ => .inr ⟨hsets, _, rfl, rfl, rfl⟩
    · exact fun _ => .inr ⟨hsets, _, rfl, rfl, rfl⟩
  · exact .inr ⟨hsets htype hdirectory hstructure hvirtual htimestamp, _, rfl, rfl, rfl⟩
  · exact .inl rfl

theorem configureList_plain (name : Bytes) (values : CStrings) :
  StaysNear false (node.configureList name values)
    ({ node with type := .directory }.configureList name values)
  := by
  rw [configureList, configureList]
  split_ifs
  · refine .inr ⟨rfl, _, ?_, rfl, rfl⟩
    apply hplain
  · refine .inr ⟨rfl, _, ?_, rfl, rfl⟩
    apply hplain
  · exact .inl rfl

theorem configureAttribute_plain (attr : NodeAttribute) :
  StaysNear attr.setsType (node.configureAttribute attr)
    ({ node with type := .directory }.configureAttribute attr)
  := by
  cases attr with
  | scalar name value => apply configureScalar_plain hplain
  | list name values => apply configureList_plain hplain
  | pairs name values => exact .inl rfl

end

section Spellings

variable (node : ConfiguredNode)

theorem configureAttribute_typeDirectory :
  node.configureAttribute typeDirectory = .ok { node with type := .plain }
  := rfl

theorem configureAttribute_isDirectory :
  node.configureAttribute isDirectory = .ok { node with type := .directory }
  := rfl

end Spellings

theorem configureAttributes_cons_congr
    {a b : NodeAttribute} {as bs : List NodeAttribute} {node other : ConfiguredNode}
    (h : node.configureAttribute a = other.configureAttribute b)
    (hrest : ∀ next, configureAttributes as next = configureAttributes bs next) :
  configureAttributes (a :: as) node = configureAttributes (b :: bs) other
  := by
  rw [configureAttributes, configureAttributes, h]
  cases other.configureAttribute b with
  | error message => rfl
  | ok next => apply hrest

theorem configureAttributes_cons_ok
    {attr : NodeAttribute} {attrs : List NodeAttribute} {node next : ConfiguredNode}
    (h : node.configureAttribute attr = .ok next) :
  configureAttributes (attr :: attrs) node = configureAttributes attrs next
  := by
  rw [configureAttributes, h]

/-- Nodes that are near come together at the latest where an attribute sets the type. -/
theorem configureAttributes_near
    {as bs : List NodeAttribute} (hrespells : List.Forall₂ Respells as bs)
    (hsettled : Settled as bs) {node other : ConfiguredNode} (hnear : Near node other)
    (hsets : node = other ∨ ∃ attr ∈ as, attr.setsType = true) :
  configureAttributes as node = configureAttributes bs other
  := by
  induction hrespells generalizing node other with
  | nil =>
    obtain rfl | ⟨attr, hattr, -⟩ := hsets
    · rfl
    · cases hattr
  | @cons a b as bs hab hrest ih =>
    obtain ⟨hlater, hsettled⟩ := hsettled
    have hequal (next : ConfiguredNode) :
        configureAttributes as next = configureAttributes bs next :=
      ih hsettled (.inl rfl) (.inl rfl)
    cases hab with
    | directory =>
      -- From here on one node is plain and the other one a directory.
      rw [configureAttributes_cons_ok (configureAttribute_typeDirectory node),
        configureAttributes_cons_ok (configureAttribute_isDirectory other)]
      refine ih hsettled (.inr ⟨rfl, ?_⟩) (.inr (hlater rfl rfl))
      obtain rfl | ⟨-, rfl⟩ := hnear <;> rfl
    | directoryStructure | virtual =>
      apply configureAttributes_cons_congr _ hequal
      obtain rfl | ⟨-, rfl⟩ := hnear <;> rfl
    | same =>
      obtain rfl | ⟨hplain, rfl⟩ := hnear
      · apply configureAttributes_cons_congr rfl hequal
      obtain hsame | ⟨hkeeps, next, hnext, hnode, hother⟩ := configureAttribute_plain hplain a
      · apply configureAttributes_cons_congr hsame hequal
      · rw [configureAttributes_cons_ok hnode, configureAttributes_cons_ok hother]
        apply ih hsettled (.inr ⟨hnext, rfl⟩)
        right
        obtain heq | ⟨attr, hattr, hattrsets⟩ := hsets
        · -- A plain node is not a directory.
          rw [heq] at hplain
          cases hplain
        · obtain rfl | hattr := List.mem_cons.mp hattr
          · rw [hkeeps] at hattrsets
            cases hattrsets
          · exact ⟨attr, hattr, hattrsets⟩

/-! ### Attributes that are rejected -/

/-- One configuration is rejected if the other one is. -/
def RejectsWith (result result' : Except Bytes ConfiguredNode) : Prop :=
  ∀ message, result = .error message → result' = .error message

namespace RejectsWith

theorem refl (result : Except Bytes ConfiguredNode) :
  RejectsWith result result
  := fun _ h => h

theorem ok (node : ConfiguredNode) (result : Except Bytes ConfiguredNode) :
  RejectsWith (.ok node) result
  := nofun

theorem ite {p : Prop} [Decidable p] {a b a' b' : Except Bytes ConfiguredNode}
    (ha : RejectsWith a a') (hb : RejectsWith b b') :
  RejectsWith (if p then a else b) (if p then a' else b')
  := by
  split_ifs
  · exact ha
  · exact hb

theorem configureFlag (name value : Bytes) (onTrue onTrue' onFalse onFalse' : ConfiguredNode) :
  RejectsWith (configureFlag name value onTrue onFalse) (configureFlag name value onTrue' onFalse')
  := ite (ok _ _) (ite (ok _ _) (refl _))

end RejectsWith

open RejectsWith in
/-- Whether an attribute is rejected does not depend on the node. -/
theorem configureAttribute_error {attr : NodeAttribute} {node : ConfiguredNode} {message : Bytes}
    (h : node.configureAttribute attr = .error message) (other : ConfiguredNode) :
  other.configureAttribute attr = .error message
  := by
  refine (?_ : RejectsWith (node.configureAttribute attr) (other.configureAttribute attr)) _ h
  cases attr with
  | scalar name value =>
    have htype : RejectsWith (node.configureType name value) (other.configureType name value) := by
      rw [configureType, configureType]
      split_ifs <;> first | exact ok _ _ | exact RejectsWith.refl _
    refine ite htype (ite ?_ (ite ?_ (ite ?_ (ite ?_ (ite ?_ (ite (ok _ _) (RejectsWith.refl _)))))))
    all_goals apply RejectsWith.configureFlag
  | list name values => exact ite (ok _ _) (ite (ok _ _) (RejectsWith.refl _))
  | pairs name values => exact RejectsWith.refl _

/-- The older spellings are accepted like the newer ones. -/
theorem isRejected_of_respells {a b : NodeAttribute} (h : Respells a b) :
  b.isRejected = a.isRejected
  := by
  cases h <;> rfl

theorem eq_of_isRejected {a b : NodeAttribute} (h : Respells a b)
    (ha : a.isRejected = true) :
  a = b
  := by
  cases h with
  | same => rfl
  | directory | directoryStructure | virtual => cases ha

theorem exists_ok_of_not_isRejected {attr : NodeAttribute} (h : attr.isRejected = false)
    (node : ConfiguredNode) :
  ∃ next, node.configureAttribute attr = .ok next
  := by
  cases hnode : node.configureAttribute attr with
  | ok next => exact ⟨next, rfl⟩
  | error message =>
    rw [isRejected, configureAttribute_error hnode] at h
    cases h

/-- Where an attribute is rejected, both spellings are, with the same error. -/
theorem configureAttributes_of_isRejected
    {as bs : List NodeAttribute} (hrespells : List.Forall₂ Respells as bs)
    (hrejected : ∃ attr ∈ as, attr.isRejected = true) (node other : ConfiguredNode) :
  configureAttributes as node = configureAttributes bs other
  := by
  induction hrespells generalizing node other with
  | nil =>
    obtain ⟨attr, hattr, -⟩ := hrejected
    cases hattr
  | @cons a b as bs hab hrest ih =>
    cases ha : a.isRejected with
    | true =>
      obtain rfl := eq_of_isRejected hab ha
      cases hnode : node.configureAttribute a with
      | ok next =>
        cases hempty : ({ name := [] } : ConfiguredNode).configureAttribute a with
        | ok _ => rw [isRejected, hempty] at ha; cases ha
        | error message => rw [configureAttribute_error hempty node] at hnode; cases hnode
      | error message =>
        rw [configureAttributes, configureAttributes, hnode, configureAttribute_error hnode]
    | false =>
      have hlater : ∃ attr ∈ as, attr.isRejected = true := by
        obtain ⟨attr, hattr, hrejects⟩ := hrejected
        obtain rfl | hattr := List.mem_cons.mp hattr
        · rw [ha] at hrejects
          cases hrejects
        · exact ⟨attr, hattr, hrejects⟩
      obtain ⟨next, hnext⟩ := exists_ok_of_not_isRejected ha node
      obtain ⟨next', hnext'⟩ :=
        exists_ok_of_not_isRejected ((isRejected_of_respells hab).trans ha) other
      rw [configureAttributes_cons_ok hnext, configureAttributes_cons_ok hnext']
      exact ih hlater next next'

theorem configureFlag_ok {name value : Bytes} {onTrue onFalse next : ConfiguredNode}
    (h : configureFlag name value onTrue onFalse = .ok next) :
  value = ascii "true" ∧ next = onTrue ∨ value = ascii "false" ∧ next = onFalse
  := by
  rw [configureFlag] at h
  split_ifs at h with htrue hfalse
  · exact .inl ⟨htrue, (Except.ok.inj h).symm⟩
  · exact .inr ⟨hfalse, (Except.ok.inj h).symm⟩

/-- An attribute that neither sets the type nor is rejected leaves plain nodes and directories
what they are. -/
theorem type_configureAttribute {attr : NodeAttribute} {node next : ConfiguredNode}
    (hsets : attr.setsType = false) (h : node.configureAttribute attr = .ok next)
    (htype : node.type = .plain ∨ node.type = .directory) :
  next.type = node.type
  := by
  have hclear (type : NodeType) (hplain : type ≠ .plain) (hdirectory : type ≠ .directory) :
      node.clearType type = node := by
    rw [clearType, if_neg]
    obtain htype | htype := htype <;> rw [htype]
    · exact hplain.symm
    · exact hdirectory.symm
  cases attr with
  | scalar name value =>
    simp only [setsType, Bool.or_eq_false_iff, Bool.and_eq_false_iff, decide_eq_false_iff_not]
      at hsets
    obtain ⟨⟨htypeName, hdirectory⟩, hflags⟩ := hsets
    simp only [configureAttribute, configureScalar, if_neg htypeName, if_neg hdirectory] at h
    -- A flag that is set to true would set the type.
    split_ifs at h with hstructure hvirtual htimestamp hmutated hpatterns
    · obtain ⟨hvalue, -⟩ | ⟨-, rfl⟩ := configureFlag_ok h
      · exact absurd hvalue (hflags.resolve_left fun hflags => hflags.1.1 hstructure)
      · rw [hclear .directoryStructure nofun nofun]
    · obtain ⟨hvalue, -⟩ | ⟨-, rfl⟩ := configureFlag_ok h
      · exact absurd hvalue (hflags.resolve_left fun hflags => hflags.1.2 hvirtual)
      · rw [hclear .virtual nofun nofun]
    · obtain ⟨hvalue, -⟩ | ⟨-, rfl⟩ := configureFlag_ok h
      · exact absurd hvalue (hflags.resolve_left fun hflags => hflags.2 htimestamp)
      · rfl
    · obtain ⟨-, rfl⟩ | ⟨-, rfl⟩ := configureFlag_ok h <;> rfl
    · cases h
      rfl
  | list name values =>
    simp only [configureAttribute, configureList] at h
    split_ifs at h <;> cases h <;> rfl
  | pairs name values => cases h

/-- Without an attribute that sets the type, a plain node and a directory stay what they are. -/
theorem configureAttributes_apart
    {as bs : List NodeAttribute} (hrespells : List.Forall₂ Respells as bs)
    (haccepted : ∀ attr ∈ as, attr.isRejected = false)
    (hsets : ∀ attr ∈ as, attr.setsType = false) {node other : ConfiguredNode}
    (hplain : node.type = .plain) (hdirectory : other.type = .directory) :
  ∃ result result', configureAttributes as node = .ok result
    ∧ configureAttributes bs other = .ok result' ∧ result.type = .plain
    ∧ result'.type = .directory
  := by
  induction hrespells generalizing node other with
  | nil => exact ⟨node, other, rfl, rfl, hplain, hdirectory⟩
  | @cons a b as bs hab hrest ih =>
    obtain ⟨ha, haccepted⟩ := List.forall_mem_cons.mp haccepted
    obtain ⟨hasets, hsets⟩ := List.forall_mem_cons.mp hsets
    cases hab with
    | directory | directoryStructure | virtual => cases hasets
    | same =>
      obtain ⟨next, hnext⟩ := exists_ok_of_not_isRejected ha node
      obtain ⟨next', hnext'⟩ := exists_ok_of_not_isRejected ha other
      rw [configureAttributes_cons_ok hnext, configureAttributes_cons_ok hnext']
      apply ih haccepted hsets
      · rw [type_configureAttribute hasets hnext (.inl hplain), hplain]
      · rw [type_configureAttribute hasets hnext' (.inr hdirectory), hdirectory]

/-- A respelled `type: directory` that no later attribute settles yields a plain node and a
directory. -/
theorem configureAttributes_of_not_settled
    {as bs : List NodeAttribute} (hrespells : List.Forall₂ Respells as bs)
    (haccepted : ∀ attr ∈ as, attr.isRejected = false) (hsettled : ¬ Settled as bs)
    (node other : ConfiguredNode) :
  ∃ result result', configureAttributes as node = .ok result
    ∧ configureAttributes bs other = .ok result' ∧ result.type = .plain
    ∧ result'.type = .directory
  := by
  induction hrespells generalizing node other with
  | nil => exact absurd trivial hsettled
  | @cons a b as bs hab hrest ih =>
    obtain ⟨ha, hlater⟩ := List.forall_mem_cons.mp haccepted
    obtain ⟨next, hnext⟩ := exists_ok_of_not_isRejected ha node
    obtain ⟨next', hnext'⟩ :=
      exists_ok_of_not_isRejected ((isRejected_of_respells hab).trans ha) other
    rw [configureAttributes_cons_ok hnext, configureAttributes_cons_ok hnext']
    by_cases hrest' : Settled as bs
    · have hdirectory : ¬ (a = typeDirectory → b = isDirectory →
          ∃ later ∈ as, later.setsType = true) := fun h => hsettled ⟨h, hrest'⟩
      push Not at hdirectory
      obtain ⟨rfl, rfl, hsets⟩ := hdirectory
      apply configureAttributes_apart hrest hlater
      · exact fun attr hattr => Bool.of_not_eq_true (hsets attr hattr)
      · cases hnext
        rfl
      · cases hnext'
        rfl
    · exact ih hlater hrest' next next'

/-- The two spellings of the types of nodes yield the same type and the same timestamp flag (or the
same error) exactly if each respelled `type: directory` is followed by an attribute that sets the
type, or an attribute is rejected. -/
theorem configureAttributes_respelled_iff
    {as bs : List NodeAttribute} (hrespells : List.Forall₂ Respells as bs)
    (node : ConfiguredNode) :
  (configureAttributes as node).map (fun node => (node.type, node.commandTimestamp))
      = (configureAttributes bs node).map (fun node => (node.type, node.commandTimestamp))
    ↔ Settled as bs ∨ ∃ attr ∈ as, attr.isRejected = true
  := by
  constructor
  · intro heq
    by_contra h
    rw [not_or] at h
    have haccepted : ∀ attr ∈ as, attr.isRejected = false :=
      fun attr hattr => Bool.of_not_eq_true fun hrejected => h.2 ⟨attr, hattr, hrejected⟩
    obtain ⟨result, result', has, hbs, hplain, hdirectory⟩ :=
      configureAttributes_of_not_settled hrespells haccepted h.1 node node
    rw [has, hbs] at heq
    have htype := congrArg Prod.fst (Except.ok.inj heq)
    dsimp only at htype
    rw [hplain, hdirectory] at htype
    cases htype
  · rintro (hsettled | hrejected)
    · rw [configureAttributes_near hrespells hsettled (.inl rfl) (.inl rfl)]
    · rw [configureAttributes_of_isRejected hrespells hrejected node node]

/-- The attributes of a node that is a directory first and then virtual. -/
theorem configureAttributes_respelled_virtual :
  (configureAttributes [typeDirectory, .scalar (ascii "type") (ascii "virtual")]
      { name := ascii "d" }).map (fun node => (node.type, node.commandTimestamp))
    = (configureAttributes [isDirectory, .scalar (ascii "is-virtual") (ascii "true")]
      { name := ascii "d" }).map (fun node => (node.type, node.commandTimestamp))
  := by
  have hrespells := List.Forall₂.cons Respells.directory (.cons .virtual .nil)
  refine (configureAttributes_respelled_iff hrespells _).mpr (.inl ⟨?_, ?_, trivial⟩)
  · exact fun _ _ => ⟨_, List.mem_cons_self, by decide⟩
  · intro heq
    cases heq

/-- A node with `type: directory` is plain, and one with `is-directory: true` is a directory. -/
theorem configureAttributes_directory :
  List.Forall₂ Respells [typeDirectory] [isDirectory]
    ∧ (configureAttributes [typeDirectory] { name := ascii "d" }).toOption.map
      (fun node => (node.type, node.commandTimestamp)) = some (.plain, false)
    ∧ (configureAttributes [isDirectory] { name := ascii "d" }).toOption.map
      (fun node => (node.type, node.commandTimestamp)) = some (.directory, false)
  := ⟨.cons .directory .nil, by decide, by decide⟩

end ConfiguredNode

end LLBuild.BuildSystem

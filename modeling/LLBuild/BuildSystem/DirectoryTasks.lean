import LLBuild.BuildSystem.Failures

/-!
# The kinds of values directory tasks receive

Four tasks read directories: two list the contents, two compute a signature of the tree below.
They feed each other values of several kinds, and what a value carries depends on its kind.
An access to something the value does not carry, where the code has an assertion, is `none`
here.
-/

namespace LLBuild.BuildSystem

open BinaryCoding BuildValue

variable (value : BuildValue)

/-- The output info of a value. -/
def getOutputInfo : Option FileInfo :=
  if value.kind.kindHasOutputInfo ∧ ¬ value.hasMultipleOutputs then value.getNthOutputInfo 0
  else none

/-- The directory contents of a value. -/
def getDirectoryContents : Option (List Bytes) :=
  if value.kind = .directoryContents ∨ value.kind = .filteredDirectoryContents then
    some value.stringValues.getValues
  else none

/-- The values a path node completes with. -/
inductive IsPathValue : BuildValue → Prop
  | existing (info : FileInfo) : IsPathValue (makeExistingInput info)
  | missingInput : IsPathValue makeMissingInput
  | missingOutput : IsPathValue makeMissingOutput
  | failed : IsPathValue makeFailedInput
  | skipped : IsPathValue makeSkippedCommand
  | virtualInput : IsPathValue makeVirtualInput

/-- What is known about the path of a directory task: the value of its node, what the file
system says about it, its listing, which is without the excluded names if there are filters,
and the values of the nodes for the names. -/
structure DirectoryInput where
  node : BuildValue
  info : FileInfo
  isFiltered : Bool
  filenames : CStrings
  child : Bytes → BuildValue

/-- The value of the file info node. -/
def StatTask.inputsAvailable (info : FileInfo) : BuildValue :=
  if info.isMissing then makeMissingInput else makeExistingInput info

variable (directoryValue : BuildValue)

/-- The contents of a directory, with the assertions on the value of its node. -/
def DirectoryContentsTask.checkedInputsAvailable
    (filenames : CStrings) : Option BuildValue :=
  match directoryValue.kind with
  | .missingInput | .missingOutput => some makeMissingInput
  | .failedInput => some makeFailedInput
  | .skippedCommand => some makeSkippedCommand
  | _ => do
    let info ← getOutputInfo directoryValue
    return makeDirectoryContents info filenames

/-- The filtered contents of a directory, from its file info node. -/
def FilteredDirectoryContentsTask.inputsAvailable
    (filenames : CStrings) : Option BuildValue :=
  if directoryValue.kind = .missingInput then some makeMissingInput
  else if directoryValue.kind ≠ .existingInput then some makeFailedInput
  else do
    let info ← getOutputInfo directoryValue
    return if isDirectoryInfo info then makeFilteredDirectoryContents filenames
      else makeExistingInput info

variable (input : DirectoryInput)

/-- The contents a signature task requests. -/
def DirectoryInput.contents : Option BuildValue :=
  if input.isFiltered then
    FilteredDirectoryContentsTask.inputsAvailable (StatTask.inputsAvailable input.info)
      input.filenames
  else DirectoryContentsTask.checkedInputsAvailable input.node input.filenames

/-- Whether the signature of a child is requested. -/
def isDirectoryChild : Option Bool :=
  if value.kind = .existingInput then (getOutputInfo value).map isDirectoryInfo else some false

namespace DirectoryTreeSignatureTask

/-- The children whose nodes are requested. -/
def provideContents (isFiltered : Bool) (value : BuildValue) : Option (List Bytes) :=
  if value.kind ≠ (if isFiltered then .filteredDirectoryContents else .directoryContents) then
    some []
  else getDirectoryContents value

/-- What the task does with the kinds of its values: the children it requests, and which of
them are directories. -/
def run : Option (List Bytes × List Bool) := do
  let value ← input.contents
  let filenames ← provideContents input.isFiltered value
  let directories ← filenames.mapM (isDirectoryChild <| input.child ·)
  return (filenames, directories)

end DirectoryTreeSignatureTask

namespace DirectoryTreeStructureSignatureTask

def provideContents : Option (List Bytes) :=
  if value.kind = .missingInput ∨ value.kind = .skippedCommand then some []
  else getDirectoryContents value

/-- The part of a value that is hashed: the mode, if it has the kind of a file, or its data. -/
def hashedPart (kind : Kind) (value : BuildValue) : Option (UInt64 ⊕ Bytes) :=
  if value.kind = kind then (getOutputInfo value).map (.inl ·.mode) else some (.inr value.toData)

/-- What the task does with the kinds of its values, with the parts of them that it hashes. -/
def run : Option (List Bytes × List Bool × List (UInt64 ⊕ Bytes)) := do
  let value ← input.contents
  let filenames ← provideContents value
  let directories ← filenames.mapM (isDirectoryChild <| input.child ·)
  let part ← hashedPart .directoryContents value
  let parts ← filenames.mapM (hashedPart .existingInput <| input.child ·)
  return (filenames, directories, part :: parts)

end DirectoryTreeStructureSignatureTask

/-! ### Safety -/

theorem exists_mapM_eq {α β : Type} {f : α → Option β} (h : ∀ a, (f a).isSome) (l : List α) :
  ∃ bs, l.mapM f = some bs
  := by
  induction l with
  | nil => exact ⟨[], rfl⟩
  | cons a l ih =>
    obtain ⟨b, hb⟩ := Option.isSome_iff_exists.mp (h a)
    obtain ⟨bs, hbs⟩ := ih
    exact ⟨b :: bs, by simp [hb, hbs]⟩

open DirectoryTreeStructureSignatureTask

theorem IsPathValue.isSome_child {value : BuildValue} (h : IsPathValue value) :
  (isDirectoryChild value).isSome
    ∧ (hashedPart .existingInput value).isSome
  := by
  cases h <;> exact ⟨rfl, rfl⟩

namespace DirectoryInput

/-- What a structure signature can be computed of: what exists is a directory, and without
filters, did not fail. -/
def HasStructure : Prop :=
  if input.isFiltered then input.info.isMissing ∨ isDirectoryInfo input.info
  else input.node ≠ makeFailedInput

/-- The kinds of contents, and what the signature tasks do with them. -/
theorem exists_contents {input : DirectoryInput} (hnode : IsPathValue input.node)
    (hvirtual : input.isFiltered ∨ input.node ≠ makeVirtualInput) :
  ∃ value, input.contents = some value
    ∧ (DirectoryTreeSignatureTask.provideContents input.isFiltered value).isSome
    ∧ ((provideContents value).isSome ↔ input.HasStructure)
    ∧ (hashedPart .directoryContents value).isSome
  := by
  obtain ⟨node, info, isFiltered, filenames, child⟩ := input
  cases isFiltered with
  | false =>
    cases hnode with
    | failed => exact ⟨_, rfl, rfl, iff_of_false Bool.false_ne_true fun h => absurd rfl h, rfl⟩
    | virtualInput => exact absurd rfl (hvirtual.resolve_left Bool.false_ne_true)
    | _ => exact ⟨_, rfl, rfl, iff_of_true rfl fun h => (nomatch congrArg BuildValue.kind h), rfl⟩
  | true =>
    rw [contents, StatTask.inputsAvailable]
    by_cases hmissing : info.isMissing
    · rw [if_pos hmissing]
      exact ⟨_, rfl, rfl, iff_of_true rfl (.inl hmissing), rfl⟩
    rw [if_neg hmissing]
    by_cases hdirectory : isDirectoryInfo info
    · refine ⟨makeFilteredDirectoryContents filenames, ?_, rfl, ?_, rfl⟩
      · exact congrArg some (if_pos hdirectory)
      · exact iff_of_true rfl (.inr hdirectory)
    · refine ⟨makeExistingInput info, ?_, rfl, ?_, rfl⟩
      · exact congrArg some (if_neg hdirectory)
      · exact iff_of_false Bool.false_ne_true (not_or.mpr ⟨hmissing, hdirectory⟩)

end DirectoryInput

/-- The contents task and the tree signature task access nothing that is not there exactly unless
they have no filters and receive a virtual input; and the structure signature task exactly if,
besides, there is a structure. -/
theorem directoryTasks_isSome_iff {input : DirectoryInput} (hnode : IsPathValue input.node)
    (hchild : ∀ filename, IsPathValue (input.child filename)) :
  (input.contents.isSome ↔ input.isFiltered ∨ input.node ≠ makeVirtualInput)
    ∧ ((DirectoryTreeSignatureTask.run input).isSome
      ↔ input.isFiltered ∨ input.node ≠ makeVirtualInput)
    ∧ ((run input).isSome
      ↔ (input.isFiltered ∨ input.node ≠ makeVirtualInput) ∧ input.HasStructure)
  := by
  by_cases hvirtual : input.isFiltered ∨ input.node ≠ makeVirtualInput
  · obtain ⟨value, hvalue, htree, hstructure, hpart⟩ := input.exists_contents hnode hvirtual
    have hdirectories := exists_mapM_eq fun filename => (hchild filename).isSome_child.1
    have hparts := exists_mapM_eq fun filename => (hchild filename).isSome_child.2
    simp only [hvirtual, true_and, iff_true]
    refine ⟨by rw [hvalue]; rfl, ?_, ?_⟩
    · obtain ⟨filenames, hfilenames⟩ := Option.isSome_iff_exists.mp htree
      obtain ⟨directories, hdirectories⟩ := hdirectories filenames
      simp [DirectoryTreeSignatureTask.run, hvalue, hfilenames, hdirectories]
    · rw [← hstructure]
      cases hfilenames : provideContents value with
      | none => simp [run, hvalue, hfilenames]
      | some filenames =>
        obtain ⟨part, hpart⟩ := Option.isSome_iff_exists.mp hpart
        obtain ⟨directories, hdirectories⟩ := hdirectories filenames
        obtain ⟨parts, hparts⟩ := hparts filenames
        simp [run, hvalue, hfilenames, hdirectories, hpart, hparts]
  · have hnone : input.contents = none := by
      obtain ⟨hfiltered, hnode⟩ := not_or.mp hvirtual
      rw [DirectoryInput.contents, if_neg hfiltered, not_not.mp hnode]
      rfl
    simp [hvirtual, hnone, DirectoryTreeSignatureTask.run, run]

/-- An empty directory, with a value of its node. -/
def emptyDirectory (isFiltered : Bool) (node : BuildValue) (mode : UInt64) : DirectoryInput :=
  ⟨node, { FileInfo.zero with mode := mode }, isFiltered, .empty, fun _ => makeMissingInput⟩

theorem directoryTasks_isSome_missing :
  (emptyDirectory false makeMissingOutput 0).contents.isSome
  := (directoryTasks_isSome_iff .missingOutput fun _ => .missingInput).1.mpr (.inr (by decide))

/-- The contents task takes the output info of a virtual input.  The structure signature task
takes the contents of a failed input and, with filters, of a file. -/
theorem directoryTasks_eq_none :
  (emptyDirectory false makeVirtualInput 0).contents = none
    ∧ run (emptyDirectory false makeFailedInput 0) = none
    ∧ run
      (emptyDirectory true (makeExistingInput FileInfo.zero) 0x8000) = none
  := by
  decide

end LLBuild.BuildSystem

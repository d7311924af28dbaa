import LLBuild.BuildSystem.Command
import Mathlib.Data.List.Dedup
import Mathlib.Data.List.DropRight
import Mathlib.Data.List.Sort

/-!
# Removal of stale files

The command for the removal of stale files records which outputs a build is expected to
have.  In the next build it removes the recorded files that are no longer expected, if they
are located under one of its root paths.

The command outlives the builds of a process.  It computes the files to delete once and
keeps them, whoever asks first: the execution, or somebody who wants to see the verbose
description.  While they have not been computed a build with a recorded value removes the
right files, unless the description is requested too early; after that it repeats itself.
-/

namespace LLBuild

open List

open BinaryCoding BuildValue

namespace BuildSystem

/-! ### Paths -/

/-- The path separators. -/
def pathSeparators : Bytes := ascii "/"

/-- What remains of two strings after what they have in common. -/
def mismatch : Bytes → Bytes → Bytes × Bytes
  | a :: s, b :: t => if a = b then mismatch s t else (a :: s, b :: t)
  | s, t => (s, t)

/-- There is nothing left, or a separator is next. -/
def atSeparator (rest : Bytes) : Bool := rest.head?.all (· ∈ pathSeparators)

/-- Whether the path is prefixed by the other path. -/
def pathIsPrefixedByPath (path prefixPath : Bytes) : Bool :=
  if path.length < prefixPath.length then
    -- Here only `/foo/` is a prefix of `/foo`.
    prefixPath.dropLast = path && prefixPath.getLast?.any (· ∈ pathSeparators)
  else
    let rest := mismatch prefixPath path
    atSeparator rest.1 && atSeparator rest.2

/-- The file is the root or located under it; separators at the end of the root do not
matter. -/
def IsLocatedUnder (root file : Bytes) : Prop :=
  ∃ rest, file = root.rdropWhile (· ∈ pathSeparators) ++ rest ∧ atSeparator rest

theorem eq_of_mem_pathSeparators {a b : UInt8} (ha : a ∈ pathSeparators) (hb : b ∈ pathSeparators) :
  a = b
  := by
  simp only [pathSeparators, ascii] at ha hb
  grind

theorem mismatch_append (s rest : Bytes) :
  mismatch s (s ++ rest) = ([], rest)
  := by
  induction s with
  | nil => cases rest <;> rfl
  | cons a s ih => rw [cons_append, mismatch, if_pos rfl, ih]

/-- What remains of two strings follows something they have in common, and starts
differently. -/
theorem exists_of_mismatch (s t : Bytes) :
  ∃ common, s = common ++ (mismatch s t).1 ∧ t = common ++ (mismatch s t).2
    ∧ ∀ a ∈ (mismatch s t).1.head?, ∀ b ∈ (mismatch s t).2.head?, a ≠ b
  := by
  fun_induction mismatch s t with
  | case1 s a t ih =>
    obtain ⟨common, hs, ht, hne⟩ := ih
    exact ⟨a :: common, congrArg (a :: ·) hs, congrArg (a :: ·) ht, hne⟩
  | case2 a s b t hab =>
    refine ⟨[], rfl, rfl, ?_⟩
    rintro x hx y hy
    cases hx
    cases hy
    exact hab
  | case3 s t h =>
    refine ⟨[], rfl, rfl, ?_⟩
    intro x hx y hy
    cases s with
    | nil => cases hx
    | cons a s =>
      cases t with
      | nil => cases hy
      | cons b t => exact absurd rfl (h a s b t rfl)

variable {file root file' : Bytes}

/-- To be located under a root without a separator at its end is to continue it at a
separator. -/
theorem isLocatedUnder_iff (hroot : ¬ root.getLast?.any (· ∈ pathSeparators)) :
  IsLocatedUnder root file ↔ ∃ rest, file = root ++ rest ∧ atSeparator rest
  := by
  have hstrip : root.rdropWhile (· ∈ pathSeparators) = root := by
    rw [rdropWhile_eq_self_iff]
    intro hne h
    apply hroot
    rw [getLast?_eq_some_getLast hne]
    exact h
  rw [IsLocatedUnder, hstrip]

/-- A path is prefixed by another one that it continues at a separator, or that is the path with a
separator at its end. -/
theorem pathIsPrefixedByPath_iff_append {path root : Bytes} :
  pathIsPrefixedByPath path root
    ↔ (∃ rest, path = root ++ rest ∧ atSeparator rest) ∨ root = path ++ ascii "/"
  := by
  rw [pathIsPrefixedByPath]
  split_ifs with hlt
  · rw [Bool.and_eq_true, decide_eq_true_eq, Option.any_eq_true]
    constructor
    · rintro ⟨hpath, a, ha, hmem⟩
      obtain ⟨start, rfl⟩ := getLast?_eq_some_iff.mp ha
      rw [dropLast_concat] at hpath
      right
      rw [hpath, eq_of_mem_pathSeparators (of_decide_eq_true hmem)
        (show '/'.toUInt8 ∈ pathSeparators by decide)]
      rfl
    · rintro (⟨rest, rfl, -⟩ | rfl)
      · rw [length_append] at hlt
        omega
      · exact ⟨dropLast_concat, _, getLast?_concat, by decide⟩
  · dsimp only
    rw [Bool.and_eq_true]
    constructor
    · rintro ⟨hfirst, hsecond⟩
      left
      obtain ⟨common, hcommon, hpath, hne⟩ := exists_of_mismatch root path
      generalize mismatch root path = rest at *
      obtain ⟨_ | ⟨a, first⟩, second⟩ := rest
      · rw [append_nil] at hcommon
        exact ⟨second, by rw [hcommon]; exact hpath, hsecond⟩
      · -- The root is no longer than the path, so something remains of the path as well.
        cases second with
        | nil =>
          rw [hcommon, hpath] at hlt
          simp at hlt
        | cons b second =>
          have hab : a = b := by
            apply eq_of_mem_pathSeparators
            · simpa [atSeparator] using hfirst
            · simpa [atSeparator] using hsecond
          exact absurd hab (hne a rfl b rfl)
    · rintro (⟨rest, rfl, hrest⟩ | rfl)
      · rw [mismatch_append]
        exact ⟨rfl, hrest⟩
      · exact absurd (by rw [length_append]; exact Nat.lt_succ_self _) hlt

/-- Without a separator at the end of the other path, a path is prefixed by it exactly when
it is located under it. -/
theorem pathIsPrefixedByPath_iff
    {path root : Bytes} (hroot : ¬ root.getLast?.any (· ∈ pathSeparators)) :
  pathIsPrefixedByPath path root ↔ IsLocatedUnder root path
  := by
  rw [isLocatedUnder_iff hroot, pathIsPrefixedByPath_iff_append, or_iff_left]
  rintro rfl
  exact hroot (by rw [show ascii "/" = ['/'.toUInt8] from rfl, getLast?_concat]; rfl)

/-! ### The command -/

/-- A command for the removal of stale files. -/
structure StaleFileRemoval where
  name : Bytes
  description : Bytes := []
  expectedOutputs : CStrings
  roots : List Bytes := []

namespace StaleFileRemoval

/-- What the command keeps, from one build to the next. -/
structure State where
  filesToDelete : List Bytes := []
  computedFilesToDelete : Bool := false
  priorValue : BuildValue := makeInvalid
  hasPriorResult : Bool := false

/-- What an attempt to remove a file comes to. -/
inductive Removal
  | removed
  | missing
  | failed (error : Bytes)
  deriving DecidableEq

/-- What an execution does. -/
inductive Action
  | commandStarted
  | remove (file : Bytes)
  | commandHadWarning (message : Bytes)
  | commandHadNote (message : Bytes)
  | commandFinished (status : ProcessStatus)
  deriving DecidableEq

/-- The elements of a set of strings, in their order. -/
def stringSet (strings : List Bytes) : List Bytes :=
  strings.dedup.insertionSort (· ≤ ·)

/-- The recorded files of a value.  The code asserts that it is the value of a stale file
removal; without assertions the values of other commands have no files. -/
def getStaleFileList (value : BuildValue) : List Bytes := value.stringValues.getValues

section Command

variable (c : StaleFileRemoval)

/-- Compute the files to delete, if they have not been computed. -/
def computeFilesToDelete (s : State) : State :=
  if s.computedFilesToDelete then s
  else
    { s with
      filesToDelete := s.filesToDelete
        ++ (stringSet (getStaleFileList s.priorValue)).filter (· ∉ c.expectedOutputs.values)
      computedFilesToDelete := true }

/-- The prior value is supplied. -/
def providePriorValue (value : BuildValue) (s : State) : State :=
  { s with hasPriorResult := true, priorValue := value }

/-- The short description. -/
def getShortDescription : Bytes :=
  if c.description = [] then ascii "Stale file removal" else c.description

/-- The strings with a separator after each that differs from the last one. -/
def commaSeparated (strings : List Bytes) : Bytes :=
  strings.flatMap (fun string =>
    string ++ if some string ≠ strings.getLast? then ascii ", " else [])

/-- The verbose description, and the state after it has been requested. -/
def getVerboseDescription (s : State) : Bytes × State :=
  let s := c.computeFilesToDelete s
  (c.getShortDescription ++ ascii ", stale files: [" ++ commaSeparated s.filesToDelete
    ++ ascii "], roots: [" ++ commaSeparated c.roots ++ ascii "]", s)

/-- What is reported about an attempt to remove a file. -/
def reportRemoval (file : Bytes) : Removal → List Action
  | .removed => [.commandHadNote (ascii "Removed stale file '" ++ file ++ ascii "'\n")]
  | .missing => []
  | .failed error =>
    [.commandHadWarning (ascii "cannot remove stale file '" ++ file ++ ascii "': " ++ error
      ++ ascii "\n")]

variable (remove : Bytes → Removal)

/-- What is done about a file to delete; `remove` says what an attempt to remove it comes
to. -/
def deleteFile (file : Bytes) : List Action :=
  if c.roots ≠ [] ∧ ¬ file.head?.any (· ∈ pathSeparators) then
    [.commandHadWarning (ascii "Stale file '" ++ file ++ ascii ("' has a relative path. This is "
      ++ "invalid in combination with the root path attribute.\n"))]
  else if c.roots ≠ [] ∧ ¬ c.roots.any (pathIsPrefixedByPath file) then
    [.commandHadWarning (ascii "Stale file '" ++ file
      ++ ascii "' is located outside of the allowed root paths.\n")]
  else .remove file :: reportRemoval file (remove file)

/-- An execution: what it does, the result of the command and the state after it. -/
def execute (s : State) :
    List Action × BuildValue × State :=
  let result := makeStaleFileRemoval c.expectedOutputs
  -- There is nothing to do without a prior result.
  if ¬ s.hasPriorResult ∨ s.priorValue.kind ≠ .staleFileRemoval then
    ([.commandStarted, .commandFinished .succeeded], result, s)
  else
    let s := c.computeFilesToDelete s
    (.commandStarted :: s.filesToDelete.flatMap (c.deleteFile remove)
      ++ [.commandFinished .succeeded], result, s)

/-! ### Builds -/

/-- What happens to the command in a build. -/
structure Build where
  /-- How often the verbose description is requested before the prior value is supplied. -/
  describedEarly : ℕ := 0
  prior : Option BuildValue := none
  /-- How often it is requested between then and the execution. -/
  describedBefore : ℕ := 0
  /-- The command is not executed when the build is cancelled or the delegate vetoes it. -/
  executes : Bool := true
  /-- How often it is requested from the start of the execution on. -/
  describedAfter : ℕ := 0

/-- The verbose description is requested a number of times. -/
def describe (times : ℕ) (s : State) : State :=
  (fun s => (c.getVerboseDescription s).2)^[times] s

/-- The state in which the command is executed. -/
def beforeExecute (build : Build) (s : State) : State :=
  let s := c.describe build.describedEarly s
  let s := match build.prior with
    | none => s
    | some value => providePriorValue value s
  c.describe build.describedBefore s

/-- What the command does in a build. -/
def actions (s : State) (build : Build) :
    List Action :=
  if build.executes then (c.execute remove (c.beforeExecute build s)).1 else []

/-- The state after a build. -/
def afterBuild (s : State) (build : Build) :
    State :=
  let s := c.beforeExecute build s
  let s := if build.executes then (c.execute remove s).2.2 else s
  c.describe build.describedAfter s

/-- The state after a number of builds of one process. -/
def afterBuilds (builds : List Build) : State :=
  builds.foldl (c.afterBuild remove) {}

/-- The file is one that a build with the given prior value has to remove. -/
def IsStale (prior : Option BuildValue) (file : Bytes) : Prop :=
  ∃ value, prior = some value ∧ value.kind = .staleFileRemoval
    ∧ file ∈ getStaleFileList value ∧ file ∉ c.expectedOutputs.values
    ∧ (c.roots = [] ∨ ∃ root ∈ c.roots, IsLocatedUnder root file)

/-! ### The command as others see it

To the rest of the build system only the reports of the start and the end of the execution
matter, and the result. -/

/-- The command as a command of a build description. -/
def toCommand : StaleFileRemovalCommand where
  name := c.name
  expectedOutputs := .ofValues c.expectedOutputs

/-- The call of the delegate that a build depends on. -/
def Action.callback : Action → Option Callback
  | .commandStarted => some .commandStarted
  | .commandFinished status => some (.commandFinished status)
  | _ => none

end Command

variable (c : StaleFileRemoval) (remove : Bytes → Removal)

theorem filterMap_callback_deleteFile (file : Bytes) :
  (c.deleteFile remove file).filterMap Action.callback = []
  := by
  rw [deleteFile]
  split_ifs
  · rfl
  · rfl
  · cases remove file <;> rfl

variable (s : State)

/-- In every state the execution is one of the command of the build description. -/
theorem execute_toCommand :
  ((c.execute remove s).1.filterMap Action.callback, (c.execute remove s).2.1)
    = c.toCommand.execute
  := by
  rw [execute]
  split_ifs
  · rfl
  · have hfiles : ((c.computeFilesToDelete s).filesToDelete.flatMap
        (c.deleteFile remove)).filterMap Action.callback = [] := by
      simp [filterMap_flatMap, filterMap_callback_deleteFile]
    simp [hfiles, Action.callback, toCommand, StaleFileRemovalCommand.execute, makeStaleFileRemoval]

/-! ### What is removed -/

theorem mem_stringSet {strings : List Bytes} :
  file ∈ stringSet strings ↔ file ∈ strings
  := by
  rw [stringSet, (perm_insertionSort _ _).mem_iff, mem_dedup]

/-- A file to delete is removed unless it is outside of the roots. -/
theorem remove_mem_deleteFile_iff :
  .remove file ∈ c.deleteFile remove file'
    ↔ file = file' ∧ (c.roots = [] ∨ (file.head?.any (· ∈ pathSeparators)
      ∧ c.roots.any (pathIsPrefixedByPath file)))
  := by
  have hrest : .remove file ∉ reportRemoval file' (remove file') := by
    cases remove file' <;> simp [reportRemoval]
  rw [deleteFile]
  split_ifs with hrelative houtside
  · constructor
    · intro h
      simp at h
    · rintro ⟨rfl, hroots | ⟨habsolute, -⟩⟩
      · exact absurd hroots hrelative.1
      · exact absurd habsolute hrelative.2
  · constructor
    · intro h
      simp at h
    · rintro ⟨rfl, hroots | ⟨-, hunder⟩⟩
      · exact absurd hroots houtside.1
      · exact absurd hunder houtside.2
  · rw [mem_cons]
    constructor
    · rintro (h | h)
      · cases h
        refine ⟨rfl, ?_⟩
        by_cases hroots : c.roots = []
        · exact .inl hroots
        · exact .inr ⟨not_not.mp (fun h => hrelative ⟨hroots, h⟩),
            not_not.mp (fun h => houtside ⟨hroots, h⟩)⟩
      · exact absurd h hrest
    · rintro ⟨rfl, -⟩
      exact .inl rfl

/-- The roots are absolute and do not end with a separator. -/
def HasPlainRoots : Prop :=
  ∀ root ∈ c.roots, root.head?.any (· ∈ pathSeparators) ∧ ¬ root.getLast?.any (· ∈ pathSeparators)

/-- For plain roots a file to delete is removed exactly when it is located under one. -/
theorem HasPlainRoots.remove_mem_deleteFile_iff
    {c : StaleFileRemoval} (hroots : c.HasPlainRoots) (remove : Bytes → Removal) :
  .remove file ∈ c.deleteFile remove file'
    ↔ file = file' ∧ (c.roots = [] ∨ ∃ root ∈ c.roots, IsLocatedUnder root file)
  := by
  rw [StaleFileRemoval.remove_mem_deleteFile_iff]
  apply and_congr_right
  rintro rfl
  apply or_congr_right
  rw [any_eq_true]
  constructor
  · rintro ⟨-, root, hroot, h⟩
    exact ⟨root, hroot, (pathIsPrefixedByPath_iff (hroots root hroot).2).mp h⟩
  · rintro ⟨root, hroot, h⟩
    refine ⟨?_, root, hroot, (pathIsPrefixedByPath_iff (hroots root hroot).2).mpr h⟩
    -- What is under an absolute path is absolute.
    obtain ⟨rest, rfl, -⟩ := (isLocatedUnder_iff (hroots root hroot).2).mp h
    obtain ⟨habsolute, -⟩ := hroots root hroot
    cases root with
    | nil => cases habsolute
    | cons a root => exact habsolute

theorem computeFilesToDelete_idem :
  c.computeFilesToDelete (c.computeFilesToDelete s) = c.computeFilesToDelete s
  := by
  apply if_pos
  rw [computeFilesToDelete]
  split_ifs with h
  · exact h
  · rfl

variable (times : ℕ)

/-- However often the description has been requested, the files to delete are those computed
from the state before. -/
theorem computeFilesToDelete_describe :
  c.computeFilesToDelete (c.describe times s) = c.computeFilesToDelete s
  := by
  induction times generalizing s with
  | zero => rfl
  | succ times ih =>
    rw [describe, Function.iterate_succ_apply, ← describe, ih]
    apply computeFilesToDelete_idem

theorem describe_prior :
  (c.describe times s).priorValue = s.priorValue
    ∧ (c.describe times s).hasPriorResult = s.hasPriorResult
  := by
  induction times generalizing s with
  | zero => exact ⟨rfl, rfl⟩
  | succ times ih =>
    rw [describe, Function.iterate_succ_apply, ← describe]
    have hcompute : (c.getVerboseDescription s).2.priorValue = s.priorValue
        ∧ (c.getVerboseDescription s).2.hasPriorResult = s.hasPriorResult := by
      rw [getVerboseDescription, computeFilesToDelete]
      split_ifs <;> exact ⟨rfl, rfl⟩
    rw [(ih _).1, (ih _).2]
    exact hcompute

/-- As long as the files to delete have not been computed there are none. -/
def State.IsUntouched (s : State) : Prop := s.computedFilesToDelete = false → s.filesToDelete = []

/-- Once the files have been computed the condition says nothing. -/
theorem isUntouched_computeFilesToDelete {s : State} (h : s.IsUntouched) :
  (c.computeFilesToDelete s).IsUntouched
  := by
  rw [computeFilesToDelete]
  split_ifs
  · exact h
  · intro hcomputed
    cases hcomputed

theorem isUntouched_describe {s : State} (h : s.IsUntouched) :
  (c.describe times s).IsUntouched
  := by
  induction times generalizing s with
  | zero => exact h
  | succ times ih =>
    apply ih
    apply isUntouched_computeFilesToDelete c h

/-- A build keeps it so. -/
theorem isUntouched_afterBuild (build : Build) {s : State} (h : s.IsUntouched) :
  (c.afterBuild remove s build).IsUntouched
  := by
  have hbefore : (c.beforeExecute build s).IsUntouched := by
    apply isUntouched_describe
    cases build.prior with
    | none => apply isUntouched_describe c _ h
    | some value =>
      have hdescribe : (c.describe build.describedEarly s).IsUntouched :=
        isUntouched_describe c _ h
      exact hdescribe
  apply isUntouched_describe
  split_ifs
  · rw [execute]
    split_ifs
    · exact hbefore
    · apply isUntouched_computeFilesToDelete c hbefore
  · exact hbefore

/-- So it is after any number of builds. -/
theorem isUntouched_afterBuilds (builds : List Build) :
  (c.afterBuilds remove builds).IsUntouched
  := by
  induction builds using reverseRecOn with
  | nil =>
    intro _
    rfl
  | append_singleton builds build ih =>
    rw [afterBuilds, foldl_append]
    apply isUntouched_afterBuild c remove build ih

/-- After any builds of the process, a build removes exactly the stale files if they have not
been computed before and the verbose description is not requested before the prior value is
supplied, no prior value of an earlier build takes the place of a missing one, and the roots are
plain. -/
theorem remove_mem_actions_iff
    (hroots : c.HasPlainRoots)
    (earlier : List Build)
    (hcomputed : (c.afterBuilds remove earlier).computedFilesToDelete = false)
    {build : Build} (hexecutes : build.executes)
    (hprior : build.prior.isSome ∧ build.describedEarly = 0
      ∨ (c.afterBuilds remove earlier).hasPriorResult = false ∧ build.prior = none)
    (file : Bytes) :
  .remove file ∈ c.actions remove (c.afterBuilds remove earlier) build
    ↔ c.IsStale build.prior file
  := by
  have huntouched := isUntouched_afterBuilds c remove earlier hcomputed
  generalize c.afterBuilds remove earlier = s at *
  rw [actions, if_pos hexecutes]
  rcases hprior with ⟨hsome, hdescribed⟩ | ⟨hresult, hnone⟩
  · obtain ⟨value, hvalue⟩ := Option.isSome_iff_exists.mp hsome
    have hstate : c.beforeExecute build s
        = c.describe build.describedBefore (providePriorValue value s) := by
      rw [beforeExecute, hvalue, hdescribed]
      rfl
    rw [hstate, execute, computeFilesToDelete_describe, (describe_prior _ _ _).1,
      (describe_prior _ _ _).2, hvalue]
    by_cases hkind : value.kind = .staleFileRemoval
    · have hcond : ¬ (¬ (providePriorValue value s).hasPriorResult
          ∨ (providePriorValue value s).priorValue.kind ≠ .staleFileRemoval) := by
        simp [providePriorValue, hkind]
      rw [if_neg hcond]
      have hfiles : (c.computeFilesToDelete (providePriorValue value s)).filesToDelete
          = (stringSet (getStaleFileList value)).filter (· ∉ c.expectedOutputs.values) := by
        simp [computeFilesToDelete, providePriorValue, hcomputed, huntouched]
      simp only [hfiles, mem_append, mem_cons, mem_flatMap, mem_filter,
        mem_stringSet, hroots.remove_mem_deleteFile_iff]
      constructor
      · rintro ((h | ⟨file', ⟨hmem, hexpected⟩, rfl, hunder⟩) | h)
        · cases h
        · exact ⟨value, rfl, hkind, hmem, by simpa using hexpected, hunder⟩
        · rcases h with h | h <;> cases h
      · rintro ⟨value', hvalue', -, hmem, hexpected, hunder⟩
        cases hvalue'
        exact .inl (.inr ⟨file, ⟨hmem, by simpa using hexpected⟩, rfl, hunder⟩)
    · have hcond : ¬ (providePriorValue value s).hasPriorResult
          ∨ (providePriorValue value s).priorValue.kind ≠ .staleFileRemoval := .inr hkind
      rw [if_pos hcond]
      constructor
      · intro h
        simp at h
      · rintro ⟨value', hvalue', hkind', -⟩
        cases hvalue'
        exact absurd hkind' hkind
  · have hstate : (c.beforeExecute build s).hasPriorResult = false := by
      rw [beforeExecute, hnone]
      rw [(describe_prior _ _ _).2, (describe_prior _ _ _).2]
      exact hresult
    rw [execute, if_pos (Or.inl (by rw [hstate]; decide)), hnone]
    constructor
    · intro h
      simp at h
    · rintro ⟨value, hvalue, -⟩
      cases hvalue

namespace RemovalSamples

/-- A command of which the file `/b/new` is expected, under the root `/b`. -/
def command (roots : List Bytes) : StaleFileRemoval where
  name := ascii "S"
  expectedOutputs := ⟨[ascii "/b/new"], by decide, by decide⟩
  roots := roots

/-- The value of a build that had the given file. -/
def recorded (file : Bytes) (h : 0 ∉ file) (hsize : (packed [file]).length < 2 ^ 64) :
    BuildValue :=
  makeStaleFileRemoval ⟨[file], by simpa using h, hsize⟩

/-- A value that records the file `/b/old`. -/
def old : BuildValue := recorded (ascii "/b/old") (by decide) (by decide)

/-- A value that records the file `/b/new`. -/
def new : BuildValue := recorded (ascii "/b/new") (by decide) (by decide)

theorem getStaleFileList_recorded
    (file : Bytes) (h : 0 ∉ file) (hsize : (packed [file]).length < 2 ^ 64) :
  getStaleFileList (recorded file h hsize) = [file]
  := StringList.getValues_ofValues _

end RemovalSamples

open RemovalSamples

/-- The first build after `/b/old` has been recorded. -/
theorem remove_mem_actions_iff_old :
  .remove (ascii "/b/old")
      ∈ (command [ascii "/b"]).actions (fun _ => .removed)
        ((command [ascii "/b"]).afterBuilds (fun _ => .removed) []) { prior := some old }
    ↔ (command [ascii "/b"]).IsStale (some old) (ascii "/b/old")
  := remove_mem_actions_iff (command [ascii "/b"]) (fun _ => .removed)
    (by simp only [HasPlainRoots]; decide) [] rfl rfl (.inl ⟨rfl, rfl⟩)
    (ascii "/b/old")

/-- The second build of a process removes what the first one removed, though it is not recorded
any more; a build does not remove a recorded file if the description is requested too early;
and a root with a separator at its end allows nothing. -/
theorem remove_mem_actions_wrong :
  (.remove (ascii "/b/old")
      ∈ (command []).actions (fun _ => .removed)
        ((command []).afterBuilds (fun _ => .removed) [{ prior := some old }])
        { prior := some new }
    ∧ ¬ (command []).IsStale (some new) (ascii "/b/old"))
  ∧ (.remove (ascii "/b/old")
      ∉ (command []).actions (fun _ => .removed) {} { prior := some old, describedEarly := 1 }
    ∧ (command []).IsStale (some old) (ascii "/b/old"))
  ∧ (.remove (ascii "/b/old")
      ∉ (command [ascii "/b/"]).actions (fun _ => .removed) {} { prior := some old }
    ∧ (command [ascii "/b/"]).IsStale (some old) (ascii "/b/old"))
  := by
  have hold : getStaleFileList old = [ascii "/b/old"] := getStaleFileList_recorded _ _ _
  have hnew : getStaleFileList new = [ascii "/b/new"] := getStaleFileList_recorded _ _ _
  have hnothing : getStaleFileList makeInvalid = [] := by
    simp [getStaleFileList, makeInvalid, StringList.getValues, StringList.valuesFrom]
  refine ⟨⟨?_, ?_⟩, ⟨?_, ?_⟩, ?_, ?_⟩
  · simp [afterBuilds, afterBuild, beforeExecute, describe, execute,
      computeFilesToDelete, providePriorValue, hold]
    decide
  · rintro ⟨value, hvalue, -, hmem, -⟩
    cases hvalue
    rw [hnew] at hmem
    revert hmem
    decide
  · simp [actions, beforeExecute, describe, computeFilesToDelete, getVerboseDescription, hnothing]
    decide
  · exact ⟨old, rfl, rfl, by rw [hold]; simp, by decide, .inl rfl⟩
  · simp [actions, beforeExecute, describe, execute, computeFilesToDelete, providePriorValue, hold]
    decide
  · refine ⟨old, rfl, rfl, by rw [hold]; simp, by decide, .inr ⟨ascii "/b/", by decide, ?_⟩⟩
    exact ⟨ascii "/old", by decide, by decide⟩

end StaleFileRemoval

end BuildSystem

end LLBuild

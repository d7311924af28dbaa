import LLBuild.BuildSystem.StaleFileRemoval
import LLBuild.Ninja.NormalizePath

/-!
# Paths by their names

Two tests compare paths as strings: the one for the roots of a removal of stale files, and the
one that hides links to a directory from its listing.  Both are meant to compare the names in
the paths.  They do so for paths without adjacent separators, where a string ends at the end
of a name.
-/

namespace LLBuild.BuildSystem

open List

open BinaryCoding Ninja.Path

/-! ### Names -/

variable (path : Bytes)

/-- The names in a path: its components that are not empty. -/
def names : List Bytes := (components path).filter (· ≠ [])

/-- The path starts at the root directory. -/
def IsAbsolute : Prop := path.head? = some slash

/-- No two separators are adjacent. -/
def IsTidy : Prop := ¬ [slash, slash] <:+: path

instance (path : Bytes) : Decidable (IsAbsolute path) :=
  inferInstanceAs (Decidable (path.head? = some slash))

instance (path : Bytes) : Decidable (IsTidy path) :=
  inferInstanceAs (Decidable (¬ [slash, slash] <:+: path))

theorem names_append (path rest : Bytes) :
  names (path ++ slash :: rest) = names path ++ names rest
  := by
  rw [names, components_append, filter_append]
  rfl

theorem atSeparator_pathText (visited : List Bytes) (rest : Bytes) (h : atSeparator rest) :
  atSeparator (pathText visited ++ rest)
  := by
  cases visited with
  | nil => exact h
  | cons name visited => rfl

/-- A tidy path has no empty component but the last one. -/
theorem forall_ne_nil_of_isTidy {visited : List Bytes} {last : Bytes}
    (h : IsTidy (pathText (visited ++ [last]))) :
  ∀ name ∈ visited, name ≠ []
  := by
  rintro name hname rfl
  obtain ⟨first, second, rfl⟩ := append_of_mem hname
  apply h
  cases second with
  | nil => exact ⟨pathText first, last, by simp [pathText]⟩
  | cons name second =>
    exact ⟨pathText first, name ++ pathText second ++ pathText [last], by simp [pathText]⟩

/-- A tidy absolute path consists of its names, up to a separator at its end. -/
theorem eq_pathText_names {path : Bytes} (habs : IsAbsolute path) (htidy : IsTidy path) :
  path = pathText (names path) ∨ path = pathText (names path) ++ [slash]
  := by
  obtain ⟨rest, rfl⟩ : ∃ rest, path = slash :: rest := head?_eq_some_iff.mp habs
  have hnames : names (slash :: rest) = (components rest).filter (· ≠ []) :=
    names_append [] rest
  obtain ⟨visited, last, hcomponents⟩ :=
    (components rest).eq_nil_or_concat'.resolve_left (components_ne_nil rest)
  have htext : slash :: rest = pathText (visited ++ [last]) := by
    rw [← hcomponents, pathText_components]
  rw [htext] at htidy
  have hvisited : visited.filter (· ≠ []) = visited := by
    simpa using forall_ne_nil_of_isTidy htidy
  rw [hnames, hcomponents, filter_append, hvisited, htext]
  cases last with
  | nil =>
    simp [pathText]
  | cons a last =>
    simp

/-- The names of a root are the first names of a path when the path continues the root at a
separator. -/
theorem names_isPrefix_of_append (root : Bytes) {rest : Bytes} (h : atSeparator rest) :
  names root <+: names (root ++ rest)
  := by
  cases rest with
  | nil => rw [append_nil]
  | cons a rest =>
    obtain rfl : a = slash := by
      apply eq_of_mem_pathSeparators
      · simpa [atSeparator] using h
      · decide
    rw [names_append]
    apply prefix_append

/-- The converse, for tidy absolute paths, if the root has no separator at its end. -/
theorem names_isPrefix_iff {root path : Bytes} (hroot : IsAbsolute root) (hpath : IsAbsolute path)
    (hroot' : IsTidy root) (hpath' : IsTidy path) (hlast : root.getLast? ≠ some slash) :
  names root <+: names path ↔ ∃ rest, path = root ++ rest ∧ atSeparator rest
  := by
  constructor
  · rintro ⟨more, hmore⟩
    have htext : root = pathText (names root) := by
      apply (eq_pathText_names hroot hroot').resolve_right
      intro h
      rw [h, getLast?_concat] at hlast
      exact hlast rfl
    have hpath := eq_pathText_names hpath hpath'
    rw [← hmore, pathText_append, ← htext] at hpath
    rcases hpath with h | h
    · exact ⟨_, h, by simpa using atSeparator_pathText more [] rfl⟩
    · rw [append_assoc] at h
      exact ⟨_, h, atSeparator_pathText more [slash] (by decide)⟩
  · rintro ⟨rest, rfl, hrest⟩
    exact names_isPrefix_of_append root hrest

/-- For tidy paths the test for roots without a separator at their end compares names. -/
theorem pathIsPrefixedByPath_of_isTidy {path root : Bytes}
    (hpath : IsAbsolute path) (hroot : IsAbsolute root) (hpath' : IsTidy path)
    (hroot' : IsTidy root) (hlast : root.getLast? ≠ some slash) :
  pathIsPrefixedByPath path root ↔ names root <+: names path
  := by
  rw [pathIsPrefixedByPath_iff_append, or_iff_left,
    names_isPrefix_iff hroot hpath hroot' hpath' hlast]
  rintro rfl
  exact hlast getLast?_concat

/-- The test compares names exactly if a path that has the names of the root continues the root at a
separator, or the root is the path with a separator at its end.  For tidy paths and a root without
a separator at its end this is so. -/
theorem pathIsPrefixedByPath_iff_names_iff (path root : Bytes) :
  ((pathIsPrefixedByPath path root ↔ names root <+: names path)
      ↔ (names root <+: names path →
        (∃ rest, path = root ++ rest ∧ atSeparator rest) ∨ root = path ++ [slash]))
    ∧ (IsAbsolute path → IsAbsolute root → IsTidy path → IsTidy root →
      root.getLast? ≠ some slash → (pathIsPrefixedByPath path root ↔ names root <+: names path))
  := by
  constructor
  · rw [pathIsPrefixedByPath_iff_append]
    constructor
    · exact Iff.mpr
    · intro hspelled
      refine ⟨?_, hspelled⟩
      rintro (⟨rest, rfl, hrest⟩ | rfl)
      · exact names_isPrefix_of_append root hrest
      · have hnames := names_append path []
        rw [show ascii "/" = [slash] from rfl, hnames]
        exact (append_nil (names path)).symm ▸ prefix_rfl
  · exact pathIsPrefixedByPath_of_isTidy

/-- A separator at the end of the root, the root directory and adjacent separators confuse
the test. -/
theorem not_pathIsPrefixedByPath_of_separator :
  (pathIsPrefixedByPath (ascii "/foo/bar") (ascii "/foo/") = false
      ∧ names (ascii "/foo/") <+: names (ascii "/foo/bar"))
    ∧ (pathIsPrefixedByPath (ascii "/foo") (ascii "/") = false
      ∧ names (ascii "/") <+: names (ascii "/foo"))
    ∧ (pathIsPrefixedByPath (ascii "/foo//bar/baz") (ascii "/foo/bar") = false
      ∧ names (ascii "/foo/bar") <+: names (ascii "/foo//bar/baz"))
  := by
  decide +kernel

/-! ### Listings -/

/-- A path without links, as the file system resolves it. -/
def IsRealPath : Prop :=
  IsAbsolute path ∧ IsTidy path ∧ (path.getLast? = some slash → path = [slash])

instance (path : Bytes) : Decidable (IsRealPath path) :=
  inferInstanceAs (Decidable (_ ∧ _ ∧ _))

/-- An entry of a directory.  The real path of a link is unknown if it does not resolve. -/
structure DirectoryEntry where
  name : Bytes
  isSymlinkFile : Bool := false
  realPath : Option Bytes := none
  isRealPath : ∀ target ∈ realPath, IsRealPath target

/-- Whether the listing of the directory at a path leaves out an entry: a link to a directory
above would never end. -/
def DirectoryEntry.isHidden (entry : DirectoryEntry) : Bool :=
  entry.isSymlinkFile && entry.realPath.any (·.isPrefixOf path)

/-- The listing of the directory at a path.  The entries are those the iteration reached. -/
def getContents (entries : List DirectoryEntry) : List Bytes :=
  ((entries.filter (!·.isHidden path)).map DirectoryEntry.name).insertionSort (· ≤ ·)

theorem components_append_of_notMem {name : Bytes} (hname : slash ∉ name) (rest : Bytes) :
  ∃ first more, components rest = first :: more ∧ components (name ++ rest) = (name ++ first) :: more
  := by
  induction name with
  | nil =>
    obtain ⟨first, more, hrest⟩ := exists_cons_of_ne_nil (components_ne_nil rest)
    exact ⟨first, more, hrest, hrest⟩
  | cons a name ih =>
    obtain ⟨ha, hname⟩ := not_or.mp (mt mem_cons.mpr hname)
    obtain ⟨first, more, hrest, happend⟩ := ih hname
    refine ⟨first, more, hrest, ?_⟩
    rw [components] at happend
    rw [components, cons_append, splitOn_cons_eq_if_modifyHead, happend]
    simp [Ne.symm ha]

/-- A path that starts with a real path, and with its names, continues it at a separator. -/
theorem atSeparator_of_names {target rest : Bytes} (htarget : IsRealPath target)
    (hroot : target ≠ [slash]) (hnames : names target <+: names (target ++ rest)) :
  atSeparator rest
  := by
  obtain ⟨habs, htidy, hlast⟩ := htarget
  cases rest with
  | nil => rfl
  | cons a rest =>
    by_contra hseparator
    have ha : slash ≠ a := by
      rintro rfl
      exact hseparator rfl
    have htext : target = pathText (names target) := by
      apply (eq_pathText_names habs htidy).resolve_right
      intro h
      exact hroot (hlast (by rw [h, getLast?_concat]))
    obtain hnil | ⟨visited, name, hvisited⟩ := (names target).eq_nil_or_concat'
    · rw [htext, hnil] at habs
      cases habs
    have hmem : name ∈ names target := by simp [hvisited]
    obtain ⟨hmem, hne⟩ := mem_filter.mp hmem
    have hslash := notMem_of_mem_components hmem
    have hstart : target = pathText visited ++ slash :: name := by
      rw [htext, hvisited, pathText_append]
      simp [pathText]
    -- The last name goes on in the path.
    obtain ⟨first, more, hfirst, happend⟩ := components_append_of_notMem hslash (a :: rest)
    obtain ⟨other, rest', -, hother⟩ := components_append_of_notMem
      (show slash ∉ [a] by simpa using ha) rest
    have hne' : first ≠ [] := by
      rw [singleton_append, hfirst] at hother
      rw [(cons.inj hother).1]
      exact cons_ne_nil _ _
    have hname : names name = [name] := by
      obtain ⟨x, xs, hx, happend⟩ := components_append_of_notMem hslash []
      obtain ⟨rfl, rfl⟩ : x = [] ∧ xs = [] := by
        have hempty : components [] = [[]] := rfl
        rw [hempty] at hx
        exact ⟨(cons.inj hx).1.symm, (cons.inj hx).2.symm⟩
      rw [append_nil] at happend
      rw [names, happend]
      simpa using hne
    rw [hstart, append_assoc, cons_append, names_append, names_append, prefix_append_right_inj,
      hname, names, happend, filter_cons_of_pos (by simp [hne'])] at hnames
    exact hne' (by simpa using (cons_prefix_cons.mp hnames).1)

/-- A link is hidden exactly if it leads to the directory or above it, for the links that neither
end inside a name of the directory's path, nor lead to a directory above that the path spells in
another way. -/
theorem isPrefix_iff_of_isRealPath {target path : Bytes} (htarget : IsRealPath target)
    (hpath : IsAbsolute path) :
  (target <+: path ↔ names target <+: names path)
    ↔ (target <+: path → target = [slash] ∨ atSeparator (path.drop target.length))
      ∧ (names target <+: names path → target <+: path)
  := by
  constructor
  · intro hiff
    refine ⟨fun hprefix => ?_, hiff.mpr⟩
    have hnames := hiff.mp hprefix
    obtain ⟨rest, rfl⟩ := hprefix
    rw [drop_left]
    by_cases hroot : target = [slash]
    · exact .inl hroot
    · exact .inr (atSeparator_of_names htarget hroot hnames)
  · rintro ⟨hends, hspelled⟩
    refine ⟨fun hprefix => ?_, hspelled⟩
    obtain ⟨rest, rfl⟩ := hprefix
    obtain rfl | hrest := hends (prefix_append _ _)
    · exact nil_prefix
    · rw [drop_left] at hrest
      exact names_isPrefix_of_append target hrest

/-- The listing omits the links to the directory and to the directories above it, and nothing
else, exactly if no link resolves to a path whose string ends inside a name of the directory's
path, or to a directory above that the path does not start with (because it is spelled with
adjacent separators). -/
theorem notMem_getContents_iff {path : Bytes} {entries : List DirectoryEntry}
    (hnames : (entries.map DirectoryEntry.name).Nodup) (hpath : IsAbsolute path) :
  (∀ entry ∈ entries, entry.name ∉ getContents path entries
      ↔ entry.isSymlinkFile ∧ ∃ target ∈ entry.realPath, names target <+: names path)
    ↔ ∀ entry ∈ entries, entry.isSymlinkFile → ∀ target ∈ entry.realPath,
      (target <+: path → target = [slash] ∨ atSeparator (path.drop target.length))
        ∧ (names target <+: names path → target <+: path)
  := by
  refine forall₂_congr fun entry hentry => ?_
  have hlisted : entry.name ∈ getContents path entries ↔ ¬ entry.isHidden path := by
    rw [getContents, mem_insertionSort, mem_map]
    constructor
    · rintro ⟨other, hother, hname⟩
      obtain ⟨hmem, hvisible⟩ := mem_filter.mp hother
      obtain rfl := inj_on_of_nodup_map hnames hmem hentry hname
      simpa using hvisible
    · intro hvisible
      exact ⟨entry, mem_filter.mpr ⟨hentry, by simpa using hvisible⟩, rfl⟩
  rw [hlisted, not_not, DirectoryEntry.isHidden, Bool.and_eq_true, Option.any_eq_true,
    and_congr_right_iff]
  refine forall_congr' fun _ => ?_
  cases hreal : entry.realPath with
  | none => simp
  | some target =>
    have htarget := entry.isRealPath target hreal
    simpa using isPrefix_iff_of_isRealPath htarget hpath

/-- A link to the directory `/a`. -/
def linkUp : DirectoryEntry := ⟨ascii "up", true, some (ascii "/a"), by decide⟩

theorem notMem_getContents_linkUp :
  linkUp.name ∉ getContents (ascii "/a/b") [⟨ascii "file", false, none, by decide⟩, linkUp]
    ↔ linkUp.isSymlinkFile ∧ ∃ target ∈ linkUp.realPath, names target <+: names (ascii "/a/b")
  := by
  refine (notMem_getContents_iff (by decide) (by decide)).mpr ?_ linkUp (by simp)
  decide +kernel

/-- A link to `/a/b` is left out of the listing of `/a/bc`. -/
theorem notMem_getContents_of_sibling :
  ascii "link" ∉ getContents (ascii "/a/bc")
      [⟨ascii "link", true, some (ascii "/a/b"), by decide⟩]
    ∧ ¬ names (ascii "/a/b") <+: names (ascii "/a/bc")
  := by
  decide +kernel

end LLBuild.BuildSystem

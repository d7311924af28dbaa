import LLBuild.Ninja.EvalString
import LLBuild.Ninja.Manifest
import LLBuild.Ninja.Path

/-!
# The normal forms of paths

`canonicalPath` says what the normal form of a path is: the components of the path are visited
from left to right with a stack of directories, where `.` and empty components are ignored
and `..` leaves a directory.  The loop of `normalizePath` computes it.

A manifest has one node for each normal form.
-/

namespace LLBuild.Ninja.Path

open List

open BinaryCoding Manifest

/-! ### Components -/

/-- The components of a path. -/
def components (path : Bytes) : List Bytes := path.splitOn slash

/-- Whether a component is the name of a file or a directory. -/
def isName (component : Bytes) : Bool :=
  component ≠ [] ∧ component ≠ [dot] ∧ component ≠ [dot, dot]

variable (stack : List Bytes)

/-- Visit a component, with the stack of the directories it is in. -/
def visit (component : Bytes) : List Bytes :=
  if component = [] ∨ component = [dot] then stack
  else if component = [dot, dot] then stack.dropLast
  else stack ++ [component]

/-- The path of a stack of directories. -/
def pathText : Bytes := stack.flatMap (slash :: ·)

/-- The components that are visited for a path: a relative path is one of the working
directory. -/
def visited (workingDirectory path : Bytes) : List Bytes :=
  if path.head? = some slash then components path
  else components workingDirectory ++ components path

/-- The end of the normal form of a path with some components: there is a separator if the
last component is not a name. -/
def ending (visited : List Bytes) : Bytes :=
  if visited.getLast?.any isName then [] else [slash]

/-- The normal form of a path. -/
def canonicalPath (workingDirectory path : Bytes) : Bytes :=
  pathText ((visited workingDirectory path).foldl visit [])
    ++ ending (visited workingDirectory path)

/-- The names of directories. -/
def AreNames : Prop := ∀ name ∈ stack, isName name = true ∧ slash ∉ name

variable {component : Bytes} {stack : List Bytes}

theorem areNames_visit (hstack : AreNames stack) (hslash : slash ∉ component) :
  AreNames (visit stack component)
  := by
  rw [visit]
  split_ifs with hempty hparent
  · exact hstack
  · exact fun name hname => hstack name (mem_of_mem_dropLast hname)
  · have hname : isName component = true := by simp [isName, hparent, not_or.mp hempty]
    exact forall_mem_append.mpr ⟨hstack, forall_mem_singleton.mpr ⟨hname, hslash⟩⟩

theorem areNames_foldl {visited : List Bytes} (hstack : AreNames stack)
    (hslash : ∀ component ∈ visited, slash ∉ component) :
  AreNames (visited.foldl visit stack)
  := by
  induction visited generalizing stack with
  | nil => exact hstack
  | cons component visited ih =>
    obtain ⟨hcomponent, hvisited⟩ := forall_mem_cons.mp hslash
    exact ih (areNames_visit hstack hcomponent) hvisited

theorem pathText_append (stack stack' : List Bytes) :
  pathText (stack ++ stack') = pathText stack ++ pathText stack'
  := flatMap_append

theorem pathText_singleton (name : Bytes) :
  pathText [name] = slash :: name
  := append_nil _

theorem close_pathText (hstack : AreNames stack) :
  close (pathText stack) = pathText stack ++ [slash]
  := by
  rw [close, if_neg]
  obtain rfl | ⟨stack, name, rfl⟩ := stack.eq_nil_or_concat'
  · rintro ⟨⟩
  · obtain ⟨hname, hslash⟩ := hstack name (mem_concat_self)
    have hne : name ≠ [] := by
      rintro rfl
      cases hname
    obtain ⟨name, c, rfl⟩ := name.eq_nil_or_concat'.resolve_left hne
    rw [pathText_append, pathText_singleton, ← cons_append, ← append_assoc, getLast?_concat]
    rintro ⟨⟩
    exact hslash mem_concat_self

theorem close_concat (out : Bytes) :
  close (out ++ [slash]) = out ++ [slash]
  := if_pos getLast?_concat

variable {rest : Bytes}

theorem Compacts.append {out name result : Bytes} (hslash : slash ∉ name)
    (h : Compacts (out ++ name) rest result) :
  Compacts out (name ++ rest) result
  := by
  induction name generalizing out with
  | nil =>
    rw [append_nil] at h
    exact h
  | cons c name ih =>
    rw [mem_cons, not_or] at hslash
    refine .copy (Ne.symm hslash.1) (ih hslash.2 ?_)
    rw [append_assoc]
    exact h

theorem Compacts.name {out name result : Bytes} (hname : isName name = true)
    (hslash : slash ∉ name) (h : Compacts (close out ++ name) rest result) :
  Compacts out (slash :: name ++ rest) result
  := by
  match name, hname, hslash with
  | [c], hname, hslash =>
    have hc : c ≠ dot := by
      rintro rfl
      cases hname
    exact .separator hc (h.append hslash)
  | c :: d :: name, hname, hslash =>
    obtain rfl | hc := eq_or_ne c dot
    · obtain rfl | hd := eq_or_ne d dot
      · match name, hname, hslash with
        | e :: name, hname, hslash =>
          have he : e ≠ slash := by
            rintro rfl
            exact hslash (by simp)
          exact .dotsName he (h.append hslash)
      · have hd' : d ≠ slash := by
          rintro rfl
          exact hslash (by simp)
        have hslash' : slash ∉ d :: name := fun hmem => hslash (mem_cons_of_mem _ hmem)
        refine .dotName hd hd' (Compacts.append hslash' ?_)
        rw [append_assoc]
        exact h
    · exact .separator hc (h.append hslash)

theorem ending_singleton (component : Bytes) :
  ending [component] = if isName component then [] else [slash]
  := rfl

/-- A component is visited: it is copied if it is a name, and otherwise a separator is
written behind the directories that remain. -/
theorem Compacts.visit {out result : Bytes} (hstack : AreNames stack) (hslash : slash ∉ component)
    (hout : close out = pathText stack ++ [slash]) (hrest : ∀ c ∈ rest.head?, c = slash)
    (h : Compacts (pathText (visit stack component) ++ ending [component]) rest result) :
  Compacts out (slash :: component ++ rest) result
  := by
  rw [ending_singleton, Path.visit] at h
  split_ifs at h with hempty hname hparent hname hname
  · obtain rfl | rfl := hempty
    · cases hname
    · cases hname
  · rw [← hout] at h
    obtain rfl | rfl := hempty
    · cases rest with
      | nil =>
        cases h
        exact .separatorEnd
      | cons c rest =>
        obtain rfl := hrest c rfl
        exact .separator (by decide) h
    · cases rest with
      | nil =>
        cases h
        exact .currentEnd
      | cons c rest =>
        obtain rfl := hrest c rfl
        exact .current h
  · subst hparent
    cases hname
  · subst hparent
    obtain rfl | ⟨stack, name, rfl⟩ := stack.eq_nil_or_concat'
    · cases rest with
      | nil =>
        cases h
        exact .rootEnd hout
      | cons c rest =>
        obtain rfl := hrest c rfl
        exact .root hout h
    · obtain ⟨hname, hslash⟩ := hstack name mem_concat_self
      have hne : name ≠ [] := by
        rintro rfl
        cases hname
      rw [pathText_append, pathText_singleton] at hout
      rw [dropLast_concat] at h
      cases rest with
      | nil =>
        cases h
        exact .parentEnd hout hne hslash
      | cons c rest =>
        obtain rfl := hrest c rfl
        exact .parent hout hne hslash h
  · rw [pathText_append, pathText_singleton, append_nil] at h
    apply Compacts.name hname hslash
    rw [hout, append_assoc]
    exact h
  · exact absurd (by simp [isName, hparent, not_or.mp hempty]) hname

/-- After a component, a path is empty or goes on with a separator. -/
theorem eq_slash_of_mem_head?_pathText (visited : List Bytes) :
  ∀ c ∈ (pathText visited).head?, c = slash
  := by
  cases visited with
  | nil => exact nofun
  | cons component visited =>
    rintro c ⟨⟩
    rfl

theorem close_pathText_append_ending (hstack : AreNames stack) (component : Bytes) :
  close (pathText stack ++ ending [component]) = pathText stack ++ [slash]
  := by
  rw [ending_singleton]
  split_ifs
  · rw [append_nil, close_pathText hstack]
  · apply close_concat

/-- The loop visits the components from left to right. -/
theorem compacts_pathText {visited : List Bytes} {out : Bytes}
    (hstack : AreNames stack) (hslash : ∀ name ∈ component :: visited, slash ∉ name)
    (hout : close out = pathText stack ++ [slash]) :
  Compacts out (pathText (component :: visited))
    (pathText ((component :: visited).foldl visit stack) ++ ending (component :: visited))
  := by
  induction visited generalizing stack component out with
  | nil =>
    have hcomponent := hslash component mem_cons_self
    have hend : ∀ c ∈ ([] : Bytes).head?, c = slash := by simp
    exact Compacts.visit hstack hcomponent hout hend .nil
  | cons next visited ih =>
    obtain ⟨hcomponent, hslash⟩ := forall_mem_cons.mp hslash
    have hstack' := areNames_visit hstack hcomponent
    apply Compacts.visit hstack hcomponent hout (eq_slash_of_mem_head?_pathText (next :: visited))
    exact ih hstack' hslash (close_pathText_append_ending hstack' component)

/-- The stack in the end has a name if the last component is one. -/
theorem pathText_append_ending_ne_nil {visited : List Bytes} (hvisited : visited ≠ [])
    (stack : List Bytes) :
  pathText (visited.foldl visit stack) ++ ending visited ≠ []
  := by
  obtain ⟨visited, component, rfl⟩ := visited.eq_nil_or_concat'.resolve_left hvisited
  rw [foldl_append, foldl_cons, ending, visit]
  split_ifs <;> simp_all [isName, pathText]

theorem components_ne_nil (path : Bytes) :
  components path ≠ []
  := splitOn_ne_nil _ _

variable {path : Bytes}

theorem notMem_of_mem_components (h : component ∈ components path) :
  slash ∉ component
  := by
  induction path generalizing component with
  | nil =>
    obtain rfl := mem_singleton.mp h
    exact not_mem_nil
  | cons c path ih =>
    rw [components, splitOn_cons_eq_if_modifyHead] at h
    split_ifs at h with hc
    · obtain rfl | h := mem_cons.mp h
      · exact not_mem_nil
      · exact ih h
    · rw [← components] at h
      cases hpath : components path with
      | nil => exact absurd hpath (components_ne_nil path)
      | cons first others =>
        rw [hpath] at h
        rw [hpath] at ih
        obtain rfl | h := mem_cons.mp h
        · rw [mem_cons, not_or]
          exact ⟨fun heq => hc (by simp [heq]), ih mem_cons_self⟩
        · exact ih (mem_cons_of_mem _ h)

theorem pathText_eq_intercalate {visited : List Bytes} (h : visited ≠ []) :
  pathText visited = slash :: [slash].intercalate visited
  := by
  induction visited with
  | nil => exact absurd rfl h
  | cons component visited ih =>
    cases visited with
    | nil => simp [pathText]
    | cons next visited =>
      rw [pathText, flatMap_cons, ← pathText, ih (cons_ne_nil _ _)]
      simp

/-- A path that starts with a separator is the sequence of its other components. -/
theorem pathText_components (rest : Bytes) :
  pathText (components rest) = slash :: rest
  := by
  rw [pathText_eq_intercalate (components_ne_nil rest), components, intercalate_splitOn]

theorem components_cons (rest : Bytes) :
  components (slash :: rest) = [] :: components rest
  := by
  rfl

/-! ### Absolute paths -/

/-- A separator that no other one follows is the root. -/
theorem findFirstComponent_slash (h : rest.head? ≠ some slash) :
  findFirstComponent (slash :: rest) = [slash]
  := by
  match rest, h with
  | [], _ => rfl
  | [c], _ => rfl
  | b :: c :: rest, h =>
    have hb : ¬ slash = b := by
      rintro rfl
      exact h rfl
    rw [findFirstComponent, if_neg (by simp [hb]), if_pos rfl]

theorem findFirstComponent_of_head (h : path.head? ≠ some slash) :
  findFirstComponent path = path.takeWhile (· ≠ slash)
  := by
  match path, h with
  | [], _ => rfl
  | [a], h => exact if_neg (fun ha => h (congrArg some ha))
  | [a, b], h => exact if_neg (fun ha => h (congrArg some ha))
  | a :: b :: c :: rest, h =>
    have ha : a ≠ slash := fun ha => h (congrArg some ha)
    rw [findFirstComponent, if_neg (ha ·.1), if_neg ha]

theorem head?_findFirstComponent (h : path.head? ≠ some slash) :
  (findFirstComponent path).head? ≠ some slash
  := by
  rw [findFirstComponent_of_head h]
  exact fun hhead => notMem_takeWhile_ne slash path (mem_of_mem_head? hhead)

theorem head?_findFirstComponent_slash (rest : Bytes) :
  (findFirstComponent (slash :: rest)).head? = some slash
  := by
  match rest with
  | [] => rfl
  | [c] => rfl
  | b :: c :: rest =>
    rw [findFirstComponent]
    split_ifs with hnet hroot
    · rfl
    · rfl
    · exact absurd rfl hroot

theorem hasNet_of_head (h : component.head? ≠ some slash) :
  hasNet component = false
  := by
  match component, h with
  | [], _ => rfl
  | [a], _ => rfl
  | [a, b], _ => rfl
  | a :: b :: c :: rest, h =>
    have ha : a ≠ slash := fun ha => h (congrArg some ha)
    simp [hasNet, ha]

theorem roots_of_head (h : path.head? ≠ some slash) :
  rootName path = [] ∧ rootDirectory path = [] ∧ rootPath path = []
  := by
  have hfirst := head?_findFirstComponent h
  simp [rootName, rootDirectory, rootPath, hasNet_of_head hfirst, hfirst]

theorem roots_of_slash (h : rest.head? ≠ some slash) :
  rootName (slash :: rest) = [] ∧ rootDirectory (slash :: rest) = [slash]
    ∧ rootPath (slash :: rest) = [slash]
  := by
  simp [rootName, rootDirectory, rootPath, findFirstComponent_slash h, hasNet]

theorem rootDirectory_ne_nil (h : rootName (slash :: rest) = []) :
  rootDirectory (slash :: rest) ≠ []
  := by
  have hfirst := head?_findFirstComponent_slash rest
  have hne : findFirstComponent (slash :: rest) ≠ [] := by
    intro hnil
    rw [hnil] at hfirst
    cases hfirst
  have hnet : hasNet (findFirstComponent (slash :: rest)) = false := by
    by_contra hnet
    rw [rootName, if_pos (Bool.of_not_eq_false hnet)] at h
    exact hne h
  simpa [rootDirectory, hnet, hfirst] using hne

/-- The normal form of an absolute path without a network name. -/
theorem normalizePath_eq {workingDirectory : Bytes}
    (hpath : makeAbsolute workingDirectory path = slash :: rest)
    (hname : rootName (slash :: rest) = []) :
  normalizePath workingDirectory path
    = .ok (some (pathText ((components (slash :: rest)).foldl visit [])
      ++ ending (components (slash :: rest))))
  := by
  obtain ⟨component, visited, hcomponents⟩ :=
    exists_cons_of_ne_nil (components_ne_nil rest)
  have hslash : ∀ name ∈ component :: visited, slash ∉ name := by
    rw [← hcomponents]
    exact fun name => notMem_of_mem_components
  have hnames : AreNames [] := nofun
  have hclose : close [] = pathText [] ++ [slash] := rfl
  have hcompacts := compacts_pathText hnames hslash hclose
  rw [← hcomponents, pathText_components] at hcompacts
  have hrewrites : Rewrites [] (slash :: rest) 0 0 [] (slash :: rest) :=
    ⟨Nat.le_refl _, Nat.zero_le _, rfl, rfl⟩
  obtain ⟨tmp, dst, hloop, hresult⟩ := hcompacts.normalizeLoop_eq hrewrites (Nat.lt_succ_self _)
  have habsolute : isAbsolute (slash :: rest) = true := by
    simpa [isAbsolute] using rootDirectory_ne_nil hname
  rw [normalizePath, hpath, hname]
  dsimp only
  rw [if_neg (by simp [habsolute]), show normalizeLoop [].length ((slash :: rest).length + 1)
    (slash :: rest) [].length [].length = .ok (tmp, dst) from hloop]
  simp only [bind, Except.bind, hresult, components_cons]
  rw [hcomponents]
  rfl

variable {w : Bytes}

theorem makeAbsolute_of_head (hw : w.head? ≠ some slash) (hpath : path.head? ≠ some slash) :
  makeAbsolute (slash :: w) path
    = if (slash :: w).getLast? = some slash then slash :: w ++ path
      else slash :: w ++ slash :: path
  := by
  obtain ⟨hname, hdirectory, hroot⟩ := roots_of_head hpath
  obtain ⟨-, hdirectory', hroot'⟩ := roots_of_slash hw
  have hstrip {string : Bytes} (h : string.head? ≠ some slash) :
      string.dropWhile (· = slash) = string := by
    cases string with
    | nil => rfl
    | cons c string => exact dropWhile_cons_of_neg (by simpa using h)
  have hdirectories : append (append (append [] []) [slash]) w = slash :: w := by
    rw [show append (append [] []) [slash] = [slash] by decide, append, hstrip hw]
    rfl
  rw [makeAbsolute, if_neg (not_not.mpr hdirectory), hname, hdirectory', relativePath, hroot',
    relativePath, hroot]
  simp only [foldl_cons, foldl_nil, length_singleton, length_nil,
    drop_succ_cons, drop_zero, hdirectories]
  rw [append]
  split_ifs with hlast hseparator
  · rw [hstrip hpath]
  · rw [append_assoc]
    rfl
  · exact absurd ⟨hpath, by simp [hname]⟩ hseparator

theorem components_append (path path' : Bytes) :
  components (path ++ slash :: path') = components path ++ components path'
  := splitOn_append_cons_self _ _

theorem ending_append {visited visited' : List Bytes} (h : visited' ≠ []) :
  ending (visited ++ visited') = ending visited'
  := by
  rw [ending, ending, getLast?_append_of_ne_nil _ h]

/-- The normal form of a path without a network name. -/
theorem normalizePath_eq_canonicalPath (hw : w.head? ≠ some slash) (hpath : rootName path = []) :
  normalizePath (slash :: w) path = .ok (some (canonicalPath (slash :: w) path))
  := by
  rw [canonicalPath, visited]
  by_cases hhead : path.head? = some slash
  · obtain ⟨rest, rfl⟩ := head?_eq_some_iff.mp hhead
    exact normalizePath_eq (if_pos (rootDirectory_ne_nil hpath)) hpath
  · rw [if_neg hhead]
    have habsolute := makeAbsolute_of_head hw hhead
    split_ifs at habsolute with hlast
    · -- The working directory ends with a separator, and so with an empty component.
      obtain ⟨front, hfront⟩ := getLast?_eq_some_iff.mp hlast
      have hrest : (w ++ path).head? ≠ some slash := by
        cases w with
        | nil => exact hhead
        | cons c w => exact hw
      have hcomponents : components (slash :: w ++ path)
          = components front ++ components path := by
        rw [hfront, append_assoc]
        exact components_append front path
      have hdirectory : components (slash :: w) = components front ++ [[]] := by
        rw [hfront]
        exact components_append front []
      rw [cons_append] at habsolute hcomponents
      rw [normalizePath_eq habsolute (roots_of_slash hrest).1, hcomponents, hdirectory,
        ending_append (components_ne_nil path), ending_append (components_ne_nil path),
        foldl_append, foldl_append, foldl_append]
      rfl
    · have hrest : (w ++ slash :: path).head? ≠ some slash := by
        cases w with
        | nil => exact absurd rfl hlast
        | cons c w => exact hw
      have hcomponents := components_append (slash :: w) path
      rw [cons_append] at habsolute hcomponents
      rw [normalizePath_eq habsolute (roots_of_slash hrest).1, hcomponents]

/-! ### Normal forms are fixed points -/

theorem components_pathText (hstack : AreNames stack) :
  components (pathText stack) = [] :: stack
  := by
  obtain rfl | hne := eq_or_ne stack []
  · rfl
  · rw [pathText_eq_intercalate hne, components_cons, components,
      splitOn_intercalate slash (fun name hname => (hstack name hname).2) hne]

theorem foldl_visit_names {names : List Bytes} (hnames : AreNames names) :
  names.foldl visit stack = stack ++ names
  := by
  induction names generalizing stack with
  | nil => exact (append_nil stack).symm
  | cons name names ih =>
    obtain ⟨⟨hname, -⟩, hnames⟩ := forall_mem_cons.mp hnames
    have hvisit : visit stack name = stack ++ [name] := by
      simp only [isName, decide_eq_true_eq] at hname
      rw [visit, if_neg (by simp [hname.1, hname.2.1]), if_neg hname.2.2]
    rw [foldl_cons, hvisit, ih hnames, append_assoc]
    rfl

theorem exists_eq_slash {ending : Bytes} (hstack : AreNames stack)
    (hending : ending = [] ∨ ending = [slash]) (hne : pathText stack ++ ending ≠ []) :
  ∃ rest, pathText stack ++ ending = slash :: rest ∧ rest.head? ≠ some slash
  := by
  cases stack with
  | nil =>
    obtain rfl | rfl := hending
    · exact absurd rfl hne
    · exact ⟨[], rfl, nofun⟩
  | cons name stack =>
    refine ⟨name ++ pathText stack ++ ending, rfl, ?_⟩
    obtain ⟨hname, hslash⟩ := hstack name mem_cons_self
    cases name with
    | nil => cases hname
    | cons c name =>
      rintro ⟨⟩
      exact hslash mem_cons_self

theorem ending_eq (visited : List Bytes) :
  ending visited = [] ∨ ending visited = [slash]
  := by
  rw [ending]
  split_ifs
  · exact Or.inl rfl
  · exact Or.inr rfl

/-- The path of a stack is what is found for its components. -/
theorem pathText_components_pathText {ending' : Bytes} (hstack : AreNames stack)
    (hending : ending' = [] ∨ ending' = [slash]) (hne : pathText stack ++ ending' ≠ []) :
  pathText ((components (pathText stack ++ ending')).foldl visit [])
    ++ ending (components (pathText stack ++ ending'))
    = pathText stack ++ ending'
  := by
  have hroot : visit [] [] = [] := rfl
  obtain rfl | rfl := hending
  · rw [append_nil] at hne ⊢
    rw [components_pathText hstack, foldl_cons, hroot, foldl_visit_names hstack, nil_append]
    obtain ⟨stack, name, rfl⟩ := stack.eq_nil_or_concat'.resolve_left
      (fun hnil => hne (by rw [hnil]; rfl))
    have hname := (hstack name mem_concat_self).1
    rw [← cons_append, ending_append (cons_ne_nil _ _), ending_singleton, if_pos hname, append_nil]
  · rw [components_append, components_pathText hstack, foldl_append, foldl_cons,
      foldl_visit_names hstack, ending_append (components_ne_nil [])]
    rfl

theorem notMem_of_mem_visited {workingDirectory : Bytes}
    (h : component ∈ visited workingDirectory path) :
  slash ∉ component
  := by
  rw [visited] at h
  split_ifs at h
  · exact notMem_of_mem_components h
  · obtain h | h := mem_append.mp h
    · exact notMem_of_mem_components h
    · exact notMem_of_mem_components h

theorem visited_ne_nil (workingDirectory path : Bytes) :
  visited workingDirectory path ≠ []
  := by
  rw [visited]
  split_ifs
  · exact components_ne_nil path
  · exact append_ne_nil_of_right_ne_nil _ (components_ne_nil path)

theorem areNames_visited (workingDirectory path : Bytes) :
  AreNames ((visited workingDirectory path).foldl visit [])
  := areNames_foldl nofun (fun _ => notMem_of_mem_visited)

theorem exists_canonicalPath_eq (workingDirectory path : Bytes) :
  ∃ rest, canonicalPath workingDirectory path = slash :: rest ∧ rest.head? ≠ some slash
  := exists_eq_slash (areNames_visited workingDirectory path) (ending_eq _)
    (pathText_append_ending_ne_nil (visited_ne_nil workingDirectory path) [])

theorem rootName_canonicalPath (workingDirectory path : Bytes) :
  rootName (canonicalPath workingDirectory path) = []
  := by
  obtain ⟨rest, hrest, hhead⟩ := exists_canonicalPath_eq workingDirectory path
  rw [hrest]
  exact (roots_of_slash hhead).1

/-- A normal form is its own normal form. -/
theorem canonicalPath_canonicalPath (workingDirectory workingDirectory' path : Bytes) :
  canonicalPath workingDirectory' (canonicalPath workingDirectory path)
    = canonicalPath workingDirectory path
  := by
  obtain ⟨rest, hrest, -⟩ := exists_canonicalPath_eq workingDirectory path
  have hhead : (canonicalPath workingDirectory path).head? = some slash := by
    rw [hrest]
    rfl
  conv_lhs => rw [canonicalPath, visited, if_pos hhead]
  exact pathText_components_pathText (areNames_visited workingDirectory path) (ending_eq _)
    (pathText_append_ending_ne_nil (visited_ne_nil workingDirectory path) [])

theorem isName_eq_false :
  isName component = false ↔ component ∈ [[], [dot], [dot, dot]]
  := by
  simp only [isName, decide_eq_false_iff_not, mem_cons]
  tauto

/-- A normal form ends with a separator if the last component of the path is not a name. -/
theorem getLast?_canonicalPath (workingDirectory path : Bytes) :
  (canonicalPath workingDirectory path).getLast? = some slash
    ↔ path = [] ∨ ∃ component ∈ (components path).getLast?,
      component ∈ [[], [dot], [dot, dot]]
  := by
  have hempty : path = [] → ∃ component ∈ (components path).getLast?,
      component ∈ [[], [dot], [dot, dot]] := by
    rintro rfl
    exact ⟨[], rfl, mem_cons_self⟩
  rw [or_iff_right_of_imp hempty]
  have hnames := areNames_visited workingDirectory path
  have hending : ending (visited workingDirectory path) = ending (components path) := by
    rw [visited]
    split_ifs
    · rfl
    · exact ending_append (components_ne_nil path)
  obtain ⟨front, component, hcomponents⟩ :=
    (components path).eq_nil_or_concat'.resolve_left (components_ne_nil path)
  rw [canonicalPath, hending, hcomponents, getLast?_concat,
    ending_append (cons_ne_nil _ _), ending_singleton]
  have hclose := close_pathText hnames
  split_ifs with hname
  · rw [append_nil]
    constructor
    · intro hlast
      rw [close, if_pos hlast] at hclose
      exact absurd hclose (by simp)
    · rintro ⟨_, ⟨⟩, hmem⟩
      rw [isName_eq_false.mpr hmem] at hname
      cases hname
  · rw [getLast?_concat]
    have hmem := isName_eq_false.mp (Bool.of_not_eq_true hname)
    exact ⟨fun _ => ⟨component, rfl, hmem⟩, fun _ => rfl⟩

/-! ### The nodes of paths -/

/-- The normal form of a path, if it has one. -/
def normalForm (workingDirectory path : Bytes) : Option Bytes :=
  (normalizePath workingDirectory path).toOption.join

theorem normalForm_eq (hw : w.head? ≠ some slash) (hpath : rootName path = []) :
  normalForm (slash :: w) path = some (canonicalPath (slash :: w) path)
  := by
  rw [normalForm, normalizePath_eq_canonicalPath hw hpath]
  rfl

/-- Look up the nodes of paths, one after the other. -/
def findOrCreateNodes (normalizePath : Bytes → Option Bytes) :
    List Bytes → Manifest → Option (List Manifest.Node × Manifest)
  | [], manifest => some ([], manifest)
  | path :: paths, manifest => do
      let (node, manifest) ← manifest.findOrCreateNode normalizePath path
      let (nodes, manifest) ← findOrCreateNodes normalizePath paths manifest
      return (node :: nodes, manifest)

/-- The nodes of paths without network names. -/
theorem exists_findOrCreateNodes (hw : w.head? ≠ some slash) {paths : List Bytes}
    (hpaths : ∀ path ∈ paths, rootName path = []) {manifest : Manifest} (hkeyed : manifest.Keyed) :
  ∃ nodes manifest', findOrCreateNodes (normalForm (slash :: w)) paths manifest
      = some (nodes, manifest')
    ∧ nodes.map Manifest.Node.canonicalPath = paths.map (canonicalPath (slash :: w))
    ∧ (∀ node ∈ nodes, manifest'.nodes.lookup node.canonicalPath = some node)
    ∧ ∀ path node, manifest.nodes.lookup path = some node →
      manifest'.nodes.lookup path = some node
  := by
  induction paths generalizing manifest with
  | nil => exact ⟨[], manifest, rfl, rfl, nofun, fun _ _ => id⟩
  | cons path paths ih =>
    obtain ⟨hpath, hpaths⟩ := forall_mem_cons.mp hpaths
    have hnormal := normalForm_eq hw hpath
    obtain ⟨⟨node, manifest₁⟩, hfound⟩ : ∃ found,
        manifest.findOrCreateNode (normalForm (slash :: w)) path = some found := by
      rw [findOrCreateNode, hnormal]
      exact ⟨_, rfl⟩
    obtain ⟨hnode, hkeyed₁, hlookup, hkept⟩ := findOrCreateNode_spec hkeyed hfound
    obtain ⟨nodes, manifest', hnodes, hmap, hall, hkept'⟩ := ih hpaths hkeyed₁
    refine ⟨node :: nodes, manifest', ?_, ?_, ?_, ?_⟩
    · rw [findOrCreateNodes, hfound]
      simp [hnodes]
    · rw [hnormal] at hnode
      rw [map_cons, map_cons, hmap, Option.some.inj hnode]
    · exact forall_mem_cons.mpr ⟨hkept' _ _ hlookup, hall⟩
    · exact fun other found hother => hkept' other found (hkept other found hother)

/-- **Path normalisation.**  Let a working directory start with one separator, and let paths
have no network names.  The normal form of each of them is what visiting its components with
a stack of directories makes of it, it ends with a separator if the path is empty or its last
component is empty, `.` or `..`, and it is its own normal form.  If the nodes of the paths are
looked up one after the other in a new manifest, two of them are the same just if the
normal forms of the paths are. -/
theorem normalizePath_components
    (hw : w.head? ≠ some slash) {paths : List Bytes} (hpaths : ∀ path ∈ paths, rootName path = []) :
  (∀ path ∈ paths,
    normalizePath (slash :: w) path = .ok (some (canonicalPath (slash :: w) path))
      ∧ ((canonicalPath (slash :: w) path).getLast? = some slash
        ↔ path = [] ∨ ∃ component ∈ (components path).getLast?,
          component ∈ [[], [dot], [dot, dot]])
      ∧ normalizePath (slash :: w) (canonicalPath (slash :: w) path)
        = .ok (some (canonicalPath (slash :: w) path)))
    ∧ ∃ nodes manifest, findOrCreateNodes (normalForm (slash :: w)) paths {}
        = some (nodes, manifest)
      ∧ nodes.length = paths.length
      ∧ ∀ (i j : ℕ) (path path' : Bytes) (node node' : Manifest.Node),
        paths[i]? = some path → paths[j]? = some path' →
        nodes[i]? = some node → nodes[j]? = some node' →
        (node = node' ↔ canonicalPath (slash :: w) path = canonicalPath (slash :: w) path')
  := by
  constructor
  · intro path hpath
    refine ⟨normalizePath_eq_canonicalPath hw (hpaths path hpath),
      getLast?_canonicalPath (slash :: w) path, ?_⟩
    rw [normalizePath_eq_canonicalPath hw (rootName_canonicalPath _ path),
      canonicalPath_canonicalPath]
  · obtain ⟨nodes, manifest, hnodes, hmap, hall, -⟩ :=
      exists_findOrCreateNodes hw hpaths keyed_empty
    have hpath {i : ℕ} {path : Bytes} {node : Manifest.Node}
        (hpath : paths[i]? = some path) (hnode : nodes[i]? = some node) :
        node.canonicalPath = canonicalPath (slash :: w) path := by
      have heq := congrArg (·[i]?) hmap
      simp only [getElem?_map, hpath, hnode] at heq
      exact Option.some.inj heq
    refine ⟨nodes, manifest, hnodes, by simpa using congrArg length hmap, ?_⟩
    intro i j path path' node node' hi hj hnode hnode'
    rw [← hpath hi hnode, ← hpath hj hnode']
    exact node_eq_iff (hall node (mem_of_getElem? hnode))
      (hall node' (mem_of_getElem? hnode'))

/-- Three spellings of a path and another path. -/
theorem normalizePath_components_four :
  (∀ path ∈ [ascii "a", ascii "b/.././a", ascii "/w//a", ascii "a/"],
    normalizePath (ascii "/w") path = .ok (some (canonicalPath (ascii "/w") path))
      ∧ ((canonicalPath (ascii "/w") path).getLast? = some slash
        ↔ path = [] ∨ ∃ component ∈ (components path).getLast?,
          component ∈ [[], [dot], [dot, dot]])
      ∧ normalizePath (ascii "/w") (canonicalPath (ascii "/w") path)
        = .ok (some (canonicalPath (ascii "/w") path)))
    ∧ ∃ nodes manifest, findOrCreateNodes (normalForm (ascii "/w"))
          [ascii "a", ascii "b/.././a", ascii "/w//a", ascii "a/"] {} = some (nodes, manifest)
      ∧ nodes.length = 4
      ∧ ∀ (i j : ℕ) (path path' : Bytes) (node node' : Manifest.Node),
        [ascii "a", ascii "b/.././a", ascii "/w//a", ascii "a/"][i]? = some path →
        [ascii "a", ascii "b/.././a", ascii "/w//a", ascii "a/"][j]? = some path' →
        nodes[i]? = some node → nodes[j]? = some node' →
        (node = node' ↔ canonicalPath (ascii "/w") path = canonicalPath (ascii "/w") path')
  := normalizePath_components (w := ascii "w") (by decide) (by decide)

end LLBuild.Ninja.Path

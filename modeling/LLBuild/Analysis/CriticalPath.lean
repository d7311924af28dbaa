import Mathlib.Algebra.Order.BigOperators.Group.List
import Mathlib.Algebra.Order.Group.Nat
import Mathlib.Data.List.Chain
import Mathlib.Data.List.MinMax
import Mathlib.Data.List.Perm.Subperm
import Mathlib.Data.List.Sublists

/-!
# Critical paths

`calculateCriticalPath` looks for the most expensive chain of dependencies in a
weighted graph whose elements are named by their positions in a collection.  The
path that ends at an element is computed from those that end at its dependencies and
kept in a cache.

A path that is found in the cache gets the element that asked for it appended; a path
that is computed on the way does not.  So the answer is right when every element comes
after its dependencies, and elements are lost otherwise.
-/

namespace LLBuild

open Option

open List

/-- A node of the weighted graph. -/
structure CriticalPath.Element (W : Type) where
  identifier : ℕ
  weight : W
  dependencies : List ℕ
  deriving DecidableEq

/-- A path with its cost; each element depends on the one before it. -/
structure CriticalPath (W : Type) where
  weight : W
  elements : List (CriticalPath.Element W)
  deriving DecidableEq

namespace CriticalPath

variable {W : Type}

/-! ### Chains of dependencies -/

/-- The identifiers are the positions in the collection, and every dependency is an
element of it. -/
structure IsCollection (elements : List (Element W)) : Prop where
  identifier : ∀ (i : ℕ) (e : Element W), elements[i]? = some e → e.identifier = i
  dependency : ∀ e ∈ elements, ∀ d ∈ e.dependencies, d < elements.length

/-- A list of elements of the graph in which each depends on the one before it. -/
structure IsDependencyChain (elements path : List (Element W)) : Prop where
  mem : ∀ e ∈ path, e ∈ elements
  chain : path.IsChain (fun e f => e.identifier ∈ f.dependencies)

variable (elements : List (Element W))

/-- No chain of dependencies visits an element twice. -/
def IsAcyclic : Prop :=
  ∀ path, IsDependencyChain elements path → path.Nodup

/-- Every element comes after its dependencies. -/
def IsSorted : Prop :=
  ∀ e ∈ elements, ∀ d ∈ e.dependencies, d < e.identifier

/-- A chain without repetitions is no longer than the collection. -/
theorem IsDependencyChain.length_le
    {elements path : List (Element W)} (hpath : IsDependencyChain elements path)
    (hacyclic : IsAcyclic elements) :
  path.length ≤ elements.length
  := by
  apply List.Subperm.length_le
  apply subperm_of_subset (hacyclic path hpath)
  exact hpath.mem

instance (elements : List (Element W)) : Decidable (IsSorted elements) :=
  inferInstanceAs (Decidable (∀ e ∈ elements, ∀ d ∈ e.dependencies, d < e.identifier))

/-- There is no cycle when some rank of the identifiers grows along every dependency. -/
theorem isAcyclic_of_rank
    {elements : List (Element W)} (rank : ℕ → ℕ)
    (hrank : ∀ e ∈ elements, ∀ d ∈ e.dependencies, rank d < rank e.identifier) :
  IsAcyclic elements
  := by
  intro path hpath
  have hgrow : path.IsChain (fun e f => rank e.identifier < rank f.identifier) := by
    apply hpath.chain.imp_of_mem_imp
    intro e f _ hf h
    apply hrank f (hpath.mem f hf) _ h
  have hpairwise : path.Pairwise (fun e f => rank e.identifier < rank f.identifier) := by
    rw [← pairwise_map (R := (· < ·)) (f := fun e : Element W => rank e.identifier)]
    rw [← isChain_iff_pairwise, isChain_map]
    exact hgrow
  apply hpairwise.imp
  rintro e f h rfl
  apply lt_irrefl _ h

theorem IsSorted.isAcyclic {elements : List (Element W)} (hsorted : IsSorted elements) :
  IsAcyclic elements
  := isAcyclic_of_rank id hsorted

/-- Elements are told apart by their identifiers. -/
theorem IsCollection.eq_of_identifier_eq
    {elements : List (Element W)} (hcollection : IsCollection elements) {e f : Element W}
    (he : e ∈ elements) (hf : f ∈ elements) (h : e.identifier = f.identifier) :
  e = f
  := by
  obtain ⟨i, hi⟩ := mem_iff_getElem?.mp he
  obtain ⟨j, hj⟩ := mem_iff_getElem?.mp hf
  rw [hcollection.identifier i e hi, hcollection.identifier j f hj] at h
  subst h
  rw [hi] at hj
  exact some.inj hj

variable {element : Element W}

/-- A chain that ends at an element is a chain that is empty or ends at a dependency of the
element, and the element. -/
theorem IsDependencyChain.exists_concat
    {elements : List (Element W)} (hcollection : IsCollection elements)
    (helement : element ∈ elements) {path : List (Element W)}
    (hpath : IsDependencyChain elements path)
    (hlast : path.getLast?.map Element.identifier = some element.identifier) :
  ∃ init, path = init ++ [element] ∧ IsDependencyChain elements init
    ∧ (init = [] ∨ ∃ d ∈ element.dependencies,
        init.getLast?.map Element.identifier = some d)
  := by
  obtain ⟨last, hget, hidentifier⟩ := map_eq_some_iff.mp hlast
  obtain ⟨init, rfl⟩ := getLast?_eq_some_iff.mp hget
  have hmem : last ∈ elements := hpath.mem last (by simp)
  obtain rfl := hcollection.eq_of_identifier_eq hmem helement hidentifier
  obtain ⟨hinit, -, hlink⟩ := isChain_append.mp hpath.chain
  refine ⟨init, rfl, ⟨fun e he => hpath.mem e (mem_append_left _ he), hinit⟩, ?_⟩
  cases hend : init.getLast? with
  | none =>
    left
    exact getLast?_eq_none_iff.mp hend
  | some e =>
    right
    exact ⟨e.identifier, hlink e hend last rfl, rfl⟩

/-! ### The computation -/

variable [AddCommMonoid W]

/-- The path with one element. -/
def single (element : Element W) : CriticalPath W := ⟨element.weight, [element]⟩

/-- The empty path costs nothing. -/
def empty : CriticalPath W := ⟨0, []⟩

/-- The path where `other` is appended to `path`. -/
def appending (path other : CriticalPath W) : CriticalPath W :=
  ⟨path.weight + other.weight, path.elements ++ other.elements⟩

variable (elements : List (Element W))

/-- The cost of a list of elements. -/
def cost : W := (elements.map Element.weight).sum

theorem cost_append (l₁ l₂ : List (Element W)) :
  cost (l₁ ++ l₂) = cost l₁ + cost l₂
  := by
  rw [cost, map_append, sum_append]
  rfl

/-- The computed paths, by identifier. -/
abbrev Cache (W : Type) : Type := List (Option (CriticalPath W))

variable [LinearOrder W]

/-- The path that ends at an element, for a caller that wants `tail` appended.  There is
no result if an identifier is out of range or if the fuel does not suffice. -/
def generatePath (elements : List (Element W)) :
    ℕ → Element W → CriticalPath W → StateT (Cache W) Option (CriticalPath W)
  | 0, _, _ => failure
  | fuel + 1, element, tail => do
    match (← get)[element.identifier]? with
    | none => failure
    | some (some cached) => pure (cached.appending tail)
    | some none =>
      let newPath := single element
      let paths ← element.dependencies.mapM fun dependency =>
        match elements[dependency]? with
        | none => failure
        | some element => generatePath elements fuel element newPath
      -- The tail is not appended here.
      let maxPath := (paths.argmax CriticalPath.weight).getD newPath
      modify (·.set element.identifier (some maxPath))
      pure maxPath

/-- The critical path of a collection of elements.  In a graph without cycles no call of
`generatePath` is nested deeper than the number of elements. -/
def calculateCriticalPath (elements : List (Element W)) : Option (CriticalPath W) :=
  if elements.isEmpty then some empty
  else do
    let generate := elements.mapM fun element =>
      generatePath elements elements.length element empty
    let (paths, _) ← generate.run (replicate elements.length none)
    some ((paths.argmax CriticalPath.weight).getD empty)

/-! ### Computations on every element of a list

A computation with a state that may fail is made for each element of a list in turn. -/

section MapState

variable {α β σ : Type} {f : α → StateT σ Option β}

/-- The first computation, then those for the other elements. -/
theorem run_mapM_cons (f : α → StateT σ Option β) (a : α) (l : List α) (s : σ) :
  ((a :: l).mapM f).run s
    = ((f a).run s).bind (fun r => ((l.mapM f).run r.2).map (fun rs => (r.1 :: rs.1, rs.2)))
  := by
  simp

/-- If each computation succeeds and keeps an invariant, all of them together do. -/
theorem exists_run_mapM
    {l : List α} {inv : σ → Prop}
    (hf : ∀ a ∈ l, ∀ s, inv s → ∃ b s', (f a).run s = some (b, s') ∧ inv s') {s : σ} (hs : inv s) :
  ∃ bs s', (l.mapM f).run s = some (bs, s') ∧ inv s'
  := by
  induction l generalizing s with
  | nil => exact ⟨[], s, rfl, hs⟩
  | cons a l ih =>
    obtain ⟨b, s₁, hb, hs₁⟩ := hf a mem_cons_self s hs
    obtain ⟨bs, s₂, hbs, hs₂⟩ := ih (fun c hc => hf c (mem_cons_of_mem a hc)) hs₁
    use b :: bs, s₂
    constructor
    · rw [run_mapM_cons, hb, bind_some, hbs, map_some]
    · exact hs₂

/-- If a computation that succeeds leads from the invariant of its position to the one of
the next, and its value is right, then all values are. -/
theorem right_of_run_mapM
    {l : List α} (inv : ℕ → σ → Prop) (right : α → β → Prop) (start : ℕ)
    (hf : ∀ i a s b s', l[i]? = some a → inv (start + i) s → (f a).run s = some (b, s') →
      right a b ∧ inv (start + i + 1) s')
    {s s' : σ} (hs : inv start s) {bs : List β} (h : (l.mapM f).run s = some (bs, s')) :
  (∀ a ∈ l, ∃ b ∈ bs, right a b) ∧ (∀ b ∈ bs, ∃ a ∈ l, right a b)
    ∧ inv (start + l.length) s'
  := by
  induction l generalizing start s bs with
  | nil =>
    cases h
    simpa using hs
  | cons a l ih =>
    rw [run_mapM_cons] at h
    obtain ⟨⟨b, s₁⟩, hb, h⟩ := bind_eq_some_iff.mp h
    obtain ⟨⟨rest, s₂⟩, hrest, h⟩ := map_eq_some_iff.mp h
    cases h
    obtain ⟨hright, hs₁⟩ := hf 0 a s b s₁ rfl hs hb
    have hstep : ∀ i c t d t', l[i]? = some c → inv (start + 1 + i) t →
        (f c).run t = some (d, t') → right c d ∧ inv (start + 1 + i + 1) t' := by
      intro i c t d t' hc ht hd
      rw [Nat.add_right_comm] at ht
      obtain ⟨hcd, ht'⟩ := hf (i + 1) c t d t' hc ht hd
      rw [← Nat.add_assoc, Nat.add_right_comm start i 1] at ht'
      exact ⟨hcd, ht'⟩
    obtain ⟨hvalues, hinputs, hend⟩ := ih (start + 1) hstep hs₁ hrest
    rw [length_cons, Nat.add_comm l.length, ← Nat.add_assoc, forall_mem_cons, forall_mem_cons]
    refine ⟨⟨⟨b, mem_cons_self, hright⟩, ?_⟩, ⟨⟨a, mem_cons_self, hright⟩, ?_⟩, hend⟩
    · intro c hc
      obtain ⟨d, hd, hcd⟩ := hvalues c hc
      exact ⟨d, mem_cons_of_mem b hd, hcd⟩
    · intro d hd
      obtain ⟨c, hc, hcd⟩ := hinputs d hd
      exact ⟨c, mem_cons_of_mem a hc, hcd⟩

end MapState

/-! ### What a call of `generatePath` does -/

variable (elements : List (Element W))

variable (fuel : ℕ)

/-- A path in the cache is returned with the tail appended. -/
theorem run_generatePath_cached
    (element : Element W) (tail : CriticalPath W)
    {cache : Cache W} {cached : CriticalPath W}
    (h : cache[element.identifier]? = some (some cached)) :
  (generatePath elements (fuel + 1) element tail).run cache
    = some (cached.appending tail, cache)
  := by
  rw [generatePath]
  simp [h]

/-- The path for one dependency of an element. -/
def generateDependency (newPath : CriticalPath W)
    (dependency : ℕ) : StateT (Cache W) Option (CriticalPath W) :=
  match elements[dependency]? with
  | none => failure
  | some element => generatePath elements fuel element newPath

/-- A path that is not in the cache is the best of those of the dependencies, and is put
into the cache. -/
theorem run_generatePath_uncached
    (element : Element W) (tail : CriticalPath W)
    {cache : Cache W} (h : cache[element.identifier]? = some none) :
  (generatePath elements (fuel + 1) element tail).run cache
    = ((element.dependencies.mapM
        (generateDependency elements fuel (single element))).run cache).map fun paths =>
      ((paths.1.argmax CriticalPath.weight).getD (single element),
        paths.2.set element.identifier
          (some ((paths.1.argmax CriticalPath.weight).getD (single element))))
  := by
  rw [generatePath]
  simp only [map_eq_bind]
  simp [h]
  rfl

/-- The critical path is the best of the paths that end at the elements. -/
theorem calculateCriticalPath_eq :
  calculateCriticalPath elements
    = ((elements.mapM
        (generatePath elements elements.length · empty)).run
          (replicate elements.length none)).map
        (fun paths => (paths.1.argmax CriticalPath.weight).getD empty)
  := by
  rw [calculateCriticalPath]
  cases elements with
  | nil => rfl
  | cons e elements =>
    rw [map_eq_bind]
    rfl

/-! ### Every graph without cycles has a result -/

variable {fuel i : ℕ}

/-- The fuel suffices when it makes up for what is left of the longest chain: `above` are
the elements whose paths are being computed. -/
theorem exists_run_generatePath
    {elements : List (Element W)} (hcollection : IsCollection elements)
    (hacyclic : IsAcyclic elements)
    {above : List (Element W)} (hchain : IsDependencyChain elements (element :: above))
    (hfuel : elements.length ≤ fuel + above.length) (tail : CriticalPath W)
    {cache : Cache W} (hcache : cache.length = elements.length) :
  ∃ path cache', (generatePath elements fuel element tail).run cache = some (path, cache')
    ∧ cache'.length = elements.length
  := by
  induction fuel generalizing element above tail cache with
  | zero =>
    have hle := hchain.length_le hacyclic
    rw [length_cons] at hle
    omega
  | succ fuel ih =>
    obtain ⟨i, hi, hget⟩ := mem_iff_getElem.mp (hchain.mem element mem_cons_self)
    have hidentifier : element.identifier = i := by
      apply hcollection.identifier
      rw [getElem?_eq_getElem hi, hget]
    have hlt : element.identifier < cache.length := by
      rw [hidentifier, hcache]
      exact hi
    cases hcached : cache.get ⟨element.identifier, hlt⟩ with
    | some cached =>
      have hentry : cache[element.identifier]? = some (some cached) := by
        rw [getElem?_eq_getElem hlt, ← hcached]
        rfl
      exact ⟨_, _, run_generatePath_cached elements fuel element tail hentry, hcache⟩
    | none =>
      have hentry : cache[element.identifier]? = some none := by
        rw [getElem?_eq_getElem hlt, ← hcached]
        rfl
      rw [run_generatePath_uncached elements fuel element tail hentry]
      have hdependencies : ∀ d ∈ element.dependencies, ∀ c : Cache W,
          c.length = elements.length →
          ∃ path c', (generateDependency elements fuel (single element) d).run c
            = some (path, c') ∧ c'.length = elements.length := by
        intro d hd c hc
        have hdlt := hcollection.dependency element (hchain.mem element mem_cons_self) d hd
        have hget : elements[d]? = some (elements.get ⟨d, hdlt⟩) := getElem?_eq_getElem hdlt
        have hd' := hcollection.identifier d _ hget
        rw [generateDependency, hget]
        refine @ih _ (element :: above) ?_ ?_ _ _ hc
        · constructor
          · rw [forall_mem_cons]
            exact ⟨get_mem _ _, hchain.mem⟩
          · rw [isChain_cons_cons, hd']
            exact ⟨hd, hchain.chain⟩
        · rw [length_cons]
          omega
      obtain ⟨paths, cache', hrun, hlength⟩ := exists_run_mapM hdependencies hcache
      rw [hrun]
      refine ⟨_, _, rfl, ?_⟩
      rw [length_set]
      exact hlength

/-- The computation returns for every graph without cycles, in whatever order its elements
are given. -/
theorem exists_calculateCriticalPath
    {elements : List (Element W)} (hcollection : IsCollection elements)
    (hacyclic : IsAcyclic elements) :
  ∃ path, calculateCriticalPath elements = some path
  := by
  have hstep : ∀ e ∈ elements, ∀ c : Cache W, c.length = elements.length →
      ∃ path c', (generatePath elements elements.length e empty).run c = some (path, c')
        ∧ c'.length = elements.length := by
    intro e he c hc
    have hchain : IsDependencyChain elements [e] := by
      constructor
      · simpa using he
      · apply isChain_singleton
    apply exists_run_generatePath hcollection hacyclic hchain (Nat.le_add_right _ _) _ hc
  have hcache : (replicate elements.length (none : Option (CriticalPath W))).length
      = elements.length := length_replicate
  obtain ⟨paths, cache, hrun, -⟩ := exists_run_mapM hstep hcache
  rw [calculateCriticalPath_eq, hrun]
  exact ⟨_, rfl⟩

/-! ### Elements that come after their dependencies -/

/-- The path `path` is the most expensive one of those that end at the element `i`. -/
structure IsBest (elements : List (Element W)) (i : ℕ) (path : CriticalPath W) : Prop where
  chain : IsDependencyChain elements path.elements
  last : path.elements.getLast?.map Element.identifier = some i
  weight_eq : path.weight = cost path.elements
  maximal : ∀ other, IsDependencyChain elements other →
    other.getLast?.map Element.identifier = some i → cost other ≤ path.weight

/-- The cache holds best paths only, and those of the first `i` elements. -/
structure IsFilled (elements : List (Element W)) (i : ℕ) (cache : Cache W) : Prop where
  length : cache.length = elements.length
  best : ∀ (j : ℕ) (path : CriticalPath W), cache[j]? = some (some path) →
    IsBest elements j path
  filled : ∀ j < i, ∃ path : CriticalPath W, cache[j]? = some (some path)

variable [IsOrderedAddMonoid W]

theorem cost_nonneg
    {elements path : List (Element W)} (hweight : ∀ e ∈ elements, 0 ≤ e.weight)
    (hpath : IsDependencyChain elements path) :
  0 ≤ cost path
  := by
  apply sum_nonneg
  intro w hw
  obtain ⟨e, he, rfl⟩ := mem_map.mp hw
  apply hweight e (hpath.mem e he)

/-- The best of the paths to the dependencies, each continued to the element, is the best
path to the element. -/
theorem IsBest.of_dependencies
    {elements : List (Element W)} (hcollection : IsCollection elements)
    (hweight : ∀ e ∈ elements, 0 ≤ e.weight)
    (helement : element ∈ elements) {paths : List (CriticalPath W)}
    (hpaths : ∀ d ∈ element.dependencies, ∃ path ∈ paths, ∃ before,
      IsBest elements d before ∧ path = before.appending (single element))
    (hdependencies : ∀ path ∈ paths, ∃ d ∈ element.dependencies, ∃ before,
      IsBest elements d before ∧ path = before.appending (single element)) :
  IsBest elements element.identifier ((paths.argmax CriticalPath.weight).getD (single element))
  := by
  have hsingle : IsDependencyChain elements [element] := by
    constructor
    · simpa using helement
    · apply isChain_singleton
  -- A chain to the element that does not come from a dependency is the element alone.
  have hbelow : ∀ other, IsDependencyChain elements other →
      other.getLast?.map Element.identifier = some element.identifier →
      cost other = element.weight ∨ ∃ path ∈ paths, cost other ≤ path.weight := by
    intro other hother hlast
    obtain ⟨init, rfl, hinit, hend⟩ := hother.exists_concat hcollection helement hlast
    rw [cost_append]
    cases hend with
    | inl hnil =>
      rw [hnil]
      simp [cost]
    | inr hdependency =>
      right
      obtain ⟨d, hd, hdlast⟩ := hdependency
      obtain ⟨path, hmem, before, hbefore, rfl⟩ := hpaths d hd
      refine ⟨_, hmem, ?_⟩
      rw [cost, cost, map_singleton, sum_singleton]
      apply add_le_add_left (hbefore.maximal init hinit hdlast)
  cases hmax : paths.argmax CriticalPath.weight with
  | none =>
    have hnil : paths = [] := argmax_eq_none.mp hmax
    constructor
    · exact hsingle
    · rfl
    · simp [single, cost]
    · intro other hother hlast
      cases hbelow other hother hlast with
      | inl h => rw [h]; rfl
      | inr h =>
        obtain ⟨path, hpath, -⟩ := h
        rw [hnil] at hpath
        cases hpath
  | some best =>
    have hmem : best ∈ paths := argmax_mem hmax
    obtain ⟨d, hd, before, hbefore, rfl⟩ := hdependencies best hmem
    obtain ⟨last, hlast, hidentifier⟩ := map_eq_some_iff.mp hbefore.last
    constructor
    · constructor
      · intro e he
        cases mem_append.mp he with
        | inl he => exact hbefore.chain.mem e he
        | inr he => exact hsingle.mem e he
      · apply List.IsChain.append hbefore.chain.chain hsingle.chain
        intro x hx y hy
        rw [hlast] at hx
        cases hx
        cases hy
        rw [hidentifier]
        exact hd
    · simp [appending, single]
    · rw [getD_some, appending, hbefore.weight_eq]
      simp [single, cost]
    · intro other hother hlast
      cases hbelow other hother hlast with
      | inl h =>
        rw [h, appending, hbefore.weight_eq]
        apply le_add_of_nonneg_left (cost_nonneg hweight hbefore.chain)
      | inr h =>
        obtain ⟨path, hpath, hle⟩ := h
        apply le_trans hle (le_of_mem_argmax hpath hmax)

omit [IsOrderedAddMonoid W] in
/-- What is found for a dependency that comes before the element. -/
theorem IsFilled.generateDependency
    {elements : List (Element W)} (hcollection : IsCollection elements) {cache cache' : Cache W}
    (hcache : IsFilled elements i cache) {d : ℕ} (hd : d < i) {newPath path : CriticalPath W}
    (h : (generateDependency elements fuel newPath d).run cache = some (path, cache')) :
  (∃ before, IsBest elements d before ∧ path = before.appending newPath) ∧ cache' = cache
  := by
  rw [CriticalPath.generateDependency] at h
  cases hget : elements[d]? with
  | none => rw [hget] at h; cases h
  | some element =>
    rw [hget] at h
    cases fuel with
    | zero => cases h
    | succ fuel =>
      obtain ⟨before, hbefore⟩ := hcache.filled d hd
      have hidentifier := hcollection.identifier d element hget
      have hentry : cache[element.identifier]? = some (some before) := by
        rw [hidentifier, hbefore]
      rw [run_generatePath_cached elements fuel element newPath hentry] at h
      cases h
      exact ⟨⟨before, hcache.best d before hbefore, rfl⟩, rfl⟩

/-- The call for an element whose predecessors are done returns the best path and puts it
into the cache. -/
theorem IsFilled.generatePath
    {elements : List (Element W)} (hcollection : IsCollection elements)
    (hsorted : IsSorted elements) (hweight : ∀ e ∈ elements, 0 ≤ e.weight)
    (hget : elements[i]? = some element) {cache cache' : Cache W}
    (hcache : IsFilled elements i cache) {path : CriticalPath W}
    (h : (generatePath elements fuel element empty).run cache = some (path, cache')) :
  IsBest elements element.identifier path ∧ IsFilled elements (i + 1) cache'
  := by
  have hidentifier := hcollection.identifier i element hget
  have helement : element ∈ elements := List.mem_of_getElem? hget
  have hlt : i < cache.length := by
    rw [hcache.length]
    exact (List.getElem?_eq_some_iff.mp hget).1
  cases fuel with
  | zero => cases h
  | succ fuel =>
    cases hentry : cache.get ⟨i, hlt⟩ with
    | some cached =>
      have hcached : cache[i]? = some (some cached) := by
        rw [List.getElem?_eq_getElem hlt, ← hentry]
        rfl
      have hentry : cache[element.identifier]? = some (some cached) := by
        rw [hidentifier, hcached]
      rw [run_generatePath_cached elements fuel element empty hentry] at h
      cases h
      have happend : cached.appending empty = cached := by
        simp [appending, empty]
      rw [happend, hidentifier]
      refine ⟨hcache.best i cached hcached, hcache.length, hcache.best, ?_⟩
      intro j hj
      rcases Nat.lt_succ_iff_lt_or_eq.mp hj with hj | rfl
      · exact hcache.filled j hj
      · exact ⟨cached, hcached⟩
    | none =>
      have huncached : cache[element.identifier]? = some none := by
        rw [hidentifier, List.getElem?_eq_getElem hlt, ← hentry]
        rfl
      rw [run_generatePath_uncached elements fuel element empty huncached] at h
      obtain ⟨⟨paths, c⟩, hrun, h⟩ := map_eq_some_iff.mp h
      cases h
      -- Every dependency is found in the cache, which stays as it is.
      obtain ⟨hpaths, hdependencies, hsame⟩ := right_of_run_mapM (fun _ c => c = cache)
        (fun d path => ∃ before,
          IsBest elements d before ∧ path = before.appending (single element)) 0
        (by
          rintro k d c path c' hk rfl hd
          have hdlt : d < i := by
            rw [← hidentifier]
            exact hsorted element helement d (List.mem_of_getElem? hk)
          exact hcache.generateDependency hcollection hdlt hd) rfl hrun
      subst hsame
      have hbest := IsBest.of_dependencies hcollection hweight helement hpaths hdependencies
      refine ⟨hbest, ?_, ?_, ?_⟩
      · rw [List.length_set]
        exact hcache.length
      · intro j q hq
        rw [List.getElem?_set] at hq
        split at hq
        next hj =>
          subst hj
          rw [if_pos (by rw [hidentifier]; exact hlt)] at hq
          cases hq
          exact hbest
        next => exact hcache.best j q hq
      · intro j hj
        rcases Nat.lt_succ_iff_lt_or_eq.mp hj with hj | rfl
        · rw [List.getElem?_set_ne (by omega)]
          exact hcache.filled j hj
        · rw [hidentifier, List.getElem?_set_self hlt]
          exact ⟨_, rfl⟩

/-- For a collection in which every element comes after its dependencies, the result is a
chain of dependencies that costs what it says, and no chain costs more. -/
theorem calculateCriticalPath_maximal
    (elements : List (Element W)) (hcollection : IsCollection elements)
    (hweight : ∀ e ∈ elements, 0 ≤ e.weight) (hsorted : IsSorted elements) :
  ∃ path, calculateCriticalPath elements = some path
    ∧ IsDependencyChain elements path.elements
    ∧ path.weight = cost path.elements
    ∧ ∀ other, IsDependencyChain elements other → cost other ≤ path.weight
  := by
  obtain ⟨path, hpath⟩ := exists_calculateCriticalPath hcollection hsorted.isAcyclic
  refine ⟨path, hpath, ?_⟩
  rw [calculateCriticalPath_eq] at hpath
  obtain ⟨⟨paths, cache⟩, hrun, hmax⟩ := map_eq_some_iff.mp hpath
  have hstart : IsFilled elements 0 (replicate elements.length none) := by
    constructor
    · apply length_replicate
    · intro j q hq
      rw [getElem?_replicate] at hq
      split at hq <;> cases hq
    · intro j hj
      cases hj
  obtain ⟨hvalues, hinputs, -⟩ := right_of_run_mapM (IsFilled elements)
    (fun e path => IsBest elements e.identifier path) 0
    (by
      intro i e c q c' hi hc hq
      rw [Nat.zero_add] at hc ⊢
      exact hc.generatePath hcollection hsorted hweight hi hq) hstart hrun
  cases hbest : paths.argmax CriticalPath.weight with
  | none =>
    have hempty : ∀ e, e ∉ elements := by
      intro e he
      obtain ⟨q, hq, -⟩ := hvalues e he
      rw [argmax_eq_none.mp hbest] at hq
      cases hq
    rw [hbest] at hmax
    subst hmax
    refine ⟨⟨?_, isChain_nil⟩, rfl, ?_⟩
    · intro e he
      cases he
    · intro other hother
      cases other with
      | nil => rfl
      | cons e other => exact absurd (hother.mem e mem_cons_self) (hempty e)
  | some best =>
    obtain ⟨e, -, hright⟩ := hinputs best (argmax_mem hbest)
    rw [hbest] at hmax
    subst hmax
    refine ⟨hright.chain, hright.weight_eq, ?_⟩
    intro other hother
    cases hlast : other.getLast? with
    | none =>
      rw [getLast?_eq_none_iff.mp hlast, getD_some, hright.weight_eq]
      apply cost_nonneg hweight hright.chain
    | some f =>
      obtain ⟨q, hq, hqbest⟩ := hvalues f (hother.mem f (mem_of_getLast? hlast))
      calc cost other
        _ ≤ q.weight := hqbest.maximal other hother (by rw [hlast]; rfl)
        _ ≤ best.weight := le_of_mem_argmax hq hbest

/-- Two elements of which the second depends on the first. -/
theorem calculateCriticalPath_maximal_pair :
  ∃ path : CriticalPath ℕ, calculateCriticalPath [⟨0, 2, []⟩, ⟨1, 1, [0]⟩] = some path
    ∧ IsDependencyChain [⟨0, 2, []⟩, ⟨1, 1, [0]⟩] path.elements
    ∧ path.weight = cost path.elements
    ∧ ∀ other, IsDependencyChain [⟨0, 2, []⟩, ⟨1, 1, [0]⟩] other → cost other ≤ path.weight
  := by
  apply calculateCriticalPath_maximal
  · constructor
    · intro i e he
      rcases i with _ | _ | i <;> cases he <;> rfl
    · decide
  · decide
  · decide

/-- When the element that depends on the other comes first, it is not on the path that is
computed, though the chain of both costs more. -/
theorem calculateCriticalPath_not_maximal :
  IsAcyclic [⟨0, 1, [1]⟩, (⟨1, 2, []⟩ : Element ℕ)]
    ∧ calculateCriticalPath [⟨0, 1, [1]⟩, ⟨1, 2, []⟩] = some ⟨2, [⟨1, 2, []⟩]⟩
    ∧ IsDependencyChain [⟨0, 1, [1]⟩, ⟨1, 2, []⟩] [⟨1, 2, []⟩, ⟨0, 1, [1]⟩]
    ∧ cost [⟨1, 2, []⟩, ⟨0, 1, [1]⟩] = 3
  := by
  refine ⟨?_, by decide, ⟨by decide, by decide⟩, by decide⟩
  apply isAcyclic_of_rank (fun i => 1 - i)
  decide

end CriticalPath

end LLBuild

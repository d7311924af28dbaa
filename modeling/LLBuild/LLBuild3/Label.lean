import Mathlib.Data.List.Basic

/-!
# Labels and label tries

A label names a rule, a task, an artifact or a function.  A trie maps labels to entries
along their components.  In an exact trie the entry of a label is found under the node of
its last component, by the label's name or else that component; in a trie of prefixes the
entry is the node of the last component, and a lookup returns the first entry on its way.

What a lookup finds after an insertion is the entry inserted or what it found before
(`LabelTrie.find_insert`).
-/

namespace LLBuild3

open List

/-- The name of a rule, a task, an artifact or a function. -/
structure Label where
  components : List String := []
  name : String := ""
deriving DecidableEq

/-- The canonical form of a label: the components after `//`, then the name after `:`. -/
def labelAsCanonicalString (label : Label) : String :=
  "//" ++ "/".intercalate label.components
    ++ (if label.name.isEmpty then "" else ":" ++ label.name)

/-- A node of a trie: further nodes by name, or an entry. -/
inductive TrieNode (α : Type) where
  | map (nodes : List (String × TrieNode α))
  | entry (value : α)

/-- A map from labels to entries. -/
structure LabelTrie (α : Type) where
  prefixOnly : Bool := false
  root : List (String × TrieNode α) := []

namespace LabelTrie

variable {α : Type}

/-- The name of the entry of a label under the node of its last component. -/
def target (label : Label) (lastComponent : String) : String :=
  if label.name.isEmpty then ":" ++ lastComponent else ":" ++ label.name

variable (nodes : List (String × TrieNode α)) (name : String)

variable (node : TrieNode α)

/-- Insert a node unless there is one with the name. -/
def insertNode :
    List (String × TrieNode α) :=
  if (nodes.lookup name).isSome then nodes else (name, node) :: nodes

/-- Replace the node with the name. -/
def setNode :
    List (String × TrieNode α) :=
  nodes.map (fun e => if e.1 = name then (name, node) else e)

/-- Insert an entry for the remaining components of a label.  The insertion is refused when an
entry is in the way.  So it is here for one in the place of the last component of a name, where
`std::get` would throw, and for a label without components. -/
def insertAt (onlyPrefix : Bool) (label : Label) (value : α) :
    List String → List (String × TrieNode α) → Option (List (String × TrieNode α))
  | [], _ => none
  | [lastComponent], nodes =>
      if onlyPrefix then some (insertNode nodes lastComponent (.entry value))
      else
        let nodes := insertNode nodes lastComponent (.map [])
        match nodes.lookup lastComponent with
        | some (.map inner) =>
            some (setNode nodes lastComponent
              (.map (insertNode inner (target label lastComponent) (.entry value))))
        | _ => none
  | component :: components, nodes =>
      let nodes := insertNode nodes component (.map [])
      match nodes.lookup component with
      | some (.map inner) =>
          (insertAt onlyPrefix label value components inner).map
            (fun inner => setNode nodes component (.map inner))
      | _ => none

variable (trie : LabelTrie α)

/-- Insert an entry for a label, unless it has one. -/
def insert (label : Label) (value : α) : LabelTrie α :=
  match insertAt trie.prefixOnly label value label.components trie.root with
  | some root => { trie with root := root }
  | none => trie

/-- Follow the remaining components of a label. -/
def findAt (onlyPrefix : Bool) (label : Label) (lastComponent : String) :
    List String → List (String × TrieNode α) → Option α
  | [], nodes =>
      if onlyPrefix then none
      else match nodes.lookup (target label lastComponent) with
        | some (.entry value) => some value
        | _ => none
  | component :: components, nodes =>
      match nodes.lookup component with
      | none => none
      | some (.entry value) => some value
      | some (.map inner) => findAt onlyPrefix label lastComponent components inner

/-- The entry of a label. -/
def find (label : Label) : Option α :=
  match label.components.getLast? with
  | none => none
  | some lastComponent =>
      findAt trie.prefixOnly label lastComponent label.components trie.root

def contains (label : Label) : Bool :=
  (trie.find label).isSome

/-! ### What a lookup finds -/

@[simp]
theorem find_empty (label : Label) :
  find ({} : LabelTrie α) label = none
  := by
  rw [find]
  split
  · rfl
  · cases label.components <;> rfl

theorem lookup_insertNode (name' : String) :
  (insertNode nodes name node).lookup name' = nodes.lookup name'
    ∨ (name' = name ∧ (insertNode nodes name node).lookup name' = some node)
  := by
  rw [insertNode]
  split_ifs with h
  · exact .inl rfl
  · by_cases hname : name' = name
    · exact .inr ⟨hname, by simp [hname]⟩
    · have hbeq : (name' == name) = false := by simpa using hname
      exact .inl (by rw [lookup_cons, hbeq])

theorem lookup_setNode (name' : String) :
  (setNode nodes name node).lookup name'
    = if name' = name then (nodes.lookup name').map (fun _ => node) else nodes.lookup name'
  := by
  induction nodes with
  | nil => simp [setNode]
  | cons e nodes ih =>
    obtain ⟨key, node'⟩ := e
    rw [setNode, map_cons, ← setNode]
    by_cases hname : name' = key
    · subst hname
      by_cases hkey : name' = name <;> simp [hkey]
    · have hbeq : (name' == key) = false := by simpa using hname
      by_cases hkey : key = name
      · subst hkey
        simpa [lookup_cons, hbeq] using ih
      · simpa [hkey, lookup_cons, hbeq] using ih

section FindAt

variable (onlyPrefix : Bool) (label : Label) (last : String)

theorem findAt_nil (components : List String) :
  findAt onlyPrefix label last components ([] : List (String × TrieNode α)) = none
  := by
  cases components with
  | nil => simp [findAt]
  | cons component components => rfl

variable {components : List String} {nodes : List (String × TrieNode α)}

/-- A lookup finds the same below nodes that agree on the first name it looks up. -/
theorem findAt_congr
    {nodes' : List (String × TrieNode α)}
    (h : nodes'.lookup (components.headD (target label last))
      = nodes.lookup (components.headD (target label last))) :
  findAt onlyPrefix label last components nodes' = findAt onlyPrefix label last components nodes
  := by
  cases components with
  | nil =>
    rw [headD_nil] at h
    rw [findAt, findAt, h]
  | cons component components =>
    rw [headD_cons] at h
    rw [findAt, findAt, h]

/-- A lookup below nodes to which an entry was added. -/
theorem findAt_insertNode_entry
    {name : String}
    {value found : α}
    (hfind : findAt onlyPrefix label last components (insertNode nodes name (.entry value))
      = some found) :
  found = value ∨ findAt onlyPrefix label last components nodes = some found
  := by
  rcases lookup_insertNode nodes name (.entry value) (components.headD (target label last))
    with h | ⟨-, h⟩
  · rw [findAt_congr _ _ _ h] at hfind
    exact .inr hfind
  · refine .inl ?_
    cases components with
    | nil =>
      rw [findAt] at hfind
      cases onlyPrefix <;> simp_all
    | cons component components =>
      rw [headD_cons] at h
      rw [findAt, h] at hfind
      exact (Option.some.inj hfind).symm

/-- A lookup below nodes to which an empty node was added. -/
theorem findAt_insertNode_map
    {name : String} {found : α}
    (hfind : findAt onlyPrefix label last components (insertNode nodes name (.map []))
      = some found) :
  findAt onlyPrefix label last components nodes = some found
  := by
  rcases lookup_insertNode nodes name (.map []) (components.headD (target label last))
    with h | ⟨-, h⟩
  · rwa [findAt_congr _ _ _ h] at hfind
  · cases components with
    | nil =>
      rw [findAt] at hfind
      cases onlyPrefix <;> simp_all
    | cons component components =>
      rw [headD_cons] at h
      simp only [findAt, h, findAt_nil, reduceCtorEq] at hfind

/-- A lookup below nodes of which one was replaced by other nodes goes through the new
nodes or does not pass them. -/
theorem findAt_setNode
    {inner inner' : List (String × TrieNode α)} {name : String}
    {found : α} (hname : nodes.lookup name = some (.map inner))
    (hfind : findAt onlyPrefix label last components (setNode nodes name (.map inner'))
      = some found)
    {P : Prop}
    (hinner : ∀ components, findAt onlyPrefix label last components inner' = some found →
      P ∨ findAt onlyPrefix label last components inner = some found) :
  P ∨ findAt onlyPrefix label last components nodes = some found
  := by
  by_cases hhead : components.headD (target label last) = name
  · cases components with
    | nil =>
      rw [headD_nil] at hhead
      rw [findAt, lookup_setNode] at hfind
      cases onlyPrefix <;> simp_all
    | cons component components =>
      rw [headD_cons] at hhead
      subst hhead
      simp only [findAt, lookup_setNode, hname] at hfind ⊢
      exact hinner components hfind
  · have h := lookup_setNode nodes name (.map inner') (components.headD (target label last))
    rw [if_neg hhead] at h
    rw [findAt_congr _ _ _ h] at hfind
    exact .inr hfind

end FindAt

/-- A lookup below nodes that were extended by an insertion finds the entry inserted or
what it found before. -/
theorem findAt_insertAt
    (onlyPrefix : Bool) (label label' : Label) (value found : α) (last : String)
    {components components' : List String} {nodes nodes' : List (String × TrieNode α)}
    (hinsert : insertAt onlyPrefix label value components nodes = some nodes')
    (hfind : findAt onlyPrefix label' last components' nodes' = some found) :
  found = value ∨ findAt onlyPrefix label' last components' nodes = some found
  := by
  induction components generalizing nodes nodes' components' with
  | nil => simp [insertAt] at hinsert
  | cons component components ih =>
    cases components with
    | nil =>
      rw [insertAt] at hinsert
      cases onlyPrefix with
      | true =>
        obtain rfl : _ = nodes' := Option.some.inj hinsert
        exact findAt_insertNode_entry _ _ _ hfind
      | false =>
        simp only [Bool.false_eq_true, if_false] at hinsert
        split at hinsert
        · next inner hinner =>
            obtain rfl : _ = nodes' := Option.some.inj hinsert
            have h := findAt_setNode _ _ _ hinner hfind
              (fun _ h => findAt_insertNode_entry _ _ _ h)
            exact h.imp_right (findAt_insertNode_map _ _ _)
        · cases hinsert
    | cons component' components =>
      rw [insertAt] at hinsert
      · split at hinsert
        · next inner hinner =>
            obtain ⟨inner', hinner', rfl⟩ := Option.map_eq_some_iff.mp hinsert
            have h := findAt_setNode _ _ _ hinner hfind (fun _ h => ih hinner' h)
            exact h.imp_right (findAt_insertNode_map _ _ _)
        · cases hinsert
      · simp

/-- After an insertion a lookup finds the entry inserted or what it found before. -/
theorem find_insert
    (label label' : Label) (value found : α)
    (hfind : (trie.insert label value).find label' = some found) :
  found = value ∨ trie.find label' = some found
  := by
  rw [insert] at hfind
  cases hinsert : insertAt trie.prefixOnly label value label.components trie.root with
  | none =>
    rw [hinsert] at hfind
    exact .inr hfind
  | some root =>
    rw [hinsert] at hfind
    rw [find] at hfind ⊢
    cases hlast : label'.components.getLast? with
    | none => simp [hlast] at hfind
    | some last =>
      simp only [hlast] at hfind ⊢
      exact findAt_insertAt trie.prefixOnly label label' value found last hinsert hfind

/-- After a sequence of insertions of one entry a lookup finds that entry or what it found
before. -/
theorem find_foldl_insert
    (labels : List Label) (label' : Label) (value found : α)
    (hfind : (labels.foldl (fun trie label => trie.insert label value) trie).find label'
      = some found) :
  found = value ∨ trie.find label' = some found
  := by
  induction labels generalizing trie with
  | nil => exact .inr hfind
  | cons label labels ih =>
    rcases ih _ hfind with h | h
    · exact .inl h
    · exact find_insert trie label label' value found h

end LabelTrie

end LLBuild3

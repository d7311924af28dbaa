import Mathlib.Data.Finset.Card
import Mathlib.Data.List.Nodup
import Mathlib.Logic.Relation

/-!
# Templates

A template is a sequence of pieces, each of which is output or a reference to a name, and
a name stands for a template again.  `Expands` says what a template expands to, where a
relation says what the names stand for, and `expand` computes it for a function, within
a bounded depth of references.

If only finitely many names stand for templates with references, and no such name leads back
to itself, a depth of one more than their number is enough.
-/

namespace Template

open Option

open List

variable {ν β γ : Type}

/-- A piece of a template. -/
inductive Piece (ν β : Type)
  | emit (output : List β)
  | reference (name : ν)
  deriving DecidableEq

/-- A template expands to the output of its pieces, where `Defines` says what the names stand
for. -/
inductive Expands (Defines : ν → List (Piece ν β) → Prop) : List (Piece ν β) → List β → Prop
  | nil : Expands Defines [] []
  | emit (output : List β) {pieces : List (Piece ν β)} {rest : List β}
      (hrest : Expands Defines pieces rest) :
      Expands Defines (.emit output :: pieces) (output ++ rest)
  | reference (name : ν) {definition pieces : List (Piece ν β)} {output rest : List β}
      (hname : Defines name definition) (houtput : Expands Defines definition output)
      (hrest : Expands Defines pieces rest) :
      Expands Defines (.reference name :: pieces) (output ++ rest)

/-- What the pieces output if the names are looked up. -/
def substitute (lookup : ν → Option (List β)) : List (Piece ν β) → Option (List β)
  | [] => some []
  | .emit output :: pieces => (substitute lookup pieces).map (output ++ ·)
  | .reference name :: pieces =>
      (lookup name).bind (fun output => (substitute lookup pieces).map (output ++ ·))

/-- What the pieces output if every name can be looked up. -/
def render (lookup : ν → List β) : List (Piece ν β) → List β
  | [] => []
  | .emit output :: pieces => output ++ render lookup pieces
  | .reference name :: pieces => lookup name ++ render lookup pieces

/-- What a name expands to, if the references are not nested deeper than the bound. -/
def expand (definition : ν → List (Piece ν β)) : ℕ → ν → Option (List β)
  | 0, _ => none
  | depth + 1, name => substitute (expand definition depth) (definition name)

/-- The template the name `x` stands for refers to the name `y`. -/
def Refers (definition : ν → List (Piece ν β)) (x y : ν) : Prop :=
  .reference y ∈ definition x

variable {Defines : ν → List (Piece ν β) → Prop} {pieces : List (Piece ν β)} {output : List β}

/-- If every name stands for at most one template, a template expands to at most one output. -/
theorem Expands.unique
    (hdefines : ∀ name definition definition', Defines name definition →
      Defines name definition' → definition = definition')
    {output' : List β} (h : Expands Defines pieces output)
    (h' : Expands Defines pieces output') :
  output = output'
  := by
  induction h generalizing output' with
  | nil =>
    cases h'
    rfl
  | emit text hrest ih =>
    cases h' with
    | emit _ hrest' => rw [ih hrest']
  | reference name hname houtput hrest ih ih' =>
    cases h' with
    | reference _ hname' houtput' hrest' =>
      obtain rfl := hdefines name _ _ hname hname'
      rw [ih houtput', ih' hrest']

/-! ### What is computed is what the template expands to -/

variable {lookup : ν → Option (List β)}

theorem expands_of_substitute
    (hlookup : ∀ name output, lookup name = some output →
      ∃ definition, Defines name definition ∧ Expands Defines definition output)
    (h : substitute lookup pieces = some output) :
  Expands Defines pieces output
  := by
  induction pieces generalizing output with
  | nil =>
    cases h
    exact .nil
  | cons piece pieces ih =>
    cases piece with
    | emit text =>
      obtain ⟨rest, hrest, rfl⟩ := map_eq_some_iff.mp h
      exact .emit text (ih hrest)
    | reference name =>
      obtain ⟨value, hvalue, h⟩ := bind_eq_some_iff.mp h
      obtain ⟨rest, hrest, rfl⟩ := map_eq_some_iff.mp h
      obtain ⟨definition, hname, houtput⟩ := hlookup name value hvalue
      exact .reference name hname houtput (ih hrest)

/-- What is computed for a name is what the name expands to. -/
theorem expands_of_expand
    {definition : ν → List (Piece ν β)} (hdefines : ∀ name, Defines name (definition name))
    {depth : ℕ} {name : ν} (h : expand definition depth name = some output) :
  Expands Defines (definition name) output
  := by
  induction depth generalizing name output with
  | zero => cases h
  | succ depth ih =>
    apply expands_of_substitute _ h
    intro x output hx
    exact ⟨definition x, hdefines x, ih hx⟩

theorem expands_emit (output : List β) :
  Expands Defines [.emit output] output
  := by
  have h : Expands Defines [.emit output] (output ++ []) := .emit output .nil
  rwa [append_nil] at h

theorem expands_render {lookup : ν → List β}
    (hlookup : ∀ name,
      ∃ definition, Defines name definition ∧ Expands Defines definition (lookup name))
    (pieces : List (Piece ν β)) :
  Expands Defines pieces (render lookup pieces)
  := by
  induction pieces with
  | nil => exact .nil
  | cons piece pieces ih =>
    cases piece with
    | emit text => exact .emit text ih
    | reference name =>
      obtain ⟨definition, hname, houtput⟩ := hlookup name
      exact .reference name hname houtput ih

theorem substitute_emit (lookup : ν → Option (List β)) (output : List β) :
  substitute lookup [.emit output] = some output
  := by
  rw [substitute, substitute, map_some, append_nil]

theorem substitute_map_emit (lookup : ν → Option (List β)) (outputs : List (List β)) :
  substitute lookup (outputs.map .emit) = some outputs.flatten
  := by
  induction outputs with
  | nil => rfl
  | cons output outputs ih => rw [map_cons, substitute, ih, flatten_cons, map_some]

theorem render_map_emit (lookup : ν → List β) (outputs : List (List β)) :
  render lookup (outputs.map .emit) = outputs.flatten
  := by
  induction outputs with
  | nil => rfl
  | cons output outputs ih => rw [map_cons, render, ih, flatten_cons]

/-! ### Other outputs -/

/-- Replace every symbol of the output. -/
def Piece.bind (f : β → List γ) : Piece ν β → Piece ν γ
  | emit output => emit (output.flatMap f)
  | reference name => reference name

/-- A template whose symbols are replaced expands to the output with the symbols replaced. -/
theorem Expands.bind
    {Defines' : ν → List (Piece ν γ) → Prop} (f : β → List γ)
    (hdefines : ∀ name definition, Defines name definition →
      Defines' name (definition.map (Piece.bind f)))
    (h : Expands Defines pieces output) :
  Expands Defines' (pieces.map (Piece.bind f)) (output.flatMap f)
  := by
  induction h with
  | nil => exact .nil
  | emit output hrest ih =>
    rw [flatMap_append]
    exact .emit _ ih
  | reference name hname houtput hrest ih ih' =>
    rw [flatMap_append]
    exact .reference name (hdefines name _ hname) ih ih'

/-! ### The depth that is enough -/

theorem exists_reference_of_substitute (h : substitute lookup pieces = none) :
  ∃ name, .reference name ∈ pieces ∧ lookup name = none
  := by
  induction pieces with
  | nil => cases h
  | cons piece pieces ih =>
    cases piece with
    | emit text =>
      obtain ⟨name, hname, hnone⟩ := ih (map_eq_none_iff.mp h)
      exact ⟨name, .tail _ hname, hnone⟩
    | reference name =>
      cases hvalue : lookup name with
      | none => exact ⟨name, mem_cons_self, hvalue⟩
      | some value =>
        rw [substitute, hvalue, bind_some, map_eq_none_iff] at h
        obtain ⟨name', hname, hnone⟩ := ih h
        exact ⟨name', .tail _ hname, hnone⟩

variable {definition : ν → List (Piece ν β)}

/-- The references between the names that have references themselves. -/
def Leads (definition : ν → List (Piece ν β)) (x y : ν) : Prop :=
  Refers definition x y ∧ ∃ z, Refers definition y z

/-- If a depth is not enough, there is a chain of references of that length. -/
theorem exists_chain_of_expand {depth : ℕ} {x : ν} (h : expand definition depth x = none) :
  ∃ chain : List ν, chain.length = depth ∧ (∀ y ∈ chain, ∃ z, Refers definition y z)
    ∧ (∀ y ∈ chain, y = x ∨ Relation.TransGen (Leads definition) x y)
    ∧ chain.Pairwise (Relation.TransGen (Leads definition))
  := by
  induction depth generalizing x with
  | zero => exact ⟨[], rfl, nofun, nofun, .nil⟩
  | succ depth ih =>
    obtain ⟨y, hxy, hy⟩ := exists_reference_of_substitute h
    obtain ⟨chain, hlength, hrefers, hreached, hchain⟩ := ih hy
    have hleads : ∀ z ∈ chain, Relation.TransGen (Leads definition) x z := by
      intro z hz
      obtain rfl | hyz := hreached z hz
      · exact .single ⟨hxy, hrefers z hz⟩
      · obtain ⟨w, hyw, -⟩ := Relation.TransGen.head'_iff.mp hyz
        exact .head ⟨hxy, w, hyw.1⟩ hyz
    refine ⟨x :: chain, congrArg Nat.succ hlength, ?_, ?_, .cons hleads hchain⟩
    · exact forall_mem_cons.mpr ⟨⟨y, hxy⟩, hrefers⟩
    · exact forall_mem_cons.mpr ⟨Or.inl rfl, fun z hz => Or.inr (hleads z hz)⟩

/-- If no name leads back to itself, the number of the names with references bounds the depth
of the references. -/
theorem exists_expand [DecidableEq ν] {names : Finset ν}
    (hnames : ∀ x y, Refers definition x y → x ∈ names)
    (hacyclic : ∀ x, ¬ Relation.TransGen (Leads definition) x x) {depth : ℕ}
    (hdepth : names.card < depth) (x : ν) :
  ∃ output, expand definition depth x = some output
  := by
  cases h : expand definition depth x with
  | some output => exact ⟨output, rfl⟩
  | none =>
    obtain ⟨chain, hlength, hrefers, -, hchain⟩ := exists_chain_of_expand h
    have hnodup : chain.Nodup := by
      apply hchain.imp
      rintro y z hyz rfl
      exact hacyclic y hyz
    have hsubset : chain.toFinset ⊆ names := by
      intro y hy
      obtain ⟨z, hyz⟩ := hrefers y (mem_toFinset.mp hy)
      exact hnames y z hyz
    have hcard := Finset.card_le_card hsubset
    rw [toFinset_card_of_nodup hnodup, hlength] at hcard
    exact absurd hdepth (not_lt.mpr hcard)

end Template

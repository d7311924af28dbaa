import LLBuild.Ninja.NormalizePath

/-!
# The ownership analysis

The analysis goes over the outputs of the commands by their lengths.  An output inside of an
owned one belongs to the owner of that, and to no other command.  The first owner that is found
is taken, where the nodes are ordered by their addresses.
-/

namespace LLBuild.BuildSystem.OwnershipAnalysis

open List

open BinaryCoding Ninja.Path

/-- An output of a command, which is included in the analysis if the command is an external one
that is repaired by it. -/
structure Output where
  name : Bytes
  command : ℕ
  isIncluded : Bool := true

/-- What the names of the paths inside of a directory start with. -/
def directoryText (name : Bytes) : Bytes :=
  if name.getLast? = some slash then name else name ++ [slash]

section

variable (addresses : List Bytes)

/-- `includedOwnerOf`, with the names of the nodes in the order of their addresses. -/
def includedOwnerOf (includedPaths : Bytes → Option ℕ) (inputPath : Bytes) : Option ℕ :=
  addresses.findSome? fun name =>
    if directoryText name <+: inputPath then includedPaths name else none

/-- `establishOwnerships`: the owners, or a conflict.  The owners that are excluded are kept
apart and looked up for inputs only. -/
def establishOwnerships : List Output → (Bytes → Option ℕ) → Option (Bytes → Option ℕ)
  | [], includedPaths => some includedPaths
  | o :: outputs, includedPaths =>
    if o.isIncluded then
      match includedOwnerOf addresses includedPaths o.name with
      | none =>
        establishOwnerships outputs (Function.update includedPaths o.name (some o.command))
      | some owner =>
        if owner = o.command then establishOwnerships outputs includedPaths else none
    else establishOwnerships outputs includedPaths

end

variable (outputs : List Output)

/-- The outputs in an order `std::sort` may leave them in. -/
def IsSorted : Prop :=
  outputs.Pairwise fun o o' => o.name.length ≤ o'.name.length

/-- A node is another one or inside of it: its components start with the ones of the other,
where a separator at the end of a name does not matter. -/
def IsWithin (directory name : Bytes) : Prop :=
  (components (directoryText directory)).dropLast <+: (components (directoryText name)).dropLast

/-! ### Directories -/

theorem exists_directoryText (name : Bytes) :
  ∃ text, directoryText name = text ++ [slash]
  := by
  rw [directoryText]
  split_ifs with h
  · obtain ⟨text, rfl⟩ := getLast?_eq_some_iff.mp h
    exact ⟨text, rfl⟩
  · exact ⟨name, rfl⟩

theorem isWithin_iff (a b : Bytes) :
  IsWithin a b ↔ directoryText a <+: directoryText b
  := by
  obtain ⟨x, hx⟩ := exists_directoryText a
  obtain ⟨y, hy⟩ := exists_directoryText b
  have hdrop (z : Bytes) : (components (z ++ [slash])).dropLast = components z := by
    rw [components_append]
    exact dropLast_concat
  rw [IsWithin, hx, hy, hdrop, hdrop]
  constructor
  · rintro ⟨more, hmore⟩
    have htext := pathText_components y
    rw [← hmore, pathText_append, pathText_components] at htext
    obtain rfl := tail_eq_of_cons_eq htext
    cases more with
    | nil => simp [pathText]
    | cons name more => exact ⟨name ++ pathText more ++ [slash], by simp [pathText]⟩
  · rintro ⟨rest, hrest⟩
    have hy := hdrop y
    rw [← hrest, append_assoc, singleton_append, components_append,
      dropLast_append_of_ne_nil (components_ne_nil rest)] at hy
    exact ⟨_, hy⟩

/-- Of two directories one of which has a text that starts with the text of the other, one is
inside of the other, unless they are the same. -/
theorem eq_or_inside {a b : Bytes} (h : directoryText a <+: directoryText b) :
  a = b ∨ directoryText a <+: b ∨ directoryText b <+: a
  := by
  unfold directoryText at *
  split_ifs at h ⊢ with ha hb hb
  · exact .inr (.inl h)
  · rcases prefix_concat_iff.mp h with rfl | h
    · exact .inr (.inr (prefix_refl _))
    · exact .inr (.inl h)
  · exact .inr (.inl h)
  · rcases prefix_concat_iff.mp h with h | h
    · exact .inl (append_cancel_right h)
    · exact .inr (.inl h)

theorem prefix_directoryText (name : Bytes) :
  name <+: directoryText name
  := by
  rw [directoryText]
  split_ifs
  · exact prefix_refl _
  · exact prefix_append _ _

/-- Nothing that is not longer is inside of a directory. -/
theorem eq_of_inside {a b : Bytes} (h : directoryText a <+: b) (hlength : b.length ≤ a.length) :
  a = b
  := ((prefix_directoryText a).trans h).eq_of_length_le hlength

/-! ### Owners -/

/-- An output of a command inside of an output of another one. -/
def Clash : Prop :=
  ∃ o ∈ outputs, ∃ o' ∈ outputs, o.command ≠ o'.command ∧ directoryText o.name <+: o'.name

/-- Outputs of the same name belong to the same command, unless the name ends with a separator. -/
def HaveOneProducer : Prop :=
  ∀ o ∈ outputs, ∀ o' ∈ outputs, o.name = o'.name → o.name.getLast? ≠ some slash →
    o.command = o'.command

/-- An output inside of no other output. -/
def IsRoot (o : Output) : Prop :=
  o ∈ outputs ∧ ∀ o' ∈ outputs, directoryText o'.name <+: o.name → o'.name = o.name

/-- The owners of some outputs: the commands of the roots. -/
def AreOwners (includedPaths : Bytes → Option ℕ) : Prop :=
  ∀ name c, includedPaths name = some c ↔
    ∃ o, IsRoot outputs o ∧ o.name = name ∧ o.command = c

variable {outputs : List Output} {path : Bytes}

/-- A name that ends with a separator is inside of itself. -/
theorem HaveOneProducer.command_eq (hone : HaveOneProducer outputs) (hclash : ¬ Clash outputs)
    {o o' : Output} (ho : o ∈ outputs) (ho' : o' ∈ outputs) (hname : o.name = o'.name) :
  o.command = o'.command
  := by
  by_cases hlast : o.name.getLast? = some slash
  · by_contra hne
    refine hclash ⟨o, ho, o', ho', hne, ?_⟩
    rw [directoryText, if_pos hlast, hname]
  · exact hone o ho o' ho' hname hlast

/-- Of two outputs around a path, one of which is a root, the other one is of the same command,
if there is no conflict. -/
theorem IsRoot.command_eq {r o : Output} (hr : IsRoot outputs r) (ho : o ∈ outputs)
    (hone : HaveOneProducer outputs) (hclash : ¬ Clash outputs)
    (hrpath : directoryText r.name <+: path) (hopath : directoryText o.name <+: path) :
  r.command = o.command
  := by
  have hcases : r.name = o.name ∨ directoryText r.name <+: o.name
      ∨ directoryText o.name <+: r.name := by
    rcases prefix_or_prefix_of_prefix hrpath hopath with h | h
    · exact eq_or_inside h
    · have := eq_or_inside h
      grind
  rcases hcases with h | h | h
  · exact hone.command_eq hclash hr.1 ho h
  · by_contra hne
    exact hclash ⟨r, hr.1, o, ho, hne, h⟩
  · exact hone.command_eq hclash hr.1 ho (hr.2 o ho h).symm

variable {o q : Output}

/-- Around a path inside of an output there is a root. -/
theorem exists_isRoot (ho : o ∈ outputs) (hpath : directoryText o.name <+: path) :
  ∃ r, IsRoot outputs r ∧ directoryText r.name <+: path
  := by
  induction hn : o.name.length using Nat.strong_induction_on generalizing o with
  | _ n ih =>
    by_cases hr : IsRoot outputs o
    · exact ⟨o, hr, hpath⟩
    · have ⟨o', ho', hin, hne⟩ : ∃ o' ∈ outputs, directoryText o'.name <+: o.name
          ∧ o'.name ≠ o.name := by
        simpa [IsRoot, ho] using hr
      have hlt : o'.name.length < n := by
        by_contra hle
        exact hne (eq_of_inside hin (by omega))
      exact ih _ hlt ho' (hin.trans ((prefix_directoryText _).trans hpath)) rfl

section

variable {addresses : List Bytes} {includedPaths : Bytes → Option ℕ}

/-- An owner that is found is the command of a root, and one is found if there is a root. -/
theorem AreOwners.includedOwnerOf (h : AreOwners outputs includedPaths)
    (haddresses : ∀ o ∈ outputs, o.name ∈ addresses) (path : Bytes) :
  (∀ c, includedOwnerOf addresses includedPaths path = some c →
      ∃ r, IsRoot outputs r ∧ directoryText r.name <+: path ∧ r.command = c)
    ∧ (includedOwnerOf addresses includedPaths path = none →
      ∀ o ∈ outputs, ¬ directoryText o.name <+: path)
  := by
  constructor
  · intro c hc
    obtain ⟨name, -, hname⟩ := exists_of_findSome?_eq_some hc
    split_ifs at hname with hpath
    obtain ⟨r, hr, rfl, rfl⟩ := (h name c).mp hname
    exact ⟨r, hr, hpath, rfl⟩
  · intro hnone o ho hpath
    obtain ⟨r, hr, hpath⟩ := exists_isRoot ho hpath
    have hname := findSome?_eq_none_iff.mp hnone r.name (haddresses r hr.1)
    rw [if_pos hpath, (h r.name r.command).mpr ⟨r, hr, rfl, rfl⟩] at hname
    cases hname

/-- There is no conflict with an output that belongs to the commands of the ones around it. -/
theorem not_clash_concat
    (hq : ∀ o ∈ outputs, directoryText q.name <+: o.name → q.name = o.name)
    (hclash : ¬ Clash outputs)
    (hcommand : ∀ o ∈ outputs, directoryText o.name <+: q.name → o.command = q.command) :
  ¬ Clash (outputs ++ [q])
  := by
  simp only [Clash] at *
  grind

/-- The outputs that come later, if the owners of the ones before are established. -/
theorem establishOwnerships_spec (later : List Output) {outputs : List Output}
    (h : AreOwners outputs includedPaths) (hclash : ¬ Clash outputs)
    (haddresses : ∀ o ∈ outputs ++ later, o.name ∈ addresses)
    (hincluded : ∀ o ∈ later, o.isIncluded = true) (hsorted : IsSorted (outputs ++ later))
    (hone : HaveOneProducer (outputs ++ later)) :
  (Clash (outputs ++ later) ∧ establishOwnerships addresses later includedPaths = none)
    ∨ ¬ Clash (outputs ++ later) ∧ ∃ owners,
      establishOwnerships addresses later includedPaths = some owners
        ∧ AreOwners (outputs ++ later) owners
  := by
  induction later generalizing outputs includedPaths with
  | nil => exact .inr ⟨by simpa, includedPaths, rfl, by simpa⟩
  | cons q later ih =>
    have hbefore : ∀ o ∈ outputs, directoryText q.name <+: o.name → q.name = o.name := by
      intro o ho hin
      apply eq_of_inside hin
      exact (pairwise_append.mp hsorted).2.2 o ho q (.head _)
    obtain ⟨hsome, hnone⟩ := h.includedOwnerOf
      (fun o ho => haddresses o (mem_append_left _ ho)) q.name
    rw [append_cons] at *
    have hone' : HaveOneProducer (outputs ++ [q]) := fun o ho o' ho' =>
      hone o (mem_append_left _ ho) o' (mem_append_left _ ho')
    rw [establishOwnerships, if_pos (hincluded q (.head _))]
    cases howner : includedOwnerOf addresses includedPaths q.name with
    | none =>
      have hnone := hnone howner
      have hclash' : ¬ Clash (outputs ++ [q]) :=
        not_clash_concat hbefore hclash fun o ho hin => absurd hin (hnone o ho)
      refine ih ?_ hclash' haddresses (fun o ho => hincluded o (.tail _ ho)) hsorted hone
      intro name c
      have hname := h name c
      have hone' := fun o (ho : o ∈ outputs ++ [q]) o' (ho' : o' ∈ outputs ++ [q]) =>
        hone'.command_eq hclash' ho ho'
      grind [IsRoot]
    | some owner =>
      obtain ⟨r, hr, hin, rfl⟩ := hsome owner howner
      dsimp only
      split_ifs with hcommand
      · refine ih ?_ ?_ haddresses (fun o ho => hincluded o (.tail _ ho)) hsorted hone
        · intro name c
          simp only [h name c]
          grind [IsRoot]
        · apply not_clash_concat hbefore hclash
          intro o ho hin'
          rw [← hcommand]
          exact (hr.command_eq ho (fun o ho o' ho' => hone' o (mem_append_left _ ho) o'
            (mem_append_left _ ho')) hclash hin hin').symm
      · refine .inl ⟨⟨r, ?_, q, ?_, hcommand, hin⟩, rfl⟩
        · simp [hr.1]
        · simp

/-- The owners are established unless there is a conflict. -/
theorem establishOwnerships_cases (hsorted : IsSorted outputs)
    (hone : HaveOneProducer (outputs.filter (·.isIncluded)))
    (haddresses : ∀ o ∈ outputs, o.name ∈ addresses) :
  (Clash (outputs.filter (·.isIncluded))
      ∧ establishOwnerships addresses outputs (fun _ => none) = none)
    ∨ ¬ Clash (outputs.filter (·.isIncluded)) ∧ ∃ owners,
      establishOwnerships addresses outputs (fun _ => none) = some owners
        ∧ AreOwners (outputs.filter (·.isIncluded)) owners
  := by
  have hfilter (includedPaths : Bytes → Option ℕ) :
      establishOwnerships addresses outputs includedPaths
        = establishOwnerships addresses (outputs.filter (·.isIncluded)) includedPaths := by
    clear hsorted hone haddresses
    induction outputs generalizing includedPaths with
    | nil => rfl
    | cons o outputs ih => cases ho : o.isIncluded <;> simp [establishOwnerships, ho, ih]
  rw [hfilter]
  have howners : AreOwners [] (fun _ => none) := by simp [AreOwners, IsRoot]
  apply establishOwnerships_spec _ howners _ _ _ (hsorted.filter _) hone
  · simp [Clash]
  · simpa using fun o ho _ => haddresses o ho
  · simp

end

end LLBuild.BuildSystem.OwnershipAnalysis

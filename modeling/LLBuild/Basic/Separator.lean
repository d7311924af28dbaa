import Mathlib.Data.List.Basic
import Mathlib.Data.List.Infix

/-!
# Lists with separators between them

Some lists are joined with a separator between them.  The parts can be told from the whole if
none of them contains the separator, provided the separator does not overlap itself: no part at
its end is also a part at its start.
-/

namespace LLBuild.Separator

open List

variable {α : Type}

/-- A list does not overlap itself. -/
def IsUnbordered (separator : List α) : Prop :=
  ∀ border ∈ separator.inits, border <:+ separator → border = [] ∨ border = separator

instance [DecidableEq α] (separator : List α) : Decidable (IsUnbordered separator) :=
  inferInstanceAs (Decidable (∀ border ∈ separator.inits, _))

/-- The lists, each after the first one with the separator before it. -/
def join (separator : List α) (part : List α) (parts : List (List α)) : List α :=
  part ++ parts.flatMap (separator ++ ·)

variable {separator : List α}

theorem join_cons (part part' : List α) (parts : List (List α)) :
  join separator part (part' :: parts) = part ++ separator ++ join separator part' parts
  := by
  rw [join, join, flatMap_cons, append_assoc, append_assoc]

theorem isInfix_join_cons (part part' : List α) (parts : List (List α)) :
  separator <:+: join separator part (part' :: parts)
  := by
  rw [join_cons]
  exact ⟨part, _, rfl⟩

section

variable (h : IsUnbordered separator)
include h

/-- What is between the ends of two first parts would overlap the separator. -/
theorem eq_nil_of_append {part between rest rest' : List α}
    (hpart : ¬ separator <:+: part ++ between)
    (heq : separator ++ rest = between ++ (separator ++ rest')) :
  between = []
  := by
  obtain ⟨w, rfl, -⟩ | ⟨border, hborder, hrest⟩ := append_eq_append_iff.mp heq
  · exact absurd ⟨part, w, append_assoc _ _ _⟩ hpart
  · have hlength : border.length ≤ separator.length := by
      rw [hborder, length_append]
      exact Nat.le_add_left _ _
    have hstart : border <+: separator :=
      prefix_of_prefix_length_le ⟨rest, hrest.symm⟩ (prefix_append _ _) hlength
    obtain rfl | rfl := h border ((mem_inits _ _).mpr hstart) ⟨between, hborder.symm⟩
    · rw [append_nil] at hborder
      exact absurd ⟨part, [], by rw [hborder, append_nil]⟩ hpart
    · exact append_left_eq_self.mp hborder.symm

/-- The first part ends at the first separator. -/
theorem append_inj_of_isUnbordered {part part' rest rest' : List α}
    (hpart : ¬ separator <:+: part) (hpart' : ¬ separator <:+: part')
    (heq : part ++ (separator ++ rest) = part' ++ (separator ++ rest')) :
  part = part' ∧ rest = rest'
  := by
  have hparts : part = part' := by
    obtain ⟨between, rfl, hrest⟩ | ⟨between, rfl, hrest⟩ := append_eq_append_iff.mp heq
    · rw [eq_nil_of_append h hpart' hrest, append_nil]
    · rw [eq_nil_of_append h hpart hrest, append_nil]
  subst hparts
  exact ⟨rfl, append_cancel_left (append_cancel_left heq)⟩

/-- Lists that do not contain the separator can be told from what they are joined to. -/
theorem join_inj {part part' : List α} {parts parts' : List (List α)}
    (hparts : ∀ x ∈ part :: parts, ¬ separator <:+: x)
    (hparts' : ∀ x ∈ part' :: parts', ¬ separator <:+: x)
    (heq : join separator part parts = join separator part' parts') :
  part :: parts = part' :: parts'
  := by
  induction parts generalizing part part' parts' with
  | nil =>
    cases parts' with
    | nil => simpa [join] using heq
    | cons next' parts' =>
      rw [join, flatMap_nil, append_nil] at heq
      exact absurd (heq ▸ isInfix_join_cons part' next' parts') (hparts part mem_cons_self)
  | cons next parts ih =>
    cases parts' with
    | nil =>
      rw [join, join, flatMap_nil, append_nil] at heq
      exact absurd (heq ▸ isInfix_join_cons part next parts) (hparts' part' mem_cons_self)
    | cons next' parts' =>
      obtain ⟨hpart, hrest⟩ := forall_mem_cons.mp hparts
      obtain ⟨hpart', hrest'⟩ := forall_mem_cons.mp hparts'
      rw [join_cons, join_cons, append_assoc, append_assoc] at heq
      obtain ⟨rfl, hjoin⟩ := append_inj_of_isUnbordered h hpart hpart' heq
      rw [ih hrest hrest' hjoin]

end

end LLBuild.Separator

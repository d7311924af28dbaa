import LLBuild.Ninja.NormalizePath

/-!
# Normal forms of absolute paths

The loop of `normalizePath` comes to its end for every absolute path, with a network name or
without one: each step reads on, and no step reads or writes outside of the buffer.  So a path
that can be made absolute has a normal form.  What the loop writes first is a separator, so normal
forms start with one.
-/

namespace LLBuild.Ninja.Path

open Nat

open List

open BinaryCoding Buffer

variable {tmp : Bytes} {start src dst : ℕ}

/-! ### The end of the loop -/

/-- The first byte is only written when it is a separator. -/
theorem write_returns {c : UInt8} (hhead : tmp.head? = some slash) (hdst : dst < tmp.length)
    (hc : 0 < dst ∨ c = slash) :
  Returns (write tmp dst c) fun tmp' => tmp'.length = tmp.length ∧ tmp'.head? = some slash
  := by
  refine ⟨tmp.set dst c, if_pos hdst, length_set, ?_⟩
  obtain ⟨rest, rfl⟩ := head?_eq_some_iff.mp hhead
  cases dst with
  | zero =>
    obtain rfl := hc.resolve_left (lt_irrefl 0)
    rfl
  | succ dst => rfl

/-- What was written starts with a separator. -/
def Rooted (result : Bytes × ℕ) : Prop := result.1.head? = some slash ∧ 0 < result.2

/-- The buffer keeps its length, and the destination is between two positions. -/
structure Within (tmp : Bytes) (start stop : ℕ) (result : Bytes × ℕ) : Prop where
  length : result.1.length = tmp.length
  rooted : Rooted result
  le : start ≤ result.2
  le_stop : result.2 ≤ stop

theorem findParent_returns (hstart : start ≤ dst) (hdst : dst < tmp.length) :
  Returns (findParent tmp start dst) fun d => start ≤ d ∧ d ≤ dst + 1
  := by
  induction dst with
  | zero => exact .ok ⟨hstart, zero_le _⟩
  | succ dst ih =>
    rw [findParent]
    split_ifs with hlt
    · refine (read_returns hdst).bind fun c _ => ?_
      split_ifs
      · exact .ok ⟨by omega, le_refl _⟩
      · refine (ih (by omega) (by omega)).imp fun d hd => ?_
        exact ⟨hd.1, by omega⟩
    · exact .ok ⟨hstart, le_succ _⟩

theorem moveToParent_returns (hrooted : Rooted (tmp, dst)) (hstart : start ≤ dst)
    (hdst : dst ≤ tmp.length) :
  Returns (moveToParent tmp start dst) (Within tmp start dst)
  := by
  have hhead : tmp.head? = some slash := hrooted.1
  rw [moveToParent]
  split_ifs with hle
  · exact .ok ⟨rfl, hrooted, hstart, le_refl _⟩
  · refine (findParent_returns (by omega) (by omega)).bind ?_
    rintro d ⟨hd, hd'⟩
    split_ifs with heq
    · refine (write_returns hhead (by omega) (.inr rfl)).bind ?_
      rintro tmp' ⟨hlength, hhead'⟩
      exact .ok ⟨hlength, ⟨hhead', succ_pos d⟩, le_succ_of_le hd, by omega⟩
    · exact .ok ⟨rfl, ⟨hhead, by omega⟩, hd, by omega⟩

theorem writeSlash_returns (hhead : tmp.head? = some slash) (hstart : start ≤ dst)
    (hdst : dst < tmp.length) :
  Returns (writeSlash tmp start dst) (Within tmp start (dst + 1))
  := by
  have hneeds : Returns (needsSlash tmp start dst) fun needed => needed = false → dst ≠ start := by
    rw [needsSlash]
    split_ifs with heq
    · exact .ok (absurd · (by decide))
    · exact (read_returns (by omega)).bind fun c _ => .ok fun _ => heq
  refine hneeds.bind fun needed hneeded => ?_
  split
  · refine (write_returns hhead hdst (.inr rfl)).bind ?_
    rintro tmp' ⟨hlength, hhead'⟩
    exact .ok ⟨hlength, ⟨hhead', succ_pos dst⟩, le_succ_of_le hstart, le_refl _⟩
  next hfalse =>
    have hne := hneeded (Bool.eq_false_of_not_eq_true hfalse)
    exact .ok ⟨rfl, ⟨hhead, by omega⟩, hstart, le_succ _⟩

theorem isInName_returns (tmp : Bytes) (position : ℕ) :
  Returns (isInName tmp position) fun _ => True
  := by
  rw [isInName]
  split_ifs with hlt
  · exact (read_returns hlt).bind fun c _ => .ok trivial
  · exact .ok trivial

/-- The loop goes on at a later position. -/
theorem afterSlash_returns
    {loop : (tmp : Bytes) → (src dst : ℕ) → Except Fault (Bytes × ℕ)}
    (hloop : ∀ tmp' src' dst', tmp'.length = tmp.length → Rooted (tmp', dst') → src < src' →
      src' ≤ tmp.length → start ≤ dst' → dst' ≤ src' → Returns (loop tmp' src' dst') Rooted)
    (hrooted : Rooted (tmp, dst)) (hstart : start ≤ dst) (hdst : dst ≤ src + 1) :
  Returns (afterSlash start loop tmp src dst) Rooted
  := by
  have hhead : tmp.head? = some slash := hrooted.1
  rw [afterSlash]
  split
  · exact .ok hrooted
  refine (read_returns (by omega)).bind fun c _ => ?_
  split
  · exact hloop tmp (src + 1) dst rfl hrooted (by omega) (by omega) hstart hdst
  split
  · exact hloop tmp (src + 2) dst rfl hrooted (by omega) (by omega) hstart (by omega)
  refine (read_returns (by omega)).bind fun d _ => ?_
  split
  · split
    · exact hloop tmp (src + 2) dst rfl hrooted (by omega) (by omega) hstart (by omega)
    · refine (write_returns hhead (by omega) (.inl hrooted.2)).bind ?_
      rintro tmp' ⟨hlength, hhead'⟩
      exact hloop tmp' (src + 2) (dst + 1) hlength ⟨hhead', succ_pos dst⟩ (by omega) (by omega)
        (by omega) (by omega)
  refine (isInName_returns tmp (src + 3)).bind fun inName _ => ?_
  split
  · exact hloop tmp (src + 1) dst rfl hrooted (by omega) (by omega) hstart hdst
  refine (moveToParent_returns hrooted hstart (by omega)).bind fun moved hmoved => ?_
  obtain ⟨tmp', dst'⟩ := moved
  obtain ⟨hlength, hrooted', hstart', hdst'⟩ := hmoved
  dsimp only at hlength hstart' hdst' ⊢
  split
  · exact hloop tmp' (src + 3) dst' hlength hrooted' (by omega) (by omega) hstart' (by omega)
  · exact .ok hrooted'

/-- The loop comes to its end: each step reads on, and the destination never passes the source.
What it writes first is a separator. -/
theorem normalizeLoop_returns {steps : ℕ} (hsteps : tmp.length < src + steps)
    (hhead : tmp.head? = some slash) (hpos : 0 < dst ∨ src = 0 ∧ 0 < tmp.length)
    (hstart : start ≤ dst) (hdst : dst ≤ src) (hsrc : src ≤ tmp.length) :
  Returns (normalizeLoop start steps tmp src dst) Rooted
  := by
  induction steps generalizing tmp src dst with
  | zero => omega
  | succ steps ih =>
    rw [normalizeLoop]
    split
    · refine (read_returns (by omega)).bind fun c hc => ?_
      split
      next hne =>
        have hpos' : 0 < dst := by
          refine hpos.resolve_right ?_
          rintro ⟨rfl, -⟩
          rw [← head?_eq_getElem?, hhead] at hc
          exact hne (Option.some.inj hc).symm
        refine (write_returns hhead (by omega) (.inl hpos')).bind ?_
        rintro tmp' ⟨hlength, hhead'⟩
        exact ih (by omega) hhead' (.inl (succ_pos dst)) (by omega) (by omega) (by omega)
      · refine (writeSlash_returns hhead hstart (by omega)).bind fun written hwritten => ?_
        obtain ⟨hlength, hrooted, hstart', hdst'⟩ := hwritten
        refine afterSlash_returns ?_ hrooted hstart' (by omega)
        intro tmp'' src'' dst'' hlength'' hrooted'' hlt'' hle'' hstart'' hdst''
        exact ih (by omega) hrooted''.1 (.inl hrooted''.2) hstart'' hdst'' (by omega)
    · exact .ok ⟨hhead, hpos.resolve_right (by omega)⟩

/-! ### Normal forms -/

theorem length_findFirstComponent_le (path : Bytes) :
  (findFirstComponent path).length ≤ path.length
  := by
  have htake (string : Bytes) : (string.takeWhile (· ≠ slash)).length ≤ string.length :=
    (takeWhile_sublist _).length_le
  match path with
  | [] => exact Nat.le_refl _
  | [a] =>
    rw [findFirstComponent]
    split_ifs
    · exact Nat.le_refl _
    · exact htake [a]
    · rintro b c rest ⟨⟩
  | [a, b] =>
    rw [findFirstComponent]
    split_ifs
    · exact Nat.le_succ _
    · exact htake [a, b]
    · rintro b c rest ⟨⟩
  | a :: b :: c :: rest =>
    rw [findFirstComponent]
    split_ifs
    · exact Nat.add_le_add_right (htake (c :: rest)) 2
    · exact Nat.le_add_left _ _
    · exact htake (a :: b :: c :: rest)

variable {path : Bytes}

variable {workingDirectory : Bytes}

/-- A path that can be made absolute has a normal form, which starts with a separator. -/
theorem normalForm_of_isAbsolute (h : isAbsolute (makeAbsolute workingDirectory path) = true) :
  ∃ canonicalPath, normalForm workingDirectory path = some canonicalPath
    ∧ canonicalPath.head? = some slash
  := by
  have hhead : (makeAbsolute workingDirectory path).head? = some slash := by
    by_contra hhead
    simp [isAbsolute, (roots_of_head hhead).2.1] at h
  have hne : makeAbsolute workingDirectory path ≠ [] := by
    intro hnil
    rw [hnil] at h
    cases h
  have hname : (rootName (makeAbsolute workingDirectory path)).length
      ≤ (makeAbsolute workingDirectory path).length := by
    rw [rootName]
    split_ifs
    · exact length_findFirstComponent_le _
    · exact Nat.zero_le _
  obtain ⟨⟨tmp, dst⟩, hloop, hhead', hpos⟩ :=
    normalizeLoop_returns (Nat.lt_add_left _ (Nat.lt_succ_self _)) hhead
      (by have := length_pos_of_ne_nil hne; omega) (Nat.le_refl _) (Nat.le_refl _) hname
  refine ⟨tmp.take dst, ?_, ?_⟩
  · rw [normalForm, normalizePath]
    dsimp only
    rw [if_neg (by simp [hne, h]), hloop]
    rfl
  · rw [head?_take, if_neg hpos.ne']
    exact hhead'

theorem head?_of_normalForm {canonicalPath : Bytes}
    (h : normalForm workingDirectory path = some canonicalPath) :
  canonicalPath.head? = some slash
  := by
  by_cases habsolute : isAbsolute (makeAbsolute workingDirectory path) = true
  · obtain ⟨canonicalPath', hcanonical, hhead⟩ := normalForm_of_isAbsolute habsolute
    obtain rfl := Option.some.inj (h.symm.trans hcanonical)
    exact hhead
  · rw [normalForm, normalizePath] at h
    rw [if_pos (.inr (Bool.eq_false_of_not_eq_true habsolute))] at h
    cases h

end LLBuild.Ninja.Path

import LLBuild.Basic.BinaryCoding
import LLBuild.Basic.Buffer

/-!
# Rewriting paths in place

A node of a manifest has an absolute path without the components `.` and `..`.
`normalizePath` makes a path absolute and then rewrites it in place: one position of the buffer
is where the path is read, and another one, which never comes after it, is where the normal
form is written.

`Compacts` is the loop of `normalizePath` without the buffer, and `Rewrites` connects the two:
it says what the buffer holds before the one position and after the other.

The paths are those of POSIX systems.
-/

namespace LLBuild.Ninja.Path

open Nat

open List

open BinaryCoding Buffer

/-- The separator of the components of a path. -/
def slash : UInt8 := '/'.toUInt8

def dot : UInt8 := '.'.toUInt8

/-! ### Roots -/

/-- The first component of a path: a network name `//net`, the root `/`, or a name. -/
def findFirstComponent : (path : Bytes) → Bytes
  | a :: b :: c :: rest =>
      if a = slash ∧ a = b ∧ c ≠ slash then a :: b :: (c :: rest).takeWhile (· ≠ slash)
      else if a = slash then [a]
      else (a :: b :: c :: rest).takeWhile (· ≠ slash)
  | a :: rest => if a = slash then [a] else (a :: rest).takeWhile (· ≠ slash)
  | [] => []

/-- Whether a first component is a network name. -/
def hasNet : (component : Bytes) → Bool
  | a :: b :: _ :: _ => a = slash ∧ b = a
  | _ => false

variable (path : Bytes)

/-- The component after a network name, which is the root, or nothing at the end. -/
def rootAfterNet : Bytes := (path.drop (findFirstComponent path).length).take 1

def rootName : Bytes :=
  if hasNet (findFirstComponent path) then findFirstComponent path else []

def rootDirectory : Bytes :=
  if hasNet (findFirstComponent path) ∧ (rootAfterNet path).head? = some slash then
    rootAfterNet path
  else if hasNet (findFirstComponent path) = false
      ∧ (findFirstComponent path).head? = some slash then
    findFirstComponent path
  else []

def rootPath : Bytes :=
  if hasNet (findFirstComponent path) then
    if (rootAfterNet path).head? = some slash then
      path.take ((findFirstComponent path).length + (rootAfterNet path).length)
    else findFirstComponent path
  else if (findFirstComponent path).head? = some slash then findFirstComponent path
  else []

def relativePath : Bytes := path.drop (rootPath path).length

def isAbsolute : Bool := rootDirectory path ≠ []

/-- Append a component to a path. -/
def append (path component : Bytes) : Bytes :=
  if path.getLast? = some slash then path ++ component.dropWhile (· = slash)
  else if component.head? ≠ some slash ∧ ¬ (path = [] ∨ rootName component ≠ []) then
    path ++ [slash] ++ component
  else path ++ component

/-- Make a path absolute. -/
def makeAbsolute (currentDirectory path : Bytes) : Bytes :=
  if rootDirectory path ≠ [] then path
  else
    [rootName path, rootDirectory currentDirectory, relativePath currentDirectory,
      relativePath path].foldl append []

/-! ### Parents and stems -/

/-- Where the file name starts; for a path that ends with a separator, the position of that. -/
def filenamePos : ℕ :=
  if path.getLast? = some slash then path.length - 1
  else
    match path.reverse.findIdx? (· = slash) with
    | none => 0
    | some i =>
        let pos := path.length - 1 - i
        if pos = 1 ∧ path.head? = some slash then 0 else pos + 1

/-- Where the root directory is. -/
def rootDirStart : Option ℕ :=
  if 3 < path.length ∧ path[0]? = some slash ∧ path[1]? = some slash ∧ path[2]? ≠ some slash then
    ((path.drop 2).findIdx? (· = slash)).map (· + 2)
  else if path.head? = some slash then some 0
  else none

/-- Go back over separators, at most to the root directory. -/
def skipSeparators (path : Bytes) : (endPos : ℕ) → ℕ
  | 0 => 0
  | endPos + 1 =>
      if (rootDirStart path).all (· < endPos + 1) ∧ path[endPos]? = some slash then
        skipSeparators path endPos
      else endPos + 1

def parentPathEnd : ℕ :=
  let endPos := skipSeparators path (filenamePos path)
  if rootDirStart path = some endPos ∧ path[filenamePos path]? ≠ some slash then endPos + 1
  else endPos

def parentPath : Bytes := path.take (parentPathEnd path)

/-- The last component of a path; it is `.` for a path that ends with a separator that is not the
root directory. -/
def filename : Bytes :=
  let endPos := lastEnd path path.length
  if path.getLast? = some slash ∧ (rootDirStart path).all (· < endPos - 1) then [dot]
  else (path.take endPos).drop (filenamePos (path.take endPos))
where
  /-- Go back over separators, unless one is the root directory. -/
  lastEnd (path : Bytes) : (endPos : ℕ) → ℕ
    | 0 => 0
    | endPos + 1 =>
        if rootDirStart path ≠ some endPos ∧ path[endPos]? = some slash then lastEnd path endPos
        else endPos + 1

/-- The file name without its extension. -/
def stem : Bytes :=
  match (filename path).reverse.findIdx? (· = dot) with
  | none => filename path
  | some i =>
      if filename path = [dot] ∨ filename path = [dot, dot] then filename path
      else (filename path).take ((filename path).length - 1 - i)

/-! ### The loop -/

/-- Find the end of the parent directory, going backwards. -/
def findParent (tmp : Bytes) (start : ℕ) : (dst : ℕ) → Except Fault ℕ
  | 0 => return 0
  | dst + 1 =>
      if start < dst + 1 then do
        let c ← read tmp (dst + 1)
        if c = slash then return dst + 2 else findParent tmp start dst
      else return dst + 1

variable (tmp : Bytes)

/-- Move the destination to the previous directory. -/
def moveToParent (start dst : ℕ) : Except Fault (Bytes × ℕ) :=
  if dst - start ≤ 1 then return (tmp, dst)
  else do
    let dst ← findParent tmp start (dst - 2)
    if dst = start then
      let tmp ← write tmp dst slash
      return (tmp, dst + 1)
    else return (tmp, dst)

/-- Whether the destination is not behind a separator. -/
def needsSlash (start dst : ℕ) : Except Fault Bool :=
  if dst = start then return true
  else do
    let c ← read tmp (dst - 1)
    return c ≠ slash

/-- Write a separator, unless the destination is behind one. -/
def writeSlash (start dst : ℕ) : Except Fault (Bytes × ℕ) := do
  if ← needsSlash tmp start dst then
    let tmp ← write tmp dst slash
    return (tmp, dst + 1)
  else return (tmp, dst)

/-- Whether there is a byte at a position that is not a separator. -/
def isInName (position : ℕ) : Except Fault Bool :=
  if position < tmp.length then do
    let c ← read tmp position
    return c ≠ slash
  else return false

/-- The part of the loop that handles what follows a separator; `loop` goes on after that. -/
def afterSlash (start : ℕ) (loop : (tmp : Bytes) → (src dst : ℕ) → Except Fault (Bytes × ℕ))
    (tmp : Bytes) (src dst : ℕ) : Except Fault (Bytes × ℕ) :=
  if tmp.length ≤ src + 1 then return (tmp, dst)
  else do
    let c ← read tmp (src + 1)
    if c ≠ dot then loop tmp (src + 1) dst
    else if tmp.length ≤ src + 2 then loop tmp (src + 2) dst
    else
      let d ← read tmp (src + 2)
      if d ≠ dot then
        if d = slash then loop tmp (src + 2) dst
        else
          let tmp ← write tmp dst c
          loop tmp (src + 2) (dst + 1)
      else if ← isInName tmp (src + 3) then loop tmp (src + 1) dst
      else
        let (tmp, dst) ← moveToParent tmp start dst
        if src + 3 < tmp.length then loop tmp (src + 3) dst else return (tmp, dst)

/-- The loop of `normalizePath`; the normal form is what is before the destination in the end. -/
def normalizeLoop (start : ℕ) : (steps : ℕ) → (tmp : Bytes) → (src dst : ℕ) →
    Except Fault (Bytes × ℕ)
  | 0, _, _, _ => .error .unterminated
  | steps + 1, tmp, src, dst =>
      if src < tmp.length then do
        let c ← read tmp src
        if c ≠ slash then
          let tmp ← write tmp dst c
          normalizeLoop start steps tmp (src + 1) (dst + 1)
        else
          let (tmp, dst) ← writeSlash tmp start dst
          afterSlash start (normalizeLoop start steps) tmp src dst
      else return (tmp, dst)

/-- Make a path absolute and remove the components `.` and `..`. There is no result if the
path could not be made absolute. -/
def normalizePath (workingDirectory path : Bytes) : Except Fault (Option Bytes) :=
  let tmp := makeAbsolute workingDirectory path
  if tmp = [] ∨ isAbsolute tmp = false then return none
  else do
    let start := (rootName tmp).length
    let (tmp, dst) ← normalizeLoop start (tmp.length + 1) tmp start start
    return some (tmp.take dst)

/-! ### The loop without the buffer -/

/-- Write a separator behind what was written, unless it ends with one. -/
def close (out : Bytes) : Bytes := if out.getLast? = some slash then out else out ++ [slash]

/-- What the loop makes of the rest of a path after it has written `out`. A directory is
left only if what was written is a sequence of directories. -/
inductive Compacts : (out rest result : Bytes) → Prop
  | nil {out : Bytes} : Compacts out [] out
  | copy {out rest result : Bytes} {c : UInt8} (hc : c ≠ slash)
      (h : Compacts (out ++ [c]) rest result) : Compacts out (c :: rest) result
  | separatorEnd {out : Bytes} : Compacts out [slash] (close out)
  | separator {out rest result : Bytes} {c : UInt8} (hc : c ≠ dot)
      (h : Compacts (close out) (c :: rest) result) : Compacts out (slash :: c :: rest) result
  | currentEnd {out : Bytes} : Compacts out [slash, dot] (close out)
  | current {out rest result : Bytes} (h : Compacts (close out) (slash :: rest) result) :
      Compacts out (slash :: dot :: slash :: rest) result
  | dotName {out rest result : Bytes} {c : UInt8} (hc : c ≠ dot) (hc' : c ≠ slash)
      (h : Compacts (close out ++ [dot]) (c :: rest) result) :
      Compacts out (slash :: dot :: c :: rest) result
  | dotsName {out rest result : Bytes} {c : UInt8} (hc : c ≠ slash)
      (h : Compacts (close out) (dot :: dot :: c :: rest) result) :
      Compacts out (slash :: dot :: dot :: c :: rest) result
  | rootEnd {out : Bytes} (hout : close out = [slash]) :
      Compacts out [slash, dot, dot] [slash]
  | root {out rest result : Bytes} (hout : close out = [slash])
      (h : Compacts [slash] (slash :: rest) result) :
      Compacts out (slash :: dot :: dot :: slash :: rest) result
  | parentEnd {out front name : Bytes} (hout : close out = front ++ slash :: name ++ [slash])
      (hname : name ≠ []) (hslash : slash ∉ name) :
      Compacts out [slash, dot, dot] (front ++ [slash])
  | parent {out front name rest result : Bytes}
      (hout : close out = front ++ slash :: name ++ [slash]) (hname : name ≠ [])
      (hslash : slash ∉ name) (h : Compacts (front ++ [slash]) (slash :: rest) result) :
      Compacts out (slash :: dot :: dot :: slash :: rest) result

/-- The buffer while it is rewritten: what was written comes before the destination, and what
is still to be read comes from the source on. -/
structure Rewrites (front tmp : Bytes) (src dst : ℕ) (out rest : Bytes) : Prop where
  le : dst ≤ src
  le_length : src ≤ tmp.length
  take : tmp.take dst = front ++ out
  drop : tmp.drop src = rest

namespace Rewrites

variable {front tmp out rest : Bytes} {src dst : ℕ} {c : UInt8}

section

variable (h : Rewrites front tmp src dst out rest)

include h

theorem dst_eq :
  dst = front.length + out.length
  := by
  have hlength := congrArg length h.take
  rw [length_take, length_append] at hlength
  have hle := h.le
  have hle' := h.le_length
  omega

theorem add_length :
  src + rest.length = tmp.length
  := by
  rw [← h.drop, length_drop]
  exact Nat.add_sub_cancel' h.le_length

theorem read_eq {n : ℕ} (hc : rest[n]? = some c) :
  read tmp (src + n) = .ok c
  := by
  rw [← h.drop, getElem?_drop] at hc
  rw [Buffer.read, hc]

omit h in
theorem read_head (h : Rewrites front tmp src dst out (c :: rest)) :
  read tmp src = .ok c
  := h.read_eq (n := 0) rfl

theorem read_written {n : ℕ} (hc : out[n]? = some c) :
  read tmp (front.length + n) = .ok c
  := by
  have hlt : front.length + n < dst := by
    have hlt := (List.getElem?_eq_some_iff.mp hc).1
    have hdst := h.dst_eq
    omega
  have htake : (tmp.take dst)[front.length + n]? = some c := by
    rw [h.take, List.getElem?_append_right (Nat.le_add_right _ _), Nat.add_sub_cancel_left, hc]
  rw [List.getElem?_take_of_lt hlt] at htake
  rw [Buffer.read, htake]

end

section

variable (h : Rewrites front tmp src dst out (c :: rest))
include h

theorem tail :
  Rewrites front tmp (src + 1) dst out rest
  := by
  have hlength := h.add_length
  rw [length_cons] at hlength
  refine ⟨le_succ_of_le h.le, by omega, h.take, ?_⟩
  rw [← tail_drop, h.drop]
  rfl

theorem write_eq (d : UInt8) :
  ∃ tmp', write tmp dst d = .ok tmp' ∧ Rewrites front tmp' (src + 1) (dst + 1) (out ++ [d]) rest
  := by
  have hlength := h.add_length
  rw [length_cons] at hlength
  have hle := h.le
  refine ⟨tmp.set dst d, if_pos (by omega), by omega, ?_, ?_, ?_⟩
  · rw [length_set]
    omega
  · rw [take_add_one, take_set_of_le (le_refl _), h.take,
      getElem?_set_self (by omega), ← append_assoc]
    rfl
  · rw [drop_set_of_lt (by omega), ← tail_drop, h.drop]
    rfl

end

end Rewrites

namespace Rewrites

variable {front tmp out rest : Bytes} {src dst : ℕ}

theorem needsSlash_eq (h : Rewrites front tmp src dst out rest) :
  needsSlash tmp front.length dst = .ok (out.getLast? ≠ some slash)
  := by
  have hdst := h.dst_eq
  rw [needsSlash]
  obtain rfl | ⟨out, c, rfl⟩ := out.eq_nil_or_concat'
  · rw [if_pos (by simpa using hdst)]
    rfl
  · rw [length_append, length_singleton] at hdst
    have hread := h.read_written (c := c) (n := out.length) (by simp)
    rw [if_neg (by omega), show dst - 1 = front.length + out.length by omega, hread]
    simp [bind, Except.bind, pure, Except.pure]

/-- A separator that was read is written, unless there is one already. -/
theorem writeSlash_eq (h : Rewrites front tmp src dst out (slash :: rest)) :
  ∃ tmp' dst', writeSlash tmp front.length dst = .ok (tmp', dst')
    ∧ Rewrites front tmp' (src + 1) dst' (close out) rest
  := by
  rw [writeSlash, h.needsSlash_eq, close]
  simp only [bind, Except.bind, decide_eq_true_eq]
  by_cases hlast : out.getLast? = some slash
  · rw [if_neg (not_not.mpr hlast), if_pos hlast]
    exact ⟨tmp, dst, rfl, h.tail⟩
  · obtain ⟨tmp', hwrite, h'⟩ := h.write_eq slash
    rw [if_pos hlast, if_neg hlast, hwrite]
    exact ⟨tmp', dst + 1, rfl, h'⟩

theorem isInName_nil (h : Rewrites front tmp src dst out []) :
  isInName tmp src = .ok false
  := by
  have hlength := h.add_length
  rw [isInName, if_neg (by simpa using hlength.ge)]
  rfl

theorem isInName_cons {c : UInt8} (h : Rewrites front tmp src dst out (c :: rest)) :
  isInName tmp src = .ok (c ≠ slash)
  := by
  have hlength := h.add_length
  rw [length_cons] at hlength
  have hread := h.read_eq (n := 0) rfl
  rw [isInName, if_pos (by omega), show read tmp src = .ok c from hread]
  rfl

variable {parents name : Bytes}

section

variable (h : Rewrites front tmp src dst (parents ++ slash :: name ++ [slash]) rest)
include h

/-- The name of a directory is passed backwards, up to the separator before it. -/
theorem findParent_eq (hslash : slash ∉ name) {n : ℕ} (hn : n ≤ name.length) :
  findParent tmp front.length (front.length + parents.length + n)
    = .ok (if parents = [] then front.length else front.length + parents.length + 1)
  := by
  induction n with
  | zero =>
    obtain rfl | hparents := eq_or_ne parents []
    · cases hfront : front.length with
      | zero => rfl
      | succ start =>
        rw [length_nil, findParent, if_neg (by omega)]
        rfl
    · obtain ⟨m, hm⟩ := exists_eq_add_one_of_ne_zero (length_pos_of_ne_nil hparents).ne'
      have hread := h.read_written (c := slash) (n := parents.length) (by simp)
      rw [if_neg hparents, hm, ← add_assoc, findParent, if_pos (by omega),
        show front.length + m + 1 = front.length + parents.length by omega, hread]
      exact congrArg Except.ok
        (show front.length + m + 2 = front.length + parents.length + 1 by omega)
  | succ n ih =>
    have hlt : n < name.length := hn
    have hget : (parents ++ slash :: name ++ [slash])[parents.length + n + 1]?
        = some name[n] := by
      rw [append_assoc, getElem?_append_right (by omega), cons_append,
        show parents.length + n + 1 - parents.length = n + 1 by omega, getElem?_cons_succ,
        getElem?_append_left hlt, getElem?_eq_getElem hlt]
    have hread := h.read_written hget
    have hne : name[n] ≠ slash := ne_of_mem_of_not_mem (getElem_mem hlt) hslash
    rw [← add_assoc, findParent, if_pos (by omega),
      show front.length + parents.length + n + 1 = front.length + (parents.length + n + 1) by
        omega, hread]
    simp only [bind, Except.bind, if_neg hne]
    exact ih (le_of_lt hlt)

/-- The last directory that was written is left. -/
theorem moveToParent_eq (hslash : slash ∉ name) :
  ∃ tmp' dst', moveToParent tmp front.length dst = .ok (tmp', dst')
    ∧ Rewrites front tmp' src dst' (parents ++ [slash]) rest
  := by
  have hdst := h.dst_eq
  have hle := h.le
  have hle' := h.le_length
  simp only [length_append, length_cons, length_nil] at hdst
  have hparent := h.findParent_eq hslash (le_refl _)
  rw [moveToParent, if_neg (by omega),
    show dst - 2 = front.length + parents.length + name.length by omega, hparent]
  simp only [bind, Except.bind]
  have htake (n : ℕ) (hn : n ≤ dst) : tmp.take n
      = (front ++ (parents ++ slash :: name ++ [slash])).take n := by
    rw [← h.take, take_take, min_eq_left hn]
  obtain rfl | hparents := eq_or_ne parents []
  · rw [if_pos rfl, if_pos rfl, write, if_pos (by omega)]
    refine ⟨_, _, rfl, by omega, ?_, ?_, ?_⟩
    · rw [length_set]
      exact hle'
    · rw [take_add_one, take_set_of_le (le_refl _), htake _ (by omega),
        take_left, getElem?_set_self (by omega)]
      rfl
    · rw [drop_set_of_lt (by omega), h.drop]
  · rw [if_neg hparents, if_neg (by omega)]
    refine ⟨_, _, rfl, by omega, hle', ?_, h.drop⟩
    rw [htake _ (by omega), show front.length + parents.length + 1
      = (front ++ (parents ++ [slash])).length by simp; omega]
    rw [show front ++ (parents ++ slash :: name ++ [slash])
      = front ++ (parents ++ [slash]) ++ (name ++ [slash]) by simp]
    apply take_left

end

theorem moveToParent_root (h : Rewrites front tmp src dst [slash] rest) :
  moveToParent tmp front.length dst = .ok (tmp, dst)
  := by
  have hdst := h.dst_eq
  rw [length_singleton] at hdst
  rw [moveToParent, if_pos (by omega)]
  rfl

end Rewrites

variable {front tmp out rest : Bytes} {src dst steps : ℕ}

theorem normalizeLoop_nil (h : Rewrites front tmp src dst out []) (hsteps : 0 < steps) :
  normalizeLoop front.length steps tmp src dst = .ok (tmp, dst)
  := by
  obtain ⟨n, rfl⟩ := exists_eq_add_one_of_ne_zero hsteps.ne'
  have hlength := h.add_length
  rw [normalizeLoop, if_neg (by simpa using hlength.ge)]
  rfl

/-- A pass of the loop at a separator. -/
theorem normalizeLoop_slash (h : Rewrites front tmp src dst out (slash :: rest))
    (hsteps : rest.length + 1 < steps) :
  ∃ n tmp' dst', rest.length < n ∧ Rewrites front tmp' (src + 1) dst' (close out) rest
    ∧ normalizeLoop front.length steps tmp src dst
      = afterSlash front.length (normalizeLoop front.length n) tmp' src dst'
  := by
  obtain ⟨n, rfl⟩ := exists_eq_add_one.mpr (zero_lt_of_lt hsteps)
  have hlength := h.add_length
  rw [length_cons] at hlength
  obtain ⟨tmp', dst', hwrite, h'⟩ := h.writeSlash_eq
  refine ⟨n, tmp', dst', lt_of_succ_lt_succ hsteps, h', ?_⟩
  rw [normalizeLoop, if_pos (by omega), h.read_head]
  simp only [bind, Except.bind, ne_eq, not_true_eq_false, if_false, hwrite]

section

variable (loop : (tmp : Bytes) → (src dst : ℕ) → Except Fault (Bytes × ℕ))

/-- The fragment `/` at the end. -/
theorem afterSlash_nil (h : Rewrites front tmp (src + 1) dst out []) :
  afterSlash front.length loop tmp src dst = .ok (tmp, dst)
  := by
  have hlength := h.add_length
  rw [afterSlash, if_pos (by simpa using hlength.ge)]
  rfl

/-- The fragment `/c`. -/
theorem afterSlash_cons {c : UInt8} (h : Rewrites front tmp (src + 1) dst out (c :: rest))
    (hc : c ≠ dot) :
  afterSlash front.length loop tmp src dst = loop tmp (src + 1) dst
  := by
  have hlength := h.add_length
  rw [length_cons] at hlength
  rw [afterSlash, if_neg (by omega), h.read_head]
  simp only [bind, Except.bind, if_pos hc]

/-- The fragment `/.` at the end. -/
theorem afterSlash_dot (h : Rewrites front tmp (src + 1) dst out [dot]) :
  afterSlash front.length loop tmp src dst = loop tmp (src + 2) dst
  := by
  have hlength := h.add_length
  rw [length_singleton] at hlength
  rw [afterSlash, if_neg (by omega), h.read_head]
  simp only [bind, Except.bind, ne_eq, not_true_eq_false, if_false]
  rw [if_pos (by omega)]

/-- The fragment `/.c`. -/
theorem afterSlash_dot_cons {c : UInt8}
    (h : Rewrites front tmp (src + 1) dst out (dot :: c :: rest)) (hc : c ≠ dot) :
  afterSlash front.length loop tmp src dst
    = if c = slash then loop tmp (src + 2) dst
      else write tmp dst dot >>= fun tmp => loop tmp (src + 2) (dst + 1)
  := by
  have hlength := h.add_length
  rw [length_cons, length_cons] at hlength
  rw [afterSlash, if_neg (by omega), h.read_head]
  simp only [bind, Except.bind, ne_eq, not_true_eq_false, if_false]
  rw [if_neg (by omega), h.tail.read_head]
  simp only [hc, not_false_eq_true, if_true]

/-- The fragment `/..c`. -/
theorem afterSlash_dots_cons {c : UInt8}
    (h : Rewrites front tmp (src + 1) dst out (dot :: dot :: c :: rest)) (hc : c ≠ slash) :
  afterSlash front.length loop tmp src dst = loop tmp (src + 1) dst
  := by
  have hlength := h.add_length
  simp only [length_cons] at hlength
  rw [afterSlash, if_neg (by omega), h.read_head]
  simp only [bind, Except.bind, ne_eq, not_true_eq_false, if_false]
  rw [if_neg (by omega), h.tail.read_head]
  simp only [not_true_eq_false, if_false, h.tail.tail.isInName_cons, hc, decide_not,
    decide_false, Bool.not_false, if_true]

/-- The fragment `/..`, which is the last one or comes before another separator. -/
theorem afterSlash_dots {tmp' : Bytes} {dst' : ℕ}
    (h : Rewrites front tmp (src + 1) dst out (dot :: dot :: rest))
    (hrest : ∀ c ∈ rest.head?, c = slash)
    (hparent : moveToParent tmp front.length dst = .ok (tmp', dst')) :
  afterSlash front.length loop tmp src dst
    = if src + 3 < tmp'.length then loop tmp' (src + 3) dst' else .ok (tmp', dst')
  := by
  have hlength := h.add_length
  simp only [length_cons] at hlength
  have hname : isInName tmp (src + 3) = .ok false := by
    cases rest with
    | nil => exact h.tail.tail.isInName_nil
    | cons c rest =>
      obtain rfl := hrest c rfl
      rw [h.tail.tail.isInName_cons]
      simp
  rw [afterSlash, if_neg (by omega), h.read_head]
  simp only [bind, Except.bind, ne_eq, not_true_eq_false, if_false]
  rw [if_neg (by omega), h.tail.read_head]
  simp only [hname, hparent]
  rfl

end

/-- The loop rewrites the buffer as `Compacts` says. -/
theorem Compacts.normalizeLoop_eq {result : Bytes} (hcompacts : Compacts out rest result)
    (h : Rewrites front tmp src dst out rest) (hsteps : rest.length < steps) :
  ∃ tmp' dst', normalizeLoop front.length steps tmp src dst = .ok (tmp', dst')
    ∧ tmp'.take dst' = front ++ result
  := by
  induction hcompacts generalizing tmp src dst steps with
  | nil => exact ⟨tmp, dst, normalizeLoop_nil h hsteps, h.take⟩
  | @copy out rest result c hc hrest ih =>
    obtain ⟨steps, rfl⟩ := exists_eq_add_one.mpr (zero_lt_of_lt hsteps)
    have hlength := h.add_length
    rw [length_cons] at hlength hsteps
    obtain ⟨tmp', hwrite, h'⟩ := h.write_eq c
    rw [normalizeLoop, if_pos (by omega), h.read_head]
    simp only [bind, Except.bind, if_pos hc, hwrite]
    exact ih h' (by omega)
  | separatorEnd =>
    obtain ⟨n, tmp', dst', hn, h', hloop⟩ := normalizeLoop_slash h hsteps
    rw [hloop, afterSlash_nil _ h']
    exact ⟨tmp', dst', rfl, h'.take⟩
  | separator hc hrest ih =>
    obtain ⟨n, tmp', dst', hn, h', hloop⟩ := normalizeLoop_slash h hsteps
    rw [hloop, afterSlash_cons _ h' hc]
    exact ih h' hn
  | currentEnd =>
    obtain ⟨n, tmp', dst', hn, h', hloop⟩ := normalizeLoop_slash h hsteps
    rw [hloop, afterSlash_dot _ h', normalizeLoop_nil h'.tail (zero_lt_of_lt hn)]
    exact ⟨tmp', dst', rfl, h'.take⟩
  | current hrest ih =>
    obtain ⟨n, tmp', dst', hn, h', hloop⟩ := normalizeLoop_slash h hsteps
    rw [hloop, afterSlash_dot_cons _ h' (by decide)]
    exact ih h'.tail (lt_of_succ_lt hn)
  | dotName hc hc' hrest ih =>
    obtain ⟨n, tmp', dst', hn, h', hloop⟩ := normalizeLoop_slash h hsteps
    obtain ⟨tmp'', hwrite, h''⟩ := h'.write_eq dot
    rw [hloop, afterSlash_dot_cons _ h' hc, if_neg hc', hwrite]
    exact ih h'' (lt_of_succ_lt hn)
  | dotsName hc hrest ih =>
    obtain ⟨n, tmp', dst', hn, h', hloop⟩ := normalizeLoop_slash h hsteps
    rw [hloop, afterSlash_dots_cons _ h' hc]
    exact ih h' hn
  | rootEnd hout =>
    obtain ⟨n, tmp', dst', hn, h', hloop⟩ := normalizeLoop_slash h hsteps
    rw [hout] at h'
    rw [hloop, afterSlash_dots _ h' (by simp) h'.moveToParent_root,
      if_neg (by simpa using h'.tail.tail.add_length.ge)]
    exact ⟨tmp', dst', rfl, h'.take⟩
  | root hout hrest ih =>
    obtain ⟨n, tmp', dst', hn, h', hloop⟩ := normalizeLoop_slash h hsteps
    rw [hout] at h'
    have hlength := h'.tail.tail.add_length
    rw [length_cons] at hlength
    rw [hloop, afterSlash_dots _ h' (by simp) h'.moveToParent_root, if_pos (by omega)]
    rw [length_cons, length_cons] at hn
    exact ih h'.tail.tail (by omega)
  | parentEnd hout hname hslash =>
    obtain ⟨n, tmp', dst', hn, h', hloop⟩ := normalizeLoop_slash h hsteps
    rw [hout] at h'
    obtain ⟨tmp'', dst'', hparent, h''⟩ := h'.moveToParent_eq hslash
    rw [hloop, afterSlash_dots _ h' (by simp) hparent,
      if_neg (by simpa using h''.tail.tail.add_length.ge)]
    exact ⟨tmp'', dst'', rfl, h''.take⟩
  | parent hout hname hslash hrest ih =>
    obtain ⟨n, tmp', dst', hn, h', hloop⟩ := normalizeLoop_slash h hsteps
    rw [hout] at h'
    obtain ⟨tmp'', dst'', hparent, h''⟩ := h'.moveToParent_eq hslash
    have hlength := h''.tail.tail.add_length
    rw [length_cons] at hlength
    rw [hloop, afterSlash_dots _ h' (by simp) hparent, if_pos (by omega)]
    rw [length_cons, length_cons] at hn
    exact ih h''.tail.tail (by omega)

end LLBuild.Ninja.Path

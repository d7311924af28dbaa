import LLBuild.Basic.BinaryCoding
import Mathlib.Data.List.TakeWhile

/-!
# The evaluation of strings

Strings of a Ninja manifest hold escape sequences and references to variables.  `scan` is
the loop of `evalString` over a string: it finds the pieces of the string, which are text,
references to be looked up and errors.  `Reads` is the grammar of strings; it is unambiguous,
and what the loop finds is what the grammar says.
-/

namespace LLBuild.Ninja

open List

open BinaryCoding

variable (c : UInt8)

/-- The characters of the locale `C` that are white space. -/
def isSpace : Bool := c ∈ ascii " \t\n\x0b\x0c\r"

/-- The characters of the names of variables. -/
def isIdentifierChar : Bool :=
  ('a'.toUInt8 ≤ c && c ≤ 'z'.toUInt8) || ('A'.toUInt8 ≤ c && c ≤ 'Z'.toUInt8)
    || ('0'.toUInt8 ≤ c && c ≤ '9'.toUInt8) || c ∈ ascii "_.-"

/-- The characters of the names of variables that need no braces. -/
def isSimpleIdentifierChar : Bool :=
  ('a'.toUInt8 ≤ c && c ≤ 'z'.toUInt8) || ('A'.toUInt8 ≤ c && c ≤ 'Z'.toUInt8)
    || ('0'.toUInt8 ≤ c && c ≤ '9'.toUInt8) || c ∈ ascii "_-"

/-- A piece of a string. -/
inductive StringPiece
  | text (text : Bytes)
  | reference (name : Bytes)
  | error (message : Bytes)
  deriving DecidableEq

/-- The character that starts escape sequences and references. -/
def dollar : UInt8 := '$'.toUInt8

def openBrace : UInt8 := '\x7b'.toUInt8

def closeBrace : UInt8 := '\x7d'.toUInt8

namespace StringPiece

/-- The piece before the next dollar sign, if it is not empty. -/
def ofText (text : Bytes) : List StringPiece := if text = [] then [] else [.text text]

/-- The reference to a variable in braces. -/
def ofBraced (name : Bytes) : StringPiece :=
  if name.all isIdentifierChar then .reference name
  else .error (ascii "invalid variable name in reference")

end StringPiece

/-- The part of the loop that handles a dollar sign; `scan` goes on after that. -/
def scanEscape (scan : Bytes → List StringPiece) : Bytes → List StringPiece
  | [] => []
  | [_] => [.error (ascii "invalid '$'-escape at end of string")]
  | _ :: c :: pos =>
    -- A newline continuation is skipped with all leading space.
    if c = '\n'.toUInt8 then scan (pos.dropWhile isSpace)
    else if c ∈ ascii " :$" then .text [c] :: scan pos
    else if c = openBrace then
      match pos.dropWhile (· ≠ closeBrace) with
      | [] => [.error (ascii "invalid variable reference in string (missing trailing '\x7d')")]
      | _ :: rest => .ofBraced (pos.takeWhile (· ≠ closeBrace)) :: scan rest
    else if isSimpleIdentifierChar c then
      .reference (c :: pos.takeWhile isSimpleIdentifierChar)
        :: scan (pos.dropWhile isSimpleIdentifierChar)
    else [.error (ascii "invalid '$'-escape (literal '$' should be written as '$$')")]

/-- The loop over a string, for a number of passes. -/
def scan : ℕ → Bytes → List StringPiece
  | 0, _ => []
  | passes + 1, string =>
    StringPiece.ofText (string.takeWhile (· ≠ dollar))
      ++ scanEscape (scan passes) (string.dropWhile (· ≠ dollar))

/-- The pieces of a string. Every pass of the loop that does not end it moves on. -/
def pieces (string : Bytes) : List StringPiece := scan (string.length + 1) string

/-- The grammar of strings. -/
inductive Reads : Bytes → List StringPiece → Prop
  | nil : Reads [] []
  /-- Text up to the next dollar sign stands for itself. -/
  | text {text rest : Bytes} {ps : List StringPiece} (htext : text ≠ [])
      (hdollar : dollar ∉ text) (hrest : ∀ c ∈ rest.head?, c = dollar) (h : Reads rest ps) :
      Reads (text ++ rest) (.text text :: ps)
  /-- A space, a colon and a dollar sign can be escaped. -/
  | escape {c : UInt8} {rest : Bytes} {ps : List StringPiece} (hc : c ∈ ascii " :$")
      (h : Reads rest ps) :
      Reads (dollar :: c :: rest) (.text [c] :: ps)
  /-- An escaped newline is ignored, with the white space after it. -/
  | newline {space rest : Bytes} {ps : List StringPiece} (hspace : ∀ c ∈ space, isSpace c)
      (hrest : ∀ c ∈ rest.head?, isSpace c = false) (h : Reads rest ps) :
      Reads (dollar :: '\n'.toUInt8 :: (space ++ rest)) ps
  /-- A name in braces is a reference. -/
  | braced {name rest : Bytes} {ps : List StringPiece} (hname : ∀ c ∈ name, isIdentifierChar c)
      (h : Reads rest ps) :
      Reads (dollar :: openBrace :: (name ++ closeBrace :: rest)) (.reference name :: ps)
  /-- A simple name needs no braces, and is as long as it can be. -/
  | simple {name rest : Bytes} {ps : List StringPiece} (hname : name ≠ [])
      (hchars : ∀ c ∈ name, isSimpleIdentifierChar c)
      (hrest : ∀ c ∈ rest.head?, isSimpleIdentifierChar c = false) (h : Reads rest ps) :
      Reads (dollar :: (name ++ rest)) (.reference name :: ps)
  /-- Other text in braces is an error. -/
  | invalidName {name rest : Bytes} {ps : List StringPiece} (hbrace : closeBrace ∉ name)
      (hname : ∃ c ∈ name, isIdentifierChar c = false) (h : Reads rest ps) :
      Reads (dollar :: openBrace :: (name ++ closeBrace :: rest))
        (.error (ascii "invalid variable name in reference") :: ps)
  /-- An open brace without a closing one is an error, and ends the string. -/
  | unterminated {rest : Bytes} (hbrace : closeBrace ∉ rest) :
      Reads (dollar :: openBrace :: rest)
        [.error (ascii "invalid variable reference in string (missing trailing '\x7d')")]
  /-- A dollar sign at the end is an error. -/
  | atEnd : Reads [dollar] [.error (ascii "invalid '$'-escape at end of string")]
  /-- Any other character after a dollar sign is an error, and ends the string. -/
  | invalid {c : UInt8} {rest : Bytes} (hc : c ∉ ascii "\n :$\x7b")
      (hsimple : isSimpleIdentifierChar c = false) :
      Reads (dollar :: c :: rest)
        [.error (ascii "invalid '$'-escape (literal '$' should be written as '$$')")]

/-! ### The loop finds what the grammar says -/

variable {name rest : Bytes} {ps : List StringPiece}

theorem reads_ofBraced (hbrace : closeBrace ∉ name) (h : Reads rest ps) :
  Reads (dollar :: openBrace :: (name ++ closeBrace :: rest)) (.ofBraced name :: ps)
  := by
  rw [StringPiece.ofBraced]
  split_ifs with hname
  · exact .braced (all_eq_true.mp hname) h
  · rw [all_eq_true, not_forall] at hname
    obtain ⟨c, hc⟩ := hname
    rw [Classical.not_imp, Bool.not_eq_true] at hc
    exact .invalidName hbrace ⟨c, hc⟩ h

theorem notMem_takeWhile_ne (c : UInt8) (string : Bytes) :
  c ∉ string.takeWhile (· ≠ c)
  := by
  intro hc
  have h := mem_takeWhile_imp hc
  simp at h

theorem of_mem_head?_dropWhile (p : UInt8 → Bool) (string : Bytes) :
  ∀ c ∈ (string.dropWhile p).head?, p c = false
  := by
  intro c hc
  have h := head?_dropWhile_not p string
  rw [hc] at h
  exact h

theorem of_mem_escapes :
  ∀ c ∈ ascii "\n :$\x7b", c = '\n'.toUInt8 ∨ c ∈ ascii " :$" ∨ c = openBrace
  := by decide +kernel

variable {string : Bytes}

/-- A dollar sign, and what belongs to it, is read. -/
theorem reads_scanEscape {scan : Bytes → List StringPiece}
    (hscan : ∀ rest, rest.length < string.length → Reads rest (scan rest))
    (hdollar : ∀ c ∈ string.head?, c = dollar) :
  Reads string (scanEscape scan string)
  := by
  match string, hdollar with
  | [], _ => exact .nil
  | [c], hdollar =>
    obtain rfl := hdollar c rfl
    exact .atEnd
  | d :: c :: pos, hdollar =>
    obtain rfl := hdollar d rfl
    have hshorter (rest : Bytes) (h : rest.length ≤ pos.length) : Reads rest (scan rest) :=
      hscan rest (Nat.lt_succ_of_le (Nat.le_succ_of_le h))
    have hsplit (p : UInt8 → Bool) : pos.takeWhile p ++ pos.dropWhile p = pos :=
      takeWhile_append_dropWhile
    rw [scanEscape]
    split_ifs with hnewline hescape hbrace hsimple
    · subst hnewline
      have hspace : ∀ c ∈ pos.takeWhile isSpace, isSpace c := fun _ => mem_takeWhile_imp
      have hrest := hshorter _ (length_dropWhile_le isSpace pos)
      have hread := hrest.newline hspace (of_mem_head?_dropWhile isSpace pos)
      rwa [hsplit] at hread
    · exact .escape hescape (hshorter pos le_rfl)
    · subst hbrace
      have hclose := hsplit (· ≠ closeBrace)
      have hname := notMem_takeWhile_ne closeBrace pos
      split
      next hnil =>
        rw [hnil, append_nil] at hclose
        rw [hclose] at hname
        exact .unterminated hname
      next d rest hcons =>
        obtain rfl : d = closeBrace := by
          have hd := of_mem_head?_dropWhile (· ≠ closeBrace) pos d (by rw [hcons]; rfl)
          simpa using hd
        rw [hcons] at hclose
        have hlength := congrArg length hclose
        rw [length_append, length_cons] at hlength
        have hread := reads_ofBraced hname (hshorter rest (by omega))
        rwa [hclose] at hread
    · have hname : ∀ d ∈ c :: pos.takeWhile isSimpleIdentifierChar, isSimpleIdentifierChar d :=
        forall_mem_cons.mpr ⟨hsimple, fun _ => mem_takeWhile_imp⟩
      have hrest := hshorter _ (length_dropWhile_le isSimpleIdentifierChar pos)
      have hread := hrest.simple (cons_ne_nil _ _) hname
        (of_mem_head?_dropWhile isSimpleIdentifierChar pos)
      rwa [cons_append, hsplit] at hread
    · refine .invalid (fun hc => ?_) (Bool.not_eq_true _ ▸ hsimple)
      obtain hc | hc | hc := of_mem_escapes c hc
      · exact hnewline hc
      · exact hescape hc
      · exact hbrace hc

/-- With enough passes the loop finds the pieces the grammar says. -/
theorem reads_scan {passes : ℕ} (h : string.length < passes) :
  Reads string (scan passes string)
  := by
  induction passes generalizing string with
  | zero => cases h
  | succ passes ih =>
    have hsplit : string.takeWhile (· ≠ dollar) ++ string.dropWhile (· ≠ dollar) = string :=
      takeWhile_append_dropWhile
    have hdollar : ∀ c ∈ (string.dropWhile (· ≠ dollar)).head?, c = dollar := by
      intro c hc
      simpa using of_mem_head?_dropWhile (· ≠ dollar) string c hc
    have hlength := length_dropWhile_le (· ≠ dollar) string
    have hread := reads_scanEscape
      (fun rest hrest => ih (hrest.trans_le (hlength.trans (Nat.le_of_lt_succ h)))) hdollar
    rw [scan, StringPiece.ofText]
    split_ifs with htext
    · rw [htext] at hsplit
      rw [nil_append] at hsplit ⊢
      rwa [hsplit] at hread ⊢
    · have hread := hread.text htext (notMem_takeWhile_ne dollar string) hdollar
      rwa [hsplit] at hread

/-- The pieces of a string are the ones the grammar says. -/
theorem reads_pieces (string : Bytes) :
  Reads string (pieces string)
  := reads_scan (Nat.lt_succ_self _)

/-! ### The grammar is unambiguous -/

theorem takeWhile_append_of_head {p : UInt8 → Bool} {body rest : Bytes} (hbody : ∀ c ∈ body, p c)
    (hrest : ∀ c ∈ rest.head?, p c = false) :
  (body ++ rest).takeWhile p = body ∧ (body ++ rest).dropWhile p = rest
  := by
  rw [takeWhile_append_of_pos hbody, dropWhile_append_of_pos hbody]
  cases rest with
  | nil => exact ⟨append_nil body, rfl⟩
  | cons c rest =>
    have hc := hrest c rfl
    rw [takeWhile_cons, dropWhile_cons, hc]
    exact ⟨append_nil body, rfl⟩

/-- Text up to a dollar sign is a piece of its own. -/
theorem scan_append {text rest : Bytes} (hdollar : dollar ∉ text)
    (hrest : ∀ c ∈ rest.head?, c = dollar) (passes : ℕ) :
  scan (passes + 1) (text ++ rest) = StringPiece.ofText text ++ scanEscape (scan passes) rest
  := by
  have htext : ∀ c ∈ text, decide (c ≠ dollar) = true := by
    intro c hc
    exact decide_eq_true (ne_of_mem_of_not_mem hc hdollar)
  have hrest' : ∀ c ∈ rest.head?, decide (c ≠ dollar) = false := by
    intro c hc
    exact decide_eq_false (not_not.mpr (hrest c hc))
  obtain ⟨htake, hdrop⟩ := takeWhile_append_of_head htext hrest'
  rw [scan, htake, hdrop]

theorem scan_of_head (hrest : ∀ c ∈ rest.head?, c = dollar) (passes : ℕ) :
  scan (passes + 1) rest = scanEscape (scan passes) rest
  := scan_append not_mem_nil hrest passes

theorem scanEscape_brace (hbrace : closeBrace ∉ name) (scan : Bytes → List StringPiece) :
  scanEscape scan (dollar :: openBrace :: (name ++ closeBrace :: rest))
    = .ofBraced name :: scan rest
  := by
  have hname : ∀ c ∈ name, decide (c ≠ closeBrace) = true := by
    intro c hc
    exact decide_eq_true (ne_of_mem_of_not_mem hc hbrace)
  have hrest : ∀ c ∈ (closeBrace :: rest).head?, decide (c ≠ closeBrace) = false := by simp
  obtain ⟨htake, hdrop⟩ := takeWhile_append_of_head hname hrest
  rw [scanEscape, if_neg (by decide), if_neg (by decide), if_pos rfl, htake, hdrop]

theorem mem_escapes :
  ∀ c ∈ ascii " :$", c ∈ ascii "\n :$\x7b"
  := by decide +kernel

theorem scanEscape_simple (hname : name ≠ []) (hchars : ∀ c ∈ name, isSimpleIdentifierChar c)
    (hrest : ∀ c ∈ rest.head?, isSimpleIdentifierChar c = false) (scan : Bytes → List StringPiece) :
  scanEscape scan (dollar :: (name ++ rest)) = .reference name :: scan rest
  := by
  obtain ⟨c, name, rfl⟩ := exists_cons_of_ne_nil hname
  obtain ⟨hc, hchars⟩ := forall_mem_cons.mp hchars
  have hescapes : ∀ c ∈ ascii "\n :$\x7b", isSimpleIdentifierChar c = false := by decide +kernel
  have hc' : c ∉ ascii "\n :$\x7b" := by
    intro h
    rw [hescapes c h] at hc
    cases hc
  obtain ⟨htake, hdrop⟩ := takeWhile_append_of_head hchars hrest
  rw [cons_append, scanEscape, if_neg ?_, if_neg ?_, if_neg ?_, if_pos hc, htake, hdrop]
  · rintro rfl
    exact hc' (by decide)
  · exact fun h => hc' (mem_escapes c h)
  · rintro rfl
    exact hc' (by decide)

/-- A dollar sign is handled in a pass of its own. -/
theorem scan_dollar {passes : ℕ} (h : (dollar :: rest).length < passes) :
  ∃ n, rest.length < n ∧ scan passes (dollar :: rest) = scanEscape (scan n) (dollar :: rest)
  := by
  obtain ⟨n, rfl⟩ := Nat.exists_eq_add_one_of_ne_zero (Nat.ne_zero_of_lt h)
  exact ⟨n, Nat.lt_of_succ_lt_succ h, scan_of_head (by simp) n⟩

/-- The grammar is unambiguous: it reads what the loop finds. -/
theorem Reads.eq_scan (h : Reads string ps) {passes : ℕ} (hpasses : string.length < passes) :
  ps = scan passes string
  := by
  induction h generalizing passes with
  | nil =>
    obtain ⟨n, rfl⟩ := Nat.exists_eq_add_one_of_ne_zero (Nat.ne_zero_of_lt hpasses)
    rfl
  | @text text rest ps htext hdollar hrest h ih =>
    obtain ⟨n, rfl⟩ := Nat.exists_eq_add_one_of_ne_zero (Nat.ne_zero_of_lt hpasses)
    rw [length_append] at hpasses
    have hps := ih (show rest.length < n + 1 by omega)
    rw [scan_of_head hrest] at hps
    rw [scan_append hdollar hrest, ← hps, StringPiece.ofText, if_neg htext]
    rfl
  | @escape c rest ps hc h ih =>
    obtain ⟨n, hn, hscan⟩ := scan_dollar hpasses
    have hnewline : ∀ c ∈ ascii " :$", c ≠ '\n'.toUInt8 := by decide +kernel
    rw [hscan, scanEscape, if_neg (hnewline c hc), if_pos hc, ← ih (Nat.lt_of_succ_lt hn)]
  | @newline space rest ps hspace hrest h ih =>
    obtain ⟨n, hn, hscan⟩ := scan_dollar hpasses
    obtain ⟨-, hdrop⟩ := takeWhile_append_of_head hspace hrest
    rw [length_cons, length_append] at hn
    rw [hscan, scanEscape, if_pos rfl, hdrop, ← ih (by omega)]
  | @braced name rest ps hname h ih =>
    obtain ⟨n, hn, hscan⟩ := scan_dollar hpasses
    have hbrace : closeBrace ∉ name := fun hmem => absurd (hname _ hmem) (by decide)
    rw [length_cons, length_append, length_cons] at hn
    rw [hscan, scanEscape_brace hbrace, ← ih (by omega), StringPiece.ofBraced,
      if_pos (all_eq_true.mpr hname)]
  | @simple name rest ps hname hchars hrest h ih =>
    obtain ⟨n, hn, hscan⟩ := scan_dollar hpasses
    rw [length_append] at hn
    rw [hscan, scanEscape_simple hname hchars hrest, ← ih (by omega)]
  | @invalidName name rest ps hbrace hname h ih =>
    obtain ⟨n, hn, hscan⟩ := scan_dollar hpasses
    obtain ⟨c, hc, hinvalid⟩ := hname
    have hall : ¬ name.all isIdentifierChar = true := by
      intro hall
      rw [all_eq_true.mp hall c hc] at hinvalid
      cases hinvalid
    rw [length_cons, length_append, length_cons] at hn
    rw [hscan, scanEscape_brace hbrace, ← ih (by omega), StringPiece.ofBraced, if_neg hall]
  | @unterminated rest hbrace =>
    obtain ⟨n, hn, hscan⟩ := scan_dollar hpasses
    have hdrop : rest.dropWhile (· ≠ closeBrace) = [] := by
      rw [dropWhile_eq_nil_iff]
      intro c hc
      exact decide_eq_true (ne_of_mem_of_not_mem hc hbrace)
    rw [hscan, scanEscape, if_neg (by decide), if_neg (by decide), if_pos rfl, hdrop]
  | atEnd =>
    obtain ⟨n, hn, hscan⟩ := scan_dollar hpasses
    rw [hscan, scanEscape]
  | @invalid c rest hc hsimple =>
    obtain ⟨n, hn, hscan⟩ := scan_dollar hpasses
    rw [hscan, scanEscape, if_neg ?_, if_neg ?_, if_neg ?_, if_neg (by rw [hsimple]; decide)]
    · rintro rfl
      exact hc (by decide)
    · exact fun h => hc (mem_escapes c h)
    · rintro rfl
      exact hc (by decide)

theorem reads_iff :
  Reads string ps ↔ ps = pieces string
  := by
  constructor
  · intro h
    exact h.eq_scan (Nat.lt_succ_self _)
  · rintro rfl
    exact reads_pieces string

end LLBuild.Ninja

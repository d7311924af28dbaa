import LLBuild.Core.MakefileDepsParser

/-!
# Escaped ends of makefile dependencies

The scanner of words looks at the byte behind a backslash without a look at the end of the
input.  Whether it gets there with the last byte depends on what this byte is a part of: a
backslash in a comment, in a line that is given up, before a colon, or behind another backslash
escapes nothing.

`Reading.next` follows the input byte by byte and keeps what is needed of the past: the part of
the input the next byte belongs to, and what stands directly before it.  The parser has a result
if and only if this does not end behind a backslash that escapes.
-/

namespace LLBuild

open List

open BinaryCoding

namespace MakefileDepsParser

/-! ### Where a byte stands -/

/-- The parts of an input: between rules, in a comment or a line that is given up, in a target,
before the colon, before a dependency, in a dependency, in the rest of a line that is given up
among the dependencies, and behind the first rule if no other one is parsed. -/
inductive Place
  | between
  | line
  | target
  | colon
  | blank
  | word
  | rest
  | stop
  deriving DecidableEq

/-- The bytes before a byte that decide what it means. -/
inductive Pending
  | nothing
  | backslash
  | dollar
  | backslashReturn
  deriving DecidableEq

/-- What the next byte is a part of. -/
structure Reading where
  place : Place
  pending : Pending := .nothing
  deriving DecidableEq

namespace Reading

variable (ignore : Bool) (c : UInt8)

/-- Behind a rule. -/
def ended : Reading := ⟨if ignore then .stop else .between, .nothing⟩

/-- In a line that is given up. -/
def readLine : Reading := if c = '\n'.toUInt8 then ⟨.between, .nothing⟩ else ⟨.line, .nothing⟩

def readRest : Reading := if c = '\n'.toUInt8 then ⟨.blank, .nothing⟩ else ⟨.rest, .nothing⟩

/-- Between rules.  A backslash and a dollar may start a target. -/
def readBetween : Reading :=
  if c = '#'.toUInt8 then ⟨.line, .nothing⟩
  else if c ∈ ascii " \t\n\r" then ⟨.between, .nothing⟩
  else if c = '\\'.toUInt8 then ⟨.between, .backslash⟩
  else if c = '$'.toUInt8 then ⟨.between, .dollar⟩
  else if isWordChar c then ⟨.target, .nothing⟩
  else ⟨.line, .nothing⟩

def readColon : Reading :=
  if c ∈ ascii " \t\r" then ⟨.colon, .nothing⟩
  else if c = '\\'.toUInt8 then ⟨.colon, .backslash⟩
  else if c = ':'.toUInt8 then ⟨.blank, .nothing⟩
  else readLine c

def readTarget : Reading :=
  if c = '\\'.toUInt8 then ⟨.target, .backslash⟩
  else if c = '$'.toUInt8 then ⟨.target, .dollar⟩
  else if isWordChar c then ⟨.target, .nothing⟩
  else readColon c

def readBlank : Reading :=
  if c ∈ ascii " \t\r" then ⟨.blank, .nothing⟩
  else if c = '\n'.toUInt8 then ended ignore
  else if c = '\\'.toUInt8 then ⟨.blank, .backslash⟩
  else if c = '$'.toUInt8 then ⟨.blank, .dollar⟩
  else if isWordChar c then ⟨.word, .nothing⟩
  else ⟨.rest, .nothing⟩

def readWord : Reading :=
  if c = '\\'.toUInt8 then ⟨.word, .backslash⟩
  else if c = '$'.toUInt8 then ⟨.word, .dollar⟩
  else if c = ':'.toUInt8 ∨ isWordChar c then ⟨.word, .nothing⟩
  else readBlank ignore c

/-- Go on with a byte.  A newline behind a backslash continues the line, any other byte is escaped
by it; before the colon nothing is escaped. -/
def next : Reading → Reading
  | ⟨.between, .nothing⟩ => readBetween c
  | ⟨.between, .backslash⟩ => if c = '\n'.toUInt8 then ⟨.between, .nothing⟩ else ⟨.target, .nothing⟩
  | ⟨.between, _⟩ | ⟨.target, .dollar⟩ =>
    if c = '$'.toUInt8 then ⟨.target, .nothing⟩ else readLine c
  | ⟨.line, _⟩ => readLine c
  | ⟨.target, .backslash⟩ => if c = '\n'.toUInt8 then ⟨.colon, .nothing⟩ else ⟨.target, .nothing⟩
  | ⟨.target, _⟩ => readTarget c
  | ⟨.colon, .backslash⟩ =>
    if c = '\n'.toUInt8 then ⟨.colon, .nothing⟩
    else if c = '\r'.toUInt8 then ⟨.colon, .backslashReturn⟩
    else ⟨.line, .nothing⟩
  | ⟨.colon, .backslashReturn⟩ => if c = '\n'.toUInt8 then ⟨.colon, .nothing⟩ else readLine c
  | ⟨.colon, _⟩ => readColon c
  | ⟨.blank, .nothing⟩ => readBlank ignore c
  | ⟨.blank, .backslash⟩ =>
    if c = '\n'.toUInt8 then ⟨.blank, .nothing⟩
    else if c = '\r'.toUInt8 then ⟨.blank, .backslashReturn⟩
    else ⟨.word, .nothing⟩
  | ⟨.blank, .backslashReturn⟩ =>
    if c = '\n'.toUInt8 then ⟨.blank, .nothing⟩ else readWord ignore c
  | ⟨.blank, .dollar⟩ | ⟨.word, .dollar⟩ =>
    if c = '$'.toUInt8 then ⟨.word, .nothing⟩ else readRest c
  | ⟨.word, .backslash⟩ => if c = '\n'.toUInt8 then ⟨.blank, .nothing⟩ else ⟨.word, .nothing⟩
  | ⟨.word, _⟩ => readWord ignore c
  | ⟨.rest, _⟩ => readRest c
  | ⟨.stop, _⟩ => ⟨.stop, .nothing⟩

/-- The next byte is escaped. -/
def isEscaping (reading : Reading) : Bool :=
  reading.pending = .backslash && reading.place ≠ .colon

/-- The byte behind a text is escaped. -/
def escapesEnd (reading : Reading) (text : Bytes) : Bool :=
  (text.foldl (fun reading c => next ignore c reading) reading).isEscaping

variable {ignore} {c}

/-! ### The scanners of blanks and lines -/

theorem mem_blank :
  c ∈ ascii " \t\r" ↔ c = 32 ∨ c = 9 ∨ c = 13
  := by
  simp [ascii]
  exact Iff.rfl

theorem mem_space :
  c ∈ ascii " \t\n\r" ↔ c = 32 ∨ c = 9 ∨ c = 10 ∨ c = 13
  := by
  simp [ascii]
  exact Iff.rfl

theorem newline_eq : '\n'.toUInt8 = 10 := rfl

theorem return_eq : '\r'.toUInt8 = 13 := rfl

theorem backslash_eq : '\\'.toUInt8 = 92 := rfl

variable {reading : Reading} {text : Bytes}

theorem escapesEnd_cons :
  escapesEnd ignore reading (c :: text) = escapesEnd ignore (next ignore c reading) text
  := rfl

variable (ignore) (text)

theorem escapesEnd_line :
  escapesEnd ignore ⟨.line, .nothing⟩ text
    = escapesEnd ignore ⟨.between, .nothing⟩ (skipToEndOfLine text)
  := by
  induction text with
  | nil => rfl
  | cons c text ih =>
    rw [escapesEnd_cons, next, readLine, skipToEndOfLine]
    split_ifs
    · rfl
    · exact ih

theorem escapesEnd_rest :
  escapesEnd ignore ⟨.rest, .nothing⟩ text
    = escapesEnd ignore ⟨.blank, .nothing⟩ (skipToEndOfLine text)
  := by
  induction text with
  | nil => rfl
  | cons c text ih =>
    rw [escapesEnd_cons, next, readRest, skipToEndOfLine]
    split_ifs
    · rfl
    · exact ih

theorem escapesEnd_between (comment : Bool) :
  escapesEnd ignore ⟨if comment then .line else .between, .nothing⟩ text
    = escapesEnd ignore ⟨.between, .nothing⟩
      (skipWhitespaceAndComments comment text)
  := by
  fun_induction skipWhitespaceAndComments comment text with
  | case1 comment => cases comment <;> rfl
  | case2 text ih =>
    rw [if_pos rfl, escapesEnd_cons, next, readLine, if_pos rfl]
    exact ih
  | case3 c text hc ih =>
    rw [if_pos rfl, escapesEnd_cons, next, readLine, if_neg hc]
    exact ih
  | case4 text ih =>
    rw [if_neg Bool.false_ne_true, escapesEnd_cons, next, readBetween, if_pos rfl]
    exact ih
  | case5 c text hc hspace ih =>
    rw [if_neg Bool.false_ne_true, escapesEnd_cons, next, readBetween, if_neg hc, if_pos hspace]
    exact ih
  | case6 => rfl

theorem escapesEnd_blank :
  escapesEnd ignore ⟨.blank, .nothing⟩ text
    = escapesEnd ignore ⟨.blank, .nothing⟩ (skipNonNewlineWhitespace text)
  := by
  fun_induction skipNonNewlineWhitespace text <;>
    simp_all [escapesEnd_cons, next, readBlank, mem_blank, newline_eq, return_eq, backslash_eq]

theorem escapesEnd_colon :
  escapesEnd ignore ⟨.colon, .nothing⟩ text
    = escapesEnd ignore ⟨.colon, .nothing⟩ (skipNonNewlineWhitespace text)
  := by
  fun_induction skipNonNewlineWhitespace text <;>
    simp_all [escapesEnd_cons, next, readColon, mem_blank, newline_eq, return_eq, backslash_eq]

/-! ### The scanner of words -/

/-- A word ends at once: at the end of the text, before an escaped newline, or before a byte that
is none of a word. -/
def StopsWord : Bytes → Prop
  | [] => True
  | [c] => c ≠ '\\'.toUInt8 ∧ ¬ isWordChar c
  | c :: d :: _ => c = '\\'.toUInt8 ∧ d = '\n'.toUInt8
    ∨ c ≠ '\\'.toUInt8 ∧ ¬ (c = '$'.toUInt8 ∧ d = '$'.toUInt8) ∧ ¬ isWordChar c

variable {text}

theorem lexWord_of_stopsWord (h : StopsWord text) (word : Bytes) :
  lexWord word text = some (word, text)
  := by
  match text with
  | [] => rfl
  | [c] => rw [lexWord, if_neg h.1, if_pos h.2]
  | c :: d :: text =>
    rw [lexWord]
    obtain ⟨hc, hd⟩ | ⟨hc, hdollar, hword⟩ := h
    · rw [if_pos hc, if_pos hd]
    · rw [if_neg hc, if_neg hdollar, if_pos hword]

theorem length_lt_of_lexWord {word word' stop : Bytes} (h : ¬ StopsWord text)
    (hlex : lexWord word text = some (word', stop)) :
  stop.length < text.length
  := by
  match text with
  | [] => exact absurd trivial h
  | [c] =>
    rw [lexWord] at hlex
    rw [StopsWord] at h
    split_ifs at hlex with hc hword
    · cases hlex
      exact Nat.one_pos
    · exact absurd ⟨hc, hword⟩ h
  | c :: d :: text =>
    rw [lexWord] at hlex
    rw [StopsWord] at h
    split_ifs at hlex with hc hd hdollar hword
    · exact absurd (.inl ⟨hc, hd⟩) h
    · exact (Nat.lt_succ_of_le (length_le_of_lexWord hlex)).trans (Nat.lt_succ_self _)
    · exact (Nat.lt_succ_of_le (length_le_of_lexWord hlex)).trans (Nat.lt_succ_self _)
    · exact Nat.lt_succ_of_le (length_le_of_lexWord hlex)
    · exact absurd (.inr ⟨hc, hdollar, hword⟩) h

/-- A text that ends a word is read as if the word were over. -/
theorem escapesEnd_of_stopsWord (h : StopsWord text) :
  escapesEnd ignore ⟨.target, .nothing⟩ text
      = escapesEnd ignore ⟨.colon, .nothing⟩ text
    ∧ (text.head? ≠ some ':'.toUInt8 →
      escapesEnd ignore ⟨.word, .nothing⟩ text
        = escapesEnd ignore ⟨.blank, .nothing⟩ text)
  := by
  have hnext (c : UInt8) (text : Bytes) (hc : c ≠ '\\'.toUInt8) (hdollar : c ≠ '$'.toUInt8)
      (hword : ¬ isWordChar c) :
      escapesEnd ignore ⟨.target, .nothing⟩ (c :: text)
        = escapesEnd ignore ⟨.colon, .nothing⟩ (c :: text)
      ∧ ((c :: text).head? ≠ some ':'.toUInt8 →
        escapesEnd ignore ⟨.word, .nothing⟩ (c :: text)
          = escapesEnd ignore ⟨.blank, .nothing⟩ (c :: text)) := by
    simp only [escapesEnd_cons, next, readTarget, readWord, if_neg hc, if_neg hdollar, if_neg hword,
      true_and]
    intro hcolon
    rw [if_neg (by simpa [hword] using hcolon)]
  match text with
  | [] => exact ⟨rfl, fun _ => rfl⟩
  | [c] =>
    by_cases hdollar : c = '$'.toUInt8
    · subst hdollar
      exact ⟨rfl, fun _ => rfl⟩
    · exact hnext c [] h.1 hdollar h.2
  | c :: d :: text =>
    obtain ⟨rfl, rfl⟩ | ⟨hc, hdollars, hword⟩ := h
    · exact ⟨rfl, fun _ => rfl⟩
    by_cases hdollar : c = '$'.toUInt8
    · subst hdollar
      have hd : d ≠ '$'.toUInt8 := fun hd => hdollars ⟨rfl, hd⟩
      constructor
      · show escapesEnd ignore
            (if d = '$'.toUInt8 then ⟨.target, .nothing⟩ else readLine d) text
          = escapesEnd ignore (readLine d) text
        rw [if_neg hd]
      · exact fun _ => rfl
    · exact hnext c (d :: text) hc hdollar hword

section

variable {α β : Type} {start mid stop : Reading} {P Q : Bytes → Prop}

/-- A scanner leaves a rest with the given property, with which reading goes on; or it has no
result, and the byte behind the text is escaped. -/
def Scans (start stop : Reading) (P : Bytes → Prop) (text : Bytes) : Option (α × Bytes) → Prop
  | none => escapesEnd ignore start text
  | some (_, rest) => P rest ∧ escapesEnd ignore start text = escapesEnd ignore stop rest

variable {ignore} {result : Option (α × Bytes)}

theorem Scans.congr {text' : Bytes} (h : Scans ignore start stop P text result)
    (hstart : escapesEnd ignore mid text' = escapesEnd ignore start text) :
  Scans ignore mid stop P text' result
  := by
  cases result with
  | none => exact hstart.trans h
  | some scanned => exact ⟨h.1, hstart.trans h.2⟩

theorem Scans.map (h : Scans ignore start stop P text result) (f : α → β) :
  Scans ignore start stop P text (result.map fun scanned => (f scanned.1, scanned.2))
  := by
  cases result with
  | none => exact h
  | some scanned => exact h

theorem Scans.bind {next : α × Bytes → Option (β × Bytes)}
    (h : Scans ignore start mid P text result)
    (hnext : ∀ scanned, result = some scanned → P scanned.2 →
      Scans ignore mid stop Q scanned.2 (next scanned)) :
  Scans ignore start stop Q text (result.bind next)
  := by
  cases result with
  | none => exact h
  | some scanned => exact (hnext scanned rfl h.1).congr h.2

end

/-- A word is read up to where it stops, or ends with a backslash. -/
theorem escapesEnd_lexWord {place : Place} (hplace : place = .target ∨ place = .word)
    (word text : Bytes) :
  Scans ignore ⟨place, .nothing⟩ ⟨place, .nothing⟩ StopsWord text (lexWord word text)
  := by
  have hchar {c : UInt8} (hc : c ≠ '\\'.toUInt8) (hword : isWordChar c) :
      next ignore c ⟨place, .nothing⟩ = ⟨place, .nothing⟩ := by
    have hdollar : c ≠ '$'.toUInt8 := by
      rintro rfl
      revert hword
      decide
    obtain rfl | rfl := hplace
    · simp only [next, readTarget, if_neg hc, if_neg hdollar, if_pos hword]
    · simp only [next, readWord, if_neg hc, if_neg hdollar, if_pos (Or.inr hword)]
  fun_induction lexWord word text with
  | case1 word => exact ⟨trivial, rfl⟩
  | case2 word => obtain rfl | rfl := hplace <;> rfl
  | case3 word c hc hword => exact ⟨⟨hc, hword⟩, rfl⟩
  | case4 word c hc hword =>
    refine ⟨trivial, ?_⟩
    rw [escapesEnd_cons, hchar hc (not_not.1 hword)]
  | case5 word cur => exact ⟨.inl ⟨rfl, rfl⟩, rfl⟩
  | case6 word d cur hd ih =>
    apply ih.congr
    obtain rfl | rfl := hplace
    · exact congrArg (escapesEnd ignore · cur) (if_neg hd)
    · exact congrArg (escapesEnd ignore · cur) (if_neg hd)
  | case7 word c d cur hc hd ih =>
    obtain ⟨rfl, rfl⟩ := hd
    apply ih.congr
    obtain rfl | rfl := hplace <;> rfl
  | case8 word c d cur hc hd hword => exact ⟨.inr ⟨hc, hd, hword⟩, rfl⟩
  | case9 word c d cur hc hd hword ih =>
    apply ih.congr
    rw [escapesEnd_cons, hchar hc (not_not.1 hword)]

/-! ### The start of a word -/

theorem skipWhitespaceAndComments_eq_cons {comment : Bool} {rest : Bytes}
    (h : skipWhitespaceAndComments comment text = c :: rest) :
  c ≠ '#'.toUInt8 ∧ c ∉ ascii " \t\n\r"
  := by
  fun_induction skipWhitespaceAndComments comment text <;> grind

theorem skipNonNewlineWhitespace_eq_cons {rest : Bytes}
    (h : skipNonNewlineWhitespace text = c :: rest) :
  c ∉ ascii " \t\r"
    ∧ (c = '\\'.toUInt8 → rest.head? ≠ some '\n'.toUInt8 ∧ rest.take 2 ≠ ascii "\r\n")
  := by
  fun_induction skipNonNewlineWhitespace text <;> simp_all [ascii] <;> grind

theorem stopsWord_cons (hc : c ≠ '\\'.toUInt8) (hdollar : c ≠ '$'.toUInt8) :
  StopsWord (c :: text) ↔ ¬ isWordChar c
  := by
  cases text <;> simp [StopsWord, hc, hdollar]

/-- The start of a rule is a target, or a line that is given up. -/
theorem escapesEnd_between_cons
    (text : Bytes) (hc : c ≠ '#'.toUInt8) (hspace : c ∉ ascii " \t\n\r") :
  (StopsWord (c :: text) →
      escapesEnd ignore ⟨.between, .nothing⟩ (c :: text)
        = escapesEnd ignore ⟨.line, .nothing⟩ (c :: text))
    ∧ (¬ StopsWord (c :: text) →
      escapesEnd ignore ⟨.between, .nothing⟩ (c :: text)
        = escapesEnd ignore ⟨.target, .nothing⟩ (c :: text))
  := by
  by_cases hback : c = '\\'.toUInt8
  · subst hback
    match text with
    | [] => exact ⟨fun h => absurd rfl h.1, fun _ => rfl⟩
    | d :: text =>
      by_cases hd : d = '\n'.toUInt8
      · subst hd
        exact ⟨fun _ => rfl, fun h => absurd (.inl ⟨rfl, rfl⟩) h⟩
      · refine ⟨fun h => absurd h (by simp [StopsWord, hd]), fun _ => ?_⟩
        exact congrArg (escapesEnd ignore · text)
          ((if_neg hd).trans (if_neg hd).symm)
  by_cases hdollar : c = '$'.toUInt8
  · subst hdollar
    match text with
    | [] => exact ⟨fun _ => rfl, fun h => absurd ⟨hback, by decide⟩ h⟩
    | d :: text =>
      by_cases hd : d = '$'.toUInt8
      · subst hd
        exact ⟨fun h => absurd h (by simp [StopsWord, hback]), fun _ => rfl⟩
      · refine ⟨fun _ => ?_, fun h => absurd (.inr ⟨hback, (hd ·.2), by decide⟩) h⟩
        exact congrArg (escapesEnd ignore · text) (if_neg hd)
  rw [stopsWord_cons hback hdollar, not_not]
  constructor <;> intro hword
  · have hline : c ≠ '\n'.toUInt8 := fun hline => hspace (mem_space.2 (.inr (.inr (.inl hline))))
    simp only [escapesEnd_cons, next, readBetween, readLine, if_neg hc, if_neg hspace,
      if_neg hback, if_neg hdollar, if_neg hword, if_neg hline]
  · simp only [escapesEnd_cons, next, readBetween, readTarget, if_neg hc, if_neg hspace,
      if_neg hback, if_neg hdollar, if_pos hword]

/-- What stands between blanks is a dependency, or the rest of a line that is given up. -/
theorem escapesEnd_blank_cons (hspace : c ∉ ascii " \t\r") (hline : c ≠ '\n'.toUInt8)
    (hescape : c = '\\'.toUInt8 →
      text.head? ≠ some '\n'.toUInt8 ∧ text.take 2 ≠ ascii "\r\n") :
  (StopsWord (c :: text) →
      escapesEnd ignore ⟨.blank, .nothing⟩ (c :: text)
        = escapesEnd ignore ⟨.rest, .nothing⟩ (c :: text))
    ∧ (¬ StopsWord (c :: text) →
      escapesEnd ignore ⟨.blank, .nothing⟩ (c :: text)
        = escapesEnd ignore ⟨.word, .nothing⟩ (c :: text))
  := by
  by_cases hback : c = '\\'.toUInt8
  · subst hback
    obtain ⟨hhead, htake⟩ := hescape rfl
    match text with
    | [] => exact ⟨fun h => absurd rfl h.1, fun _ => rfl⟩
    | d :: text =>
      have hd : d ≠ '\n'.toUInt8 := by simpa using hhead
      refine ⟨fun h => absurd h (by simp [StopsWord, hd]), fun _ => ?_⟩
      by_cases hd' : d = '\r'.toUInt8
      · subst hd'
        match text with
        | [] => rfl
        | e :: text =>
          have he : e ≠ '\n'.toUInt8 := by
            rintro rfl
            exact htake rfl
          exact congrArg (escapesEnd ignore · text) (if_neg he)
      · simp only [escapesEnd_cons, next, readBlank, readWord, if_neg hspace, if_neg hline,
          if_neg hd, if_neg hd', if_true]
  by_cases hdollar : c = '$'.toUInt8
  · subst hdollar
    match text with
    | [] => exact ⟨fun _ => rfl, fun h => absurd ⟨hback, by decide⟩ h⟩
    | d :: text =>
      by_cases hd : d = '$'.toUInt8
      · subst hd
        exact ⟨fun h => absurd h (by simp [StopsWord, hback]), fun _ => rfl⟩
      · refine ⟨fun _ => ?_, fun h => absurd (.inr ⟨hback, (hd ·.2), by decide⟩) h⟩
        exact congrArg (escapesEnd ignore · text) (if_neg hd)
  rw [stopsWord_cons hback hdollar, not_not]
  constructor <;> intro hword
  · simp only [escapesEnd_cons, next, readBlank, readRest, if_neg hspace, if_neg hback,
      if_neg hdollar, if_neg hword, if_neg hline]
  · simp only [escapesEnd_cons, next, readBlank, readWord, if_neg hspace, if_neg hback,
      if_neg hdollar, if_neg hline, if_pos hword, if_pos (Or.inr hword)]

/-- Text before the colon is given up. -/
theorem escapesEnd_colon_cons (hspace : c ∉ ascii " \t\r") (hcolon : c ≠ ':'.toUInt8)
    (hescape : c = '\\'.toUInt8 →
      text.head? ≠ some '\n'.toUInt8 ∧ text.take 2 ≠ ascii "\r\n") :
  escapesEnd ignore ⟨.colon, .nothing⟩ (c :: text)
    = escapesEnd ignore ⟨.line, .nothing⟩ (c :: text)
  := by
  by_cases hback : c = '\\'.toUInt8
  · subst hback
    obtain ⟨hhead, htake⟩ := hescape rfl
    match text with
    | [] => rfl
    | d :: text =>
      have hd : d ≠ '\n'.toUInt8 := by simpa using hhead
      by_cases hd' : d = '\r'.toUInt8
      · subst hd'
        match text with
        | [] => rfl
        | e :: text =>
          have he : e ≠ '\n'.toUInt8 := by
            rintro rfl
            exact htake rfl
          exact congrArg (escapesEnd ignore · text) (if_neg he)
      · show escapesEnd ignore (next ignore d ⟨.colon, .backslash⟩) text
          = escapesEnd ignore (readLine d) text
        rw [next, if_neg hd, if_neg hd', readLine, if_neg hd]
  · simp only [escapesEnd_cons, next, readColon, if_neg hspace, if_neg hback, if_neg hcolon]

/-! ### The parser -/

theorem escapesEnd_lexColons (word : Bytes) (h : StopsWord text) :
  Scans ignore ⟨.word, .nothing⟩ ⟨.blank, .nothing⟩ (fun _ => True) text
    (lexColons word text)
  := by
  fun_induction lexColons word text with
  | case1 word => exact ⟨trivial, rfl⟩
  | case2 word rest hlex =>
    have hword := escapesEnd_lexWord ignore (.inr rfl) (word ++ [':'.toUInt8]) rest
    rw [hlex] at hword
    exact hword
  | case3 word rest word' stop hlex ih =>
    have hword := escapesEnd_lexWord ignore (.inr rfl) (word ++ [':'.toUInt8]) rest
    rw [hlex] at hword
    exact (ih hword.1).congr hword.2
  | case4 word c rest hc =>
    refine ⟨trivial, (escapesEnd_of_stopsWord ignore h).2 ?_⟩
    simpa using hc

theorem escapesEnd_parseDependencies (size : ℕ) (text : Bytes) :
  Scans ignore ⟨.blank, .nothing⟩ ⟨.blank, .nothing⟩
    (fun rest => rest = [] ∨ rest.head? = some '\n'.toUInt8) text (parseDependencies size text)
  := by
  induction hn : text.length using Nat.strong_induction_on generalizing text with
  | _ n ih =>
    rw [parseDependencies_eq]
    by_cases hnil : text = []
    · subst hnil
      exact ⟨.inl rfl, rfl⟩
    rw [if_neg hnil]
    refine Scans.congr ?_ (escapesEnd_blank ignore text)
    have hskip := length_skipNonNewlineWhitespace_le text
    have hcons (c : UInt8) (rest : Bytes) := @skipNonNewlineWhitespace_eq_cons c text rest
    generalize skipNonNewlineWhitespace text = start at hskip hcons ⊢
    dsimp only
    by_cases hend : start = [] ∨ start.head? = some '\n'.toUInt8
    · rw [if_pos hend]
      exact ⟨hend, rfl⟩
    rw [if_neg hend]
    obtain ⟨c, rest, rfl⟩ := exists_cons_of_ne_nil (hend <| .inl ·)
    obtain ⟨hspace, hescape⟩ := hcons c rest rfl
    have hline : c ≠ '\n'.toUInt8 := by simpa using hend
    obtain ⟨hgiven, hword⟩ := escapesEnd_blank_cons ignore hspace hline hescape
    by_cases hstops : StopsWord (c :: rest)
    · have hlt := length_skipToEndOfLine_lt (cons_ne_nil c rest)
      rw [lexWord_of_stopsWord hstops, Option.bind_some, if_pos rfl]
      apply Scans.map
      apply (ih _ (by omega) (skipToEndOfLine (c :: rest)) rfl).congr
      rw [hgiven hstops, escapesEnd_rest]
    · apply Scans.bind ((escapesEnd_lexWord _ (.inr rfl) [] _).congr (hword hstops))
      rintro ⟨word, stop⟩ hlex hstop
      have hlt := length_lt_of_lexWord hstops hlex
      rw [if_neg hlt.ne]
      apply Scans.bind (escapesEnd_lexColons _ word hstop)
      rintro ⟨word', stop'⟩ hcolons -
      have hle : stop'.length ≤ stop.length := length_le_of_lexColons hcolons
      exact Scans.map (ih _ (by omega) stop' rfl) _

theorem escapesEnd_stop :
  escapesEnd ignore ⟨.stop, .nothing⟩ text = false
  := by
  induction text with
  | nil => rfl
  | cons c text ih => exact ih

/-- Behind its dependencies a rule is over. -/
theorem escapesEnd_ended (h : text = [] ∨ text.head? = some '\n'.toUInt8) :
  escapesEnd ignore ⟨.blank, .nothing⟩ text
    = (!ignore && escapesEnd ignore ⟨.between, .nothing⟩ text)
  := by
  obtain rfl | h := h
  · cases ignore <;> rfl
  · obtain ⟨rest, rfl⟩ := head?_eq_some_iff.mp h
    cases ignore
    · rfl
    · exact escapesEnd_stop true

variable {ignore} in
/-- Behind the colon, if the rules that follow are read as said. -/
theorem bind_parseDependencies_eq_none_iff {size : ℕ}
    (hrest : ∀ rest : Bytes, rest.length ≤ text.length →
      (parseFrom ignore size rest = none ↔ escapesEnd ignore ⟨.between, .nothing⟩ rest))
    (f : List Action × Bytes → List Action → List Action) :
  ((parseDependencies size text).bind fun deps =>
      (if ignore then some [] else parseFrom ignore size deps.2).map (f deps)) = none
    ↔ escapesEnd ignore ⟨.blank, .nothing⟩ text
  := by
  have hscan := escapesEnd_parseDependencies ignore size text
  cases hdeps : parseDependencies size text with
  | none =>
    rw [hdeps] at hscan
    exact iff_of_true rfl hscan
  | some parsed =>
    obtain ⟨deps, rest⟩ := parsed
    rw [hdeps] at hscan
    rw [Option.bind_some, Option.map_eq_none_iff, hscan.2, escapesEnd_ended _ hscan.1]
    cases ignore with
    | false => exact hrest rest (length_le_of_parseDependencies hdeps)
    | true => exact iff_of_false nofun nofun

/-- The parser on lists has no result if and only if the byte behind the text is escaped. -/
theorem parseFrom_eq_none_iff (size : ℕ) (text : Bytes) :
  parseFrom ignore size text = none
    ↔ escapesEnd ignore ⟨.between, .nothing⟩ text
  := by
  induction hn : text.length using Nat.strong_induction_on generalizing text with
  | _ n ih =>
    have hskip := length_skipWhitespaceAndComments_le false text
    have hcons (c : UInt8) (rest : Bytes) := @skipWhitespaceAndComments_eq_cons c text false rest
    have hbetween := escapesEnd_between ignore text false
    rw [if_neg Bool.false_ne_true] at hbetween
    rw [parseFrom_eq, hbetween]
    generalize skipWhitespaceAndComments false text = start at hskip hcons ⊢
    dsimp only
    by_cases hend : start = []
    · subst hend
      simp [escapesEnd, isEscaping]
    rw [if_neg hend]
    obtain ⟨c, rest, rfl⟩ := exists_cons_of_ne_nil hend
    obtain ⟨hc, hspace⟩ := hcons c rest rfl
    obtain ⟨hgiven, htarget⟩ := escapesEnd_between_cons ignore rest hc hspace
    by_cases hstops : StopsWord (c :: rest)
    · have hlt := length_skipToEndOfLine_lt hend
      rw [lexWord_of_stopsWord hstops, Option.bind_some, if_pos rfl, Option.map_eq_none_iff,
        ih _ (hlt.trans_le (hskip.trans_eq hn)) _ rfl, hgiven hstops, escapesEnd_line]
    rw [htarget hstops]
    have hword := escapesEnd_lexWord ignore (.inl rfl) [] (c :: rest)
    cases hlex : lexWord [] (c :: rest) with
    | none =>
      rw [hlex] at hword
      exact iff_of_true rfl hword
    | some lexed =>
      obtain ⟨word, stop⟩ := lexed
      rw [hlex] at hword
      have hlt := length_lt_of_lexWord hstops hlex
      have hblank := length_skipNonNewlineWhitespace_le stop
      rw [Option.bind_some, if_neg hlt.ne, hword.2,
        (escapesEnd_of_stopsWord ignore hword.1).1, escapesEnd_colon]
      have hcons (c : UInt8) (rest : Bytes) := @skipNonNewlineWhitespace_eq_cons c stop rest
      dsimp only
      generalize skipNonNewlineWhitespace stop = colon at hblank hcons ⊢
      have hline := length_skipToEndOfLine_le colon
      by_cases hcolon : colon.head? = some ':'.toUInt8
      · obtain ⟨rest', rfl⟩ := head?_eq_some_iff.mp hcolon
        rw [if_neg (not_not.mpr hcolon), tail_cons]
        rw [length_cons] at hblank
        exact bind_parseDependencies_eq_none_iff (fun rest'' hle => ih _ (by omega) rest'' rfl) _
      · rw [if_pos hcolon, Option.map_eq_none_iff, ih _ (by omega) _ rfl]
        cases colon with
        | nil => rfl
        | cons d rest' =>
          obtain ⟨hspace', hescape⟩ := hcons d rest' rfl
          rw [escapesEnd_colon_cons _ hspace' (by simpa using hcolon) hescape, escapesEnd_line]

theorem eq_of_isEscaping_next (h : (next ignore c reading).isEscaping) :
  c = '\\'.toUInt8
  := by
  obtain ⟨place, pending⟩ := reading
  revert h
  cases place <;> cases pending <;>
    simp only [next, readBetween, readLine, readTarget, readColon, readBlank, readWord, readRest,
      ended] <;>
    grind [isEscaping]

/-- Only a backslash at the end of the text escapes the byte behind it. -/
theorem getLast?_of_escapesEnd (h : escapesEnd ignore ⟨.between, .nothing⟩ text) :
  text.getLast? = some '\\'.toUInt8
  := by
  obtain rfl | ⟨start, c, rfl⟩ := eq_nil_or_concat' text
  · cases h
  · rw [escapesEnd, foldl_append] at h
    rw [getLast?_concat, eq_of_isEscaping_next _ h]

-- The last byte of a comment, and a backslash that is escaped, escape nothing.
example :
  escapesEnd false ⟨.between, .nothing⟩ (ascii "# a\\") = false
    ∧ escapesEnd false ⟨.between, .nothing⟩ (ascii "a: b\\\\") = false
  := by decide

end Reading

end MakefileDepsParser

end LLBuild

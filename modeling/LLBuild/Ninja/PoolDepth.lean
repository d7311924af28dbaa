import LLBuild.Ninja.Nodes

/-!
# The depths of pools

The depth of a pool is a decimal number, read as a signed number of 64 bits and kept as an
unsigned one of 32 bits.  The reader notices every number that does not fit in 64 bits
(`consumeDigits_of_digits`), and numbers that are not positive are rejected.  A number that fits
in 64 bits and not in 32 is cut: if nothing is left of it, the pool seems to have no depth and is
rejected, otherwise its depth is another one.
-/

namespace LLBuild.Ninja.Manifest

open BinaryCoding

/-! ### Decimal numbers -/

/-- The character is a decimal digit. -/
abbrev IsDigit (c : UInt8) : Prop := '0'.toUInt8 ≤ c ∧ c ≤ '9'.toUInt8

/-- The number that digits stand for behind the digits of `n`. -/
def decimalFrom (n : ℕ) (text : Bytes) : ℕ :=
  text.foldl (fun n c => n * 10 + (c - '0'.toUInt8).toNat) n

/-- The text is a decimal number, and `d` is its value. -/
structure IsDecimal (text : Bytes) (d : ℕ) : Prop where
  ne_nil : text ≠ []
  digits : ∀ c ∈ text, IsDigit c
  value : decimalFrom 0 text = d

theorem le_decimalFrom (n : ℕ) (text : Bytes) :
  n ≤ decimalFrom n text
  := by
  induction text generalizing n with
  | nil => exact le_rfl
  | cons c text ih =>
    calc n ≤ n * 10 + (c - '0'.toUInt8).toNat := by omega
      _ ≤ decimalFrom n (c :: text) := ih _

theorem IsDigit.toNat_sub_lt {c : UInt8} (h : IsDigit c) :
  (c - '0'.toUInt8).toNat < 10
  := by
  obtain ⟨hzero, hnine⟩ := h
  have hnine : c.toNat ≤ 57 := UInt8.le_iff_toNat_le.mp hnine
  have hsub : (c - '0'.toUInt8).toNat = c.toNat - 48 := UInt8.toNat_sub_of_le c _ hzero
  omega

namespace Loader

/-- The next number is smaller than it ought to be exactly if it does not fit. -/
theorem next_div_lt_iff {result : UInt64} {c : UInt8} (h : IsDigit c) :
  (result * 10 + (c - '0'.toUInt8).toUInt64) / 10 < result
    ↔ 2 ^ 64 ≤ result.toNat * 10 + (c - '0'.toUInt8).toNat
  := by
  have hdigit := h.toNat_sub_lt
  rw [UInt64.lt_iff_toNat_lt, UInt64.toNat_div, UInt64.toNat_add, UInt64.toNat_mul]
  simp only [UInt8.toNat_toUInt64, UInt64.reduceToNat]
  omega

variable {text : Bytes}

/-- Digits are read to their end, unless their number does not fit in 64 bits. -/
theorem consumeDigits_of_digits (hdigits : ∀ c ∈ text, IsDigit c) (result : UInt64) :
  consumeDigits result text
    = if decimalFrom result.toNat text < 2 ^ 64 then
        some (.ofNat (decimalFrom result.toNat text), [])
      else none
  := by
  induction text generalizing result with
  | nil =>
    rw [consumeDigits, decimalFrom, List.foldl_nil, if_pos result.toNat_lt, UInt64.ofNat_toNat]
  | cons c text ih =>
    obtain ⟨hc, hdigits⟩ := List.forall_mem_cons.mp hdigits
    have hfrom : decimalFrom result.toNat (c :: text)
        = decimalFrom (result.toNat * 10 + (c - '0'.toUInt8).toNat) text := rfl
    rw [consumeDigits, if_pos hc, hfrom]
    by_cases hnext : 2 ^ 64 ≤ result.toNat * 10 + (c - '0'.toUInt8).toNat
    · rw [if_pos ((next_div_lt_iff hc).mpr hnext), if_neg]
      have hle := le_decimalFrom (result.toNat * 10 + (c - '0'.toUInt8).toNat) text
      omega
    · have hvalue : (result * 10 + (c - '0'.toUInt8).toUInt64).toNat
          = result.toNat * 10 + (c - '0'.toUInt8).toNat := by
        rw [UInt64.toNat_add, UInt64.toNat_mul]
        simp only [UInt8.toNat_toUInt64, UInt64.reduceToNat]
        omega
      rw [if_neg (mt (next_div_lt_iff hc).mp hnext), ih hdigits, hvalue]

theorem digits_of_consumeDigits
    {result value : UInt64} (h : consumeDigits result text = some (value, [])) :
  ∀ c ∈ text, IsDigit c
  := by
  induction text generalizing result with
  | nil => exact List.forall_mem_nil _
  | cons c text ih =>
    rw [consumeDigits] at h
    dsimp only at h
    split_ifs at h with hc
    · exact List.forall_mem_cons.mpr ⟨hc, ih h⟩
    · cases h

/-- A number without a sign is read if it is one that fits in 64 bits. -/
theorem consumeUnsignedInteger_eq_some_iff {value : UInt64} :
  consumeUnsignedInteger text = some (value, []) ↔ IsDecimal text value.toNat
  := by
  rw [consumeUnsignedInteger, Option.filter_eq_some_iff]
  constructor
  · rintro ⟨hread, hlength⟩
    have hdigits := digits_of_consumeDigits hread
    rw [consumeDigits_of_digits hdigits] at hread
    split_ifs at hread with hfits
    obtain ⟨hvalue, -⟩ := Prod.mk.inj (Option.some.inj hread)
    refine ⟨?_, hdigits, ?_⟩
    · rintro rfl
      simp at hlength
    · rw [← hvalue]
      exact (UInt64.toNat_ofNat_of_lt' hfits).symm
  · rintro ⟨hne, hdigits, hvalue⟩
    constructor
    · have hfits : decimalFrom (0 : UInt64).toNat text < 2 ^ 64 := hvalue ▸ value.toNat_lt
      rw [consumeDigits_of_digits hdigits, if_pos hfits]
      have hofNat : UInt64.ofNat (decimalFrom 0 text) = value := by
        rw [hvalue, UInt64.ofNat_toNat]
      exact congrArg (fun value => some (value, [])) hofNat
    · apply decide_eq_true
      intro hlength
      exact hne (List.eq_nil_of_length_eq_zero hlength.symm)

/-- A positive number is read from the decimal numbers that fit in 63 bits, and from nothing
else. -/
theorem getAsInteger_eq_some_iff {d : ℕ} (hd : 0 < d) :
  getAsInteger text = some (d : ℤ) ↔ IsDecimal text d ∧ d < 2 ^ 63
  := by
  cases text with
  | nil =>
    constructor
    · intro h
      cases h
    · rintro ⟨⟨hne, -, -⟩, -⟩
      exact absurd rfl hne
  | cons c rest =>
    rw [getAsInteger]
    by_cases hminus : c = '-'.toUInt8
    · rw [if_neg (not_not.mpr hminus)]
      constructor
      · -- A number with a sign is not positive.
        intro h
        split at h
        · split_ifs at h
          have hneg := Option.some.inj h
          omega
        · cases h
      · rintro ⟨hdecimal, -⟩
        have hdigit := hdecimal.digits c List.mem_cons_self
        rw [hminus] at hdigit
        exact absurd hdigit (by decide)
    · rw [if_pos hminus]
      constructor
      · intro h
        split at h
        · next value hread =>
            split_ifs at h with hlarge
            obtain rfl : value.toNat = d := Int.ofNat_inj.mp (Option.some.inj h)
            exact ⟨consumeUnsignedInteger_eq_some_iff.mp hread, not_le.mp hlarge⟩
        · cases h
      · rintro ⟨hdecimal, hfits⟩
        have htoNat : (UInt64.ofNat d).toNat = d :=
          UInt64.toNat_ofNat_of_lt' (hfits.trans (by decide))
        have hread := consumeUnsignedInteger_eq_some_iff.mpr (htoNat.symm ▸ hdecimal)
        rw [hread]
        dsimp only
        rw [htoNat, if_neg (not_le.mpr hfits)]

/-! ### Pools -/

/-- Enter a pool in the manifest. -/
def setPool (decl : Pool) (l : Loader) : Loader :=
  { l with manifest := { l.manifest with pools := l.manifest.pools.insert decl.name decl } }

section PoolDecl

variable {l : Loader} {startTok nameTok depthTok valueTok : Token}

theorem length_errors_report (messages : List Bytes) (token : Token) (l : Loader) :
  (l.report messages token).errors.length = l.errors.length + messages.length
  := by
  rw [report, List.length_append, List.length_map]

theorem length_errors_error (message : Bytes) (token : Token) (l : Loader) :
  (l.error message token).errors.length = l.errors.length + 1
  := length_errors_report [message] token l

theorem length_errors_evalToken (token : Token) (l : Loader) :
  l.errors.length ≤ (l.evalToken token).2.errors.length
  := by
  rw [evalToken, length_errors_report]
  apply Nat.le_add_right

section

variable (hnew : nameTok.text ∉ l.manifest.pools)
include hnew

section

variable (hname : depthTok.text = ascii "depth")
include hname

/-- A positive number that fits in 63 bits is cut to the depth of the pool. -/
theorem actOnPoolDecl_of_decimal
    {d : ℕ} (hdecimal : IsDecimal (l.evalToken valueTok).1 d) (hpos : 0 < d) (hfits : d < 2 ^ 63) :
  l.actOnPoolDecl startTok nameTok [.decl depthTok valueTok]
    = if UInt32.ofNat d = 0 then
        ((l.evalToken valueTok).2.setPool ⟨nameTok.text, .ofNat d⟩).error
          (ascii "missing 'depth' variable assignment") startTok
      else (l.evalToken valueTok).2.setPool ⟨nameTok.text, .ofNat d⟩
  := by
  have hinteger := (getAsInteger_eq_some_iff hpos).mpr ⟨hdecimal, hfits⟩
  have hnonpos : ¬ (d : ℤ) ≤ 0 := by omega
  simp only [actOnPoolDecl, if_neg hnew, poolBindings, actOnPoolBindingDecl, if_pos hname, hinteger,
    if_neg hnonpos]
  rfl

/-- For any other text an error is reported. -/
theorem errors_actOnPoolDecl_lt
    (hinvalid : ∀ d, IsDecimal (l.evalToken valueTok).1 d → 0 < d → 2 ^ 63 ≤ d) :
  l.errors.length < (l.actOnPoolDecl startTok nameTok [.decl depthTok valueTok]).errors.length
  := by
  have hbinding : l.actOnPoolBindingDecl depthTok valueTok ⟨nameTok.text, 0⟩
      = (⟨nameTok.text, 0⟩, (l.evalToken valueTok).2.error (ascii "invalid depth") valueTok) := by
    simp only [actOnPoolBindingDecl, if_pos hname]
    split
    · rfl
    · next intValue hinteger =>
        apply if_pos
        by_contra hpos
        obtain ⟨d, rfl⟩ := Int.eq_ofNat_of_zero_le (not_le.mp hpos).le
        obtain ⟨hdecimal, hfits⟩ := (getAsInteger_eq_some_iff (by omega)).mp hinteger
        have hlarge := hinvalid d hdecimal (by omega)
        omega
  simp only [actOnPoolDecl, if_neg hnew, poolBindings, hbinding, if_true]
  rw [length_errors_error]
  rw [length_errors_error]
  have heval := length_errors_evalToken valueTok l
  omega

/-- An error is reported, too, where nothing is left of a number that is cut. -/
theorem errors_actOnPoolDecl_lt_of_cut
    {d : ℕ} (hdecimal : IsDecimal (l.evalToken valueTok).1 d) (hpos : 0 < d) (hfits : d < 2 ^ 63)
    (hcut : d % 2 ^ 32 = 0) :
  l.errors.length < (l.actOnPoolDecl startTok nameTok [.decl depthTok valueTok]).errors.length
  := by
  have hzero : UInt32.ofNat d = 0 := by
    rw [← UInt32.toNat_inj]
    exact hcut
  rw [actOnPoolDecl_of_decimal hnew hname hdecimal hpos hfits, if_pos hzero, length_errors_error]
  apply Nat.lt_succ_of_le
  apply length_errors_evalToken

end

end

/-- The declaration of a pool with a depth reports nothing exactly if nothing is reported about
the text of the depth and the text is a positive number, and then the depth is this number: all
this holds exactly if the number is not one that is cut to another depth. -/
theorem actOnPoolDecl_depth_iff
    (startTok : Token) (hnew : nameTok.text ∉ l.manifest.pools)
    (hname : depthTok.text = ascii "depth") :
  ((l.actOnPoolDecl startTok nameTok [.decl depthTok valueTok]).errors = l.errors
      ↔ (l.evalToken valueTok).2.errors = l.errors
        ∧ ∃ d, IsDecimal (l.evalToken valueTok).1 d ∧ 0 < d ∧ d < 2 ^ 32)
    ∧ (∀ d, IsDecimal (l.evalToken valueTok).1 d →
      (l.actOnPoolDecl startTok nameTok [.decl depthTok valueTok]).errors = l.errors →
      ∃ pool, (l.actOnPoolDecl startTok nameTok [.decl depthTok valueTok]).manifest.pools.lookup
          nameTok.text = some pool ∧ pool.depth.toNat = d)
    ↔ ((l.evalToken valueTok).2.errors = l.errors → ∀ d, IsDecimal (l.evalToken valueTok).1 d →
      2 ^ 32 < d → d < 2 ^ 63 → d % 2 ^ 32 = 0)
  := by
  constructor
  · rintro ⟨-, hdepth⟩ heval d hdecimal hlarge hfits
    by_contra hcut
    have hne : UInt32.ofNat d ≠ 0 := fun hzero => hcut (congrArg UInt32.toNat hzero)
    have hdepth := hdepth d hdecimal
    rw [actOnPoolDecl_of_decimal hnew hname hdecimal (by omega) hfits, if_neg hne] at hdepth
    obtain ⟨pool, hpool, htoNat⟩ := hdepth heval
    obtain rfl := Option.some.inj ((AList.lookup_insert _).symm.trans hpool)
    have hlt := (UInt32.ofNat d).toNat_lt
    rw [htoNat] at hlt
    omega
  intro hcut
  by_cases hsmall : ∃ d, IsDecimal (l.evalToken valueTok).1 d ∧ 0 < d ∧ d < 2 ^ 32
  · obtain ⟨d, hdecimal, hpos, hlt⟩ := hsmall
    have htoNat : (UInt32.ofNat d).toNat = d := UInt32.toNat_ofNat_of_lt' hlt
    have hne : UInt32.ofNat d ≠ 0 := by
      intro hzero
      rw [hzero] at htoNat
      exact hpos.ne htoNat
    rw [actOnPoolDecl_of_decimal hnew hname hdecimal hpos (hlt.trans (by decide)), if_neg hne]
    constructor
    · exact ⟨fun h => ⟨h, d, hdecimal, hpos, hlt⟩, fun h => h.1⟩
    · intro e he _
      exact ⟨_, AList.lookup_insert _, htoNat.trans (hdecimal.value.symm.trans he.value)⟩
  · -- The text is no number at all, or nothing is left of the number, or it has errors.
    have hreported : (l.actOnPoolDecl startTok nameTok [.decl depthTok valueTok]).errors
        ≠ l.errors := by
      have hmore (hlt : l.errors.length
            < (l.actOnPoolDecl startTok nameTok [.decl depthTok valueTok]).errors.length) :
          (l.actOnPoolDecl startTok nameTok [.decl depthTok valueTok]).errors ≠ l.errors :=
        fun h => hlt.ne' (congrArg List.length h)
      by_cases hvalid : ∃ d, IsDecimal (l.evalToken valueTok).1 d ∧ 0 < d ∧ d < 2 ^ 63
      · obtain ⟨d, hdecimal, hpos, hfits⟩ := hvalid
        by_cases hmod : d % 2 ^ 32 = 0
        · exact hmore (errors_actOnPoolDecl_lt_of_cut hnew hname hdecimal hpos hfits hmod)
        · have hne : UInt32.ofNat d ≠ 0 := fun hzero => hmod (congrArg UInt32.toNat hzero)
          have hle : 2 ^ 32 ≤ d := not_lt.mp fun hlt => hsmall ⟨d, hdecimal, hpos, hlt⟩
          rw [actOnPoolDecl_of_decimal hnew hname hdecimal hpos hfits, if_neg hne]
          intro heval
          obtain hlt | rfl := hle.lt_or_eq
          · exact hmod (hcut heval d hdecimal hlt hfits)
          · exact hmod (Nat.mod_self _)
      · exact hmore (errors_actOnPoolDecl_lt hnew hname fun d hdecimal hpos =>
          not_lt.mp fun hfits => hvalid ⟨d, hdecimal, hpos, hfits⟩)
    constructor
    · exact iff_of_false hreported (fun h => hsmall h.2)
    · exact fun _ _ h => absurd h hreported

end PoolDecl

open LoadSamples (token)

/-- A pool of depth 12. -/
theorem actOnPoolDecl_depth_twelve :
  (({} : Loader).actOnPoolDecl (token "pool") (token "p")
      [.decl (token "depth") (token "12")]).errors = []
    ∧ ∃ pool, (({} : Loader).actOnPoolDecl (token "pool") (token "p")
        [.decl (token "depth") (token "12")]).manifest.pools.lookup (ascii "p") = some pool
      ∧ pool.depth.toNat = 12
  := by
  have hdecimal : IsDecimal (({} : Loader).evalToken (token "12")).1 12 := by
    constructor <;> decide +kernel
  have hcut (d : ℕ) (hd : IsDecimal (({} : Loader).evalToken (token "12")).1 d)
      (hlarge : 2 ^ 32 < d) (_ : d < 2 ^ 63) : d % 2 ^ 32 = 0 := by
    obtain rfl : 12 = d := hdecimal.value.symm.trans hd.value
    omega
  have hnew : (token "p").text ∉ ({} : Loader).manifest.pools := by decide
  have hname : (token "depth").text = ascii "depth" := rfl
  obtain ⟨herrors, hdepth⟩ := (actOnPoolDecl_depth_iff (token "pool") hnew hname).mpr
    (fun _ => hcut)
  have herrors := herrors.mpr ⟨by decide +kernel, 12, hdecimal, by decide, by decide⟩
  exact ⟨herrors, hdepth 12 hdecimal herrors⟩

open NodeSamples in
/-- The manifest is loaded, and the pool has another depth. -/
theorem actOnPoolDecl_cut :
  (loadText (ascii "pool p\n depth = 4294967297\n")).map (fun l =>
      (l.errors.length, (l.manifest.pools.lookup (ascii "p")).map Pool.depth))
    = some (0, some 1)
  := by decide +kernel

end Loader

end LLBuild.Ninja.Manifest

import LLBuild.BuildSystem.ShellCommand

/-!
# What signatures take in

The signature of an external command takes in the names of its inputs and then those of its
outputs, with nothing in between.  Commands that have equally many of both are told apart by
their signatures; a node that moves from the inputs to the outputs is not noticed.

The signature of a shell command leaves out the arguments at the positions the client lists.
`countedArgs` walks the arguments and the positions at once, which needs that the positions
ascend: the configuration rejects any other list.  `withoutPositions` is what is left of a list
without the positions, whatever their order.
-/

namespace LLBuild.BuildSystem

open List

open BinaryCoding Combiner

variable {H : Combiner}

/-! ### External commands -/

namespace ExternalCommand

/-- Equal signatures make commands agree on everything the signature takes in, exactly if the
commands have equally many inputs or differ in the name, in an option or in the list of the inputs
followed by the outputs. -/
theorem parts_eq_of_getSignature_eq_iff
    (hstring : Function.Injective H.ofString) {c d : ExternalCommand} :
  (c.getSignature H = d.getSignature H → c.name = d.name
      ∧ c.inputs.map BuildNode.name = d.inputs.map BuildNode.name
      ∧ c.outputs.map BuildNode.name = d.outputs.map BuildNode.name
      ∧ c.allowMissingInputs = d.allowMissingInputs
      ∧ c.allowModifiedOutputs = d.allowModifiedOutputs
      ∧ c.alwaysOutOfDate = d.alwaysOutOfDate)
    ↔ (c.name = d.name → c.inputs.map BuildNode.name ++ c.outputs.map BuildNode.name
        = d.inputs.map BuildNode.name ++ d.outputs.map BuildNode.name →
      c.allowMissingInputs = d.allowMissingInputs → c.allowModifiedOutputs = d.allowModifiedOutputs →
      c.alwaysOutOfDate = d.alwaysOutOfDate → c.inputs.length = d.inputs.length)
  := by
  constructor
  · intro h hname hnodes hmissing hmodified halways
    have hsignature : c.getSignature H = d.getSignature H := by
      rw [getSignature, getSignature, signatureValues_eq, signatureValues_eq, hname, hnodes,
        hmissing, hmodified, halways]
    simpa using congrArg length (h hsignature).2.1
  · intro hinputs h
    obtain ⟨hname, hvalues⟩ := (combineAll_eq_iff (H.taken_ofString _ _)).mp h
    -- The signatures have taken in the same nodes and options.
    have htold := hvalues
    rw [signatureValues_eq, signatureValues_eq] at htold
    obtain ⟨hnodes, hoptions⟩ := append_inj' htold rfl
    simp only [cons.injEq, HashedValue.bool.injEq] at hoptions
    obtain ⟨hmissing, hmodified, halways, -⟩ := hoptions
    have hlength := hinputs (hstring hname) (HashedValue.map_string_injective hnodes) hmissing
      hmodified halways
    exact ⟨hstring hname, signatureValues_injective hlength hvalues⟩

namespace SignatureSamples

/-- A command that links `a.o` to `a`. -/
def link : ExternalCommand where
  name := ascii "L"
  inputs := [{ name := ascii "a.o" }]
  outputs := [{ name := ascii "a" }]
  allowMissingInputs := true

/-- The command with the output moved to the inputs. -/
def linkMoved : ExternalCommand :=
  { link with inputs := link.inputs ++ link.outputs, outputs := [] }

end SignatureSamples

open SignatureSamples

/-- Two commands that differ in the type of a node, which the signature does not take in. -/
theorem parts_eq_of_getSignature_eq_link :
  link.getSignature history
      = { link with inputs := [{ name := ascii "a.o", type := .virtual }] }.getSignature
        history
    ∧ link.name = ascii "L"
  := by
  have hsignature : link.getSignature history
      = { link with inputs := [{ name := ascii "a.o", type := .virtual }] }.getSignature
        history := by
    decide
  have hparts := (parts_eq_of_getSignature_eq_iff history_ofString_injective).mpr
    (fun _ _ _ _ _ => rfl) hsignature
  exact ⟨hsignature, hparts.1⟩

/-- Equal signatures of commands with different inputs and outputs. -/
theorem getSignature_linkMoved :
  Function.Injective history.ofString
    ∧ link.getSignature history = linkMoved.getSignature history
    ∧ link.inputs.map BuildNode.name ≠ linkMoved.inputs.map BuildNode.name
    ∧ link.outputs.map BuildNode.name ≠ linkMoved.outputs.map BuildNode.name
  := by
  exact ⟨history_ofString_injective, by decide, by decide, by decide⟩

end ExternalCommand

/-! ### Positions of a list -/

section Positions

variable {α : Type}

/-- What is left of a list without the positions; the list starts at position `i`. -/
def withoutPositionsFrom (i : ℕ) (positions : List ℕ) (list : List α) : List α :=
  ((list.zipIdx i).filter (fun entry => entry.2 ∉ positions)).map Prod.fst

/-- What is left of a list without the positions. -/
def withoutPositions (positions : List ℕ) (list : List α) : List α :=
  withoutPositionsFrom 0 positions list

theorem withoutPositionsFrom_cons (i : ℕ) (positions : List ℕ) (a : α) (list : List α) :
  withoutPositionsFrom i positions (a :: list)
    = if i ∈ positions then withoutPositionsFrom (i + 1) positions list
      else a :: withoutPositionsFrom (i + 1) positions list
  := by
  by_cases h : i ∈ positions
  · simp [h, withoutPositionsFrom]
  · simp [h, withoutPositionsFrom]

theorem withoutPositionsFrom_cons_of_lt
    {i next : ℕ} (h : next < i) (positions : List ℕ) (list : List α) :
  withoutPositionsFrom i (next :: positions) list = withoutPositionsFrom i positions list
  := by
  induction list generalizing i with
  | nil => rfl
  | cons a list ih =>
    have hmem : i ∈ next :: positions ↔ i ∈ positions := by
      rw [mem_cons, or_iff_right]
      omega
    rw [withoutPositionsFrom_cons, withoutPositionsFrom_cons, ih (by omega)]
    simp only [hmem]

/-- What is left does not depend on what stands at the positions. -/
theorem withoutPositionsFrom_congr
    {i : ℕ} {positions : List ℕ} {list other : List α} (hlength : list.length = other.length)
    (h : ∀ j, i + j ∉ positions → list[j]? = other[j]?) :
  withoutPositionsFrom i positions list = withoutPositionsFrom i positions other
  := by
  induction list generalizing i other with
  | nil =>
    obtain rfl := eq_nil_of_length_eq_zero hlength.symm
    rfl
  | cons a list ih =>
    cases other with
    | nil => cases hlength
    | cons b other =>
      have hrest := ih (i := i + 1) (Nat.succ.inj hlength) (by
        intro j hj
        apply h (j + 1)
        rwa [← Nat.add_assoc, Nat.add_right_comm])
      rw [withoutPositionsFrom_cons, withoutPositionsFrom_cons, hrest]
      split_ifs with hi
      · rfl
      · obtain rfl := Option.some.inj (h 0 hi)
        rfl

theorem withoutPositions_take_prefix (positions : List ℕ) (list : List α) (n : ℕ) :
  withoutPositions positions (list.take n) <+: withoutPositions positions list
  := by
  apply IsPrefix.map
  apply IsPrefix.filter
  conv_rhs => rw [← take_append_drop n list, zipIdx_append]
  apply prefix_append

end Positions

namespace ShellCommand

/-! ### Ignored arguments -/

/-- The walk over the arguments and the ascending positions drops the arguments at the
positions. -/
theorem countedArgs_eq_withoutPositionsFrom
    {i : ℕ} {ignored : List ℕ} (hsorted : ignored.Pairwise (· < ·)) (hle : ∀ n ∈ ignored, i ≤ n)
    (args : List Bytes) :
  countedArgs i ignored args = withoutPositionsFrom i ignored args
  := by
  induction args generalizing i ignored with
  | nil => cases ignored <;> rfl
  | cons arg args ih =>
    rw [withoutPositionsFrom_cons]
    cases ignored with
    | nil =>
      rw [countedArgs, ih List.Pairwise.nil (forall_mem_nil _), if_neg not_mem_nil]
    | cons next ignored =>
      obtain ⟨hnext, hsorted'⟩ := pairwise_cons.mp hsorted
      rw [countedArgs]
      by_cases heq : next = i
      · -- The next position is this one, and the others come after it.
        subst heq
        rw [if_pos rfl, if_pos mem_cons_self, withoutPositionsFrom_cons_of_lt (Nat.lt_succ_self _)]
        apply ih hsorted'
        apply hnext
      · -- All positions come after this one.
        have hlt : i < next := by
          have := hle next mem_cons_self
          omega
        have hnotin : i ∉ next :: ignored := by
          rw [mem_cons]
          rintro (h | h)
          · apply heq h.symm
          · have := hnext i h
            omega
        rw [if_neg heq, if_neg hnotin, ih hsorted]
        intro n hn
        obtain rfl | hn := mem_cons.mp hn
        · apply hlt
        · apply hlt.trans_le (hnext n hn).le

variable {values args ignored : List Bytes}

/-- The indices that are accepted after some ascending ones are those that are written down, and
all ascend. -/
theorem parseIgnoredArgs_spec
    {name : Bytes} {indices result : List ℕ}
    (h : parseIgnoredArgs name indices values = .ok result) (hsorted : indices.Pairwise (· < ·)) :
  result.Pairwise (· < ·)
    ∧ ∃ parsed, result = indices ++ parsed ∧ values.map parseIndex = parsed.map some
  := by
  induction values generalizing indices with
  | nil =>
    cases h
    exact ⟨hsorted, [], (append_nil _).symm, rfl⟩
  | cons value values ih =>
    rw [parseIgnoredArgs] at h
    cases hindex : parseIndex value with
    | none =>
      rw [hindex] at h
      cases h
    | some index =>
      rw [hindex] at h
      dsimp only at h
      split_ifs at h with horder
      have hlast : ∀ n ∈ indices, n < index := by
        obtain rfl | ⟨front, last, rfl⟩ := indices.eq_nil_or_concat
        · exact forall_mem_nil _
        · rw [concat_eq_append, pairwise_append] at hsorted
          rw [concat_eq_append, getLast?_append] at horder
          simp only [getLast?_singleton, Option.some_or, Option.any_some,
            decide_eq_true_eq, not_le] at horder
          intro n hn
          rw [concat_eq_append, mem_append, mem_singleton] at hn
          obtain hn | rfl := hn
          · exact (hsorted.2.2 n hn last (mem_singleton_self _)).trans horder
          · exact horder
      have hsorted' : (indices ++ [index]).Pairwise (· < ·) := by
        rw [pairwise_append]
        refine ⟨hsorted, pairwise_singleton _ _, ?_⟩
        intro n hn m hm
        obtain rfl := mem_singleton.mp hm
        apply hlast n hn
      obtain ⟨hresult, parsed, rfl, hparsed⟩ := ih h hsorted'
      refine ⟨hresult, index :: parsed, ?_, ?_⟩
      · rw [append_assoc, singleton_append]
      · rw [map_cons, hindex, hparsed, map_cons]

/-- The accepted indices are those that are written down, and they ascend. -/
theorem parseIgnoredArgs_nil_spec
    {name : Bytes} {indices : List ℕ} (h : parseIgnoredArgs name [] values = .ok indices) :
  indices.Pairwise (· < ·) ∧ values.map parseIndex = indices.map some
  := by
  obtain ⟨hsorted, parsed, hindices, hparsed⟩ := parseIgnoredArgs_spec h List.Pairwise.nil
  rw [hparsed, hindices]
  exact ⟨hindices ▸ hsorted, rfl⟩

/-- The attributes for the arguments and the ignored ones, in one order or the other. -/
def configureArgs (argsFirst : Bool) (args ignored : List Bytes) (c : ShellCommand H) :
    Except Bytes (ShellCommand H) :=
  if argsFirst then do
    let c ← c.configureList (ascii "args") args
    c.configureList (ascii "signature-ignored-args") ignored
  else do
    let c ← c.configureList (ascii "signature-ignored-args") ignored
    c.configureList (ascii "args") args

variable {c d : ShellCommand H}

theorem configureList_args_eq_ok (h : c.configureList (ascii "args") args = .ok d) :
  d = { c with args := args }
  := by
  rw [configureList, if_pos rfl] at h
  split_ifs at h
  apply (Except.ok.inj h).symm

theorem configureList_ignored_eq_ok
    (h : c.configureList (ascii "signature-ignored-args") ignored = .ok d) :
  ∃ indices, parseIgnoredArgs (ascii "signature-ignored-args") [] ignored = .ok indices
    ∧ d = { c with signatureIgnoredArgs := indices }
  := by
  rw [configureList] at h
  cases hparse : parseIgnoredArgs (ascii "signature-ignored-args") [] ignored with
  | error message =>
    rw [hparse] at h
    cases h
  | ok indices =>
    rw [hparse] at h
    exact ⟨indices, rfl, (Except.ok.inj h).symm⟩

/-- Both orders of the attributes do the same. -/
theorem configureArgs_eq_ok
    {argsFirst : Bool} (h : c.configureArgs argsFirst args ignored = .ok d) :
  ∃ indices, parseIgnoredArgs (ascii "signature-ignored-args") [] ignored = .ok indices
    ∧ d = { c with args := args, signatureIgnoredArgs := indices }
  := by
  rw [configureArgs] at h
  split_ifs at h
  · cases hfirst : c.configureList (ascii "args") args with
    | error message =>
      rw [hfirst] at h
      cases h
    | ok c₁ =>
      rw [hfirst] at h
      obtain rfl := configureList_args_eq_ok hfirst
      apply configureList_ignored_eq_ok h
  · cases hfirst : c.configureList (ascii "signature-ignored-args") ignored with
    | error message =>
      rw [hfirst] at h
      cases h
    | ok c₁ =>
      rw [hfirst] at h
      obtain ⟨indices, hparse, rfl⟩ := configureList_ignored_eq_ok hfirst
      exact ⟨indices, hparse, configureList_args_eq_ok h⟩

/-- The signature depends on the arguments and the ignored positions through what it takes in of
them. -/
theorem getSignature_setArgs_iff
    (hcached : c.cachedSignature = H.null) (hdata : c.signatureData = []) {ignored : List ℕ} :
  { c with args := args, signatureIgnoredArgs := ignored }.getSignature.1 = c.getSignature.1
    ↔ { c with args := args, signatureIgnoredArgs := ignored }.signatureArgs = c.signatureArgs
  := by
  have hset := getSignature_eq
    (c := { c with args := args, signatureIgnoredArgs := ignored }) hcached
  rw [hset, getSignature_eq hcached, combineAll_eq_iff rfl, and_iff_right rfl, append_right_inj,
    signatureValues, signatureValues, if_neg (not_not.mpr hdata), if_neg (not_not.mpr hdata)]
  simp only [append_assoc]
  exact (append_left_inj _).trans HashedValue.map_string_injective.eq_iff

/-- Where the arguments and the ignored ones are configured in either order, the signature is the
one of the command without the arguments at the given positions exactly if equally many arguments
are counted: of those that are left, as many as come before the remainder of the number of
arguments modulo `2 ^ 32`, and as the remainder of their own number.  The signature never depends
on the arguments at the positions. -/
theorem getSignature_configureArgs_iff
    {c d : ShellCommand H} {argsFirst : Bool} {args ignored : List Bytes}
    (hcached : c.cachedSignature = H.null) (hdata : c.signatureData = [])
    (h : c.configureArgs argsFirst args ignored = .ok d) :
  ∃ indices, ignored.map parseIndex = indices.map some
    ∧ ({ d with args := withoutPositions indices args, signatureIgnoredArgs := [] }.getSignature.1
        = d.getSignature.1
      ↔ (withoutPositions indices args).length % 2 ^ 32
        = (withoutPositions indices (args.take (args.length % 2 ^ 32))).length)
    ∧ ∀ args', args'.length = args.length → (∀ i ∉ indices, args'[i]? = args[i]?) →
      { d with args := args' }.getSignature.1 = d.getSignature.1
  := by
  obtain ⟨indices, hparse, hd⟩ := configureArgs_eq_ok h
  obtain ⟨hsorted, hindices⟩ := parseIgnoredArgs_nil_spec hparse
  obtain ⟨hdargs, hdignored, hdcached, hddata⟩ : d.args = args ∧ d.signatureIgnoredArgs = indices
      ∧ d.cachedSignature = H.null ∧ d.signatureData = [] := by
    rw [hd]
    exact ⟨rfl, rfl, hcached, hdata⟩
  have hcounted (args : List Bytes) :
      countedArgs 0 indices args = withoutPositions indices args := by
    apply countedArgs_eq_withoutPositionsFrom hsorted
    intro n _
    apply Nat.zero_le
  refine ⟨indices, hindices, ?_, ?_⟩
  · rw [getSignature_setArgs_iff hdcached hddata, signatureArgs, signatureArgs, countedArgs_nil,
      hdargs, hdignored, hcounted]
    -- Both count the arguments that are left, up to some length.
    have hprefix := withoutPositions_take_prefix indices args (args.length % 2 ^ 32)
    constructor
    · intro heq
      rw [← heq, length_take_of_le (Nat.mod_le _ _)]
    · intro hlength
      rw [prefix_iff_eq_take.mp hprefix, hlength]
  · intro args' hlength hagree
    refine (getSignature_setArgs_iff hdcached hddata : { d with args := args' }.getSignature.1
        = d.getSignature.1 ↔ { d with args := args' }.signatureArgs = d.signatureArgs).mpr ?_
    rw [signatureArgs, signatureArgs, hdargs, hdignored, hlength, hcounted, hcounted]
    apply withoutPositionsFrom_congr
    · rw [length_take, length_take, hlength]
    · intro i hi
      rw [Nat.zero_add] at hi
      rw [getElem?_take, getElem?_take, hagree i hi]

namespace SignatureSamples

/-- A command without arguments. -/
def bare : ShellCommand history where
  name := ascii "C"

/-- The command with the arguments in `args` and the second one ignored. -/
def secondIgnored (args : List Bytes) : ShellCommand history :=
  { bare with args := args, signatureIgnoredArgs := [1] }

end SignatureSamples

open SignatureSamples

theorem configureArgs_bare (argsFirst : Bool) (h : args ≠ []) :
  bare.configureArgs argsFirst args [ascii "1"] = .ok (secondIgnored args)
  := by
  have hargs (c : ShellCommand history) :
      c.configureList (ascii "args") args = .ok { c with args := args } := by
    rw [configureList, if_pos rfl, if_neg h]
  have hparse : parseIgnoredArgs (ascii "signature-ignored-args") [] [ascii "1"] = .ok [1] := by
    decide
  have hignored (c : ShellCommand history) :
      c.configureList (ascii "signature-ignored-args") [ascii "1"]
        = .ok { c with signatureIgnoredArgs := [1] } := by
    rfl
  rw [configureArgs, hargs]
  split_ifs
  · apply hignored
  · apply hargs

/-- The path of an index does not count, in either order of the attributes. -/
theorem getSignature_configureArgs_index :
  ∃ c, bare.configureArgs false [ascii "cc", ascii "/x"] [ascii "1"] = .ok c
    ∧ { c with args := [ascii "cc", ascii "/y"] }.getSignature.1 = c.getSignature.1
  := by
  have hargs : [ascii "cc", ascii "/x"] ≠ [] := cons_ne_nil _ _
  have hconfigure := configureArgs_bare false hargs
  obtain ⟨indices, hindices, -, h⟩ :=
    getSignature_configureArgs_iff rfl rfl hconfigure
  obtain rfl : indices = [1] := by
    apply map_injective_iff.mpr (Option.some_injective ℕ)
    rw [← hindices]
    decide
  refine ⟨_, hconfigure, h _ (by simp only [length_cons]) ?_⟩
  intro i hi
  rcases i with _ | _ | i
  · simp only [getElem?_cons_zero]
  · cases hi (mem_singleton_self 1)
  · simp only [getElem?_cons_succ]

/-- Without the second one of the arguments there are as many as the loop cannot count. -/
theorem getSignature_secondIgnored {n : ℕ} (hn : n = 2 ^ 32) (arg : Bytes) :
  (secondIgnored (replicate (n + 1) arg)).getSignature.1
    ≠ { bare with args := withoutPositions [1] (replicate (n + 1) arg) }.getSignature.1
  := by
  obtain ⟨m, rfl⟩ : ∃ m, n = m + 1 := ⟨2 ^ 32 - 1, by omega⟩
  have hleft : withoutPositions [1] (replicate (m + 1 + 1) arg)
      = replicate (m + 1) arg := by
    rw [replicate_succ, replicate_succ, withoutPositions, withoutPositionsFrom_cons,
      withoutPositionsFrom_cons, if_neg (by decide), if_pos (by decide),
      withoutPositionsFrom_cons_of_lt (by decide),
      ← countedArgs_eq_withoutPositionsFrom List.Pairwise.nil (forall_mem_nil _),
      countedArgs_nil]
  have hmany : (secondIgnored (replicate (m + 1 + 1) arg)).signatureArgs = [arg] := by
    have hone : (m + 1 + 1) % 2 ^ 32 = 1 := by omega
    rw [signatureArgs, secondIgnored, length_replicate, hone]
    rfl
  have hless : { bare with args := replicate (m + 1) arg }.signatureArgs = [] := by
    rw [signatureArgs, length_replicate, hn, Nat.mod_self, take_zero, countedArgs]
  rw [hleft, getSignature_eq rfl, getSignature_eq rfl, signatureValues, signatureValues, hmany,
    hless]
  intro h
  cases tail_eq_of_cons_eq h

/-- With `2 ^ 32 + 1` arguments of which the second one is ignored, the signature takes in the
first one; without the second one, it takes in none. -/
theorem getSignature_manyArgs :
  bare.configureArgs true (replicate (2 ^ 32 + 1) (ascii "a")) [ascii "1"]
      = .ok (secondIgnored (replicate (2 ^ 32 + 1) (ascii "a")))
    ∧ (secondIgnored (replicate (2 ^ 32 + 1) (ascii "a"))).getSignature.1
      ≠ { bare with
          args := withoutPositions [1] (replicate (2 ^ 32 + 1) (ascii "a")) }.getSignature.1
  := by
  constructor
  · apply configureArgs_bare
    apply cons_ne_nil
  · apply getSignature_secondIgnored rfl

end ShellCommand

end LLBuild.BuildSystem

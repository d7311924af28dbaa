import LLBuild.Basic.Subprocess

/-!
# What the local executor reads from a process

The pipes of a process are read into a buffer on the stack.  What is handed on is made of the
buffer as a C string: it ends at the first zero byte, which may be one of the bytes read or one
that happens to follow them.  The result of the control protocol is kept in an unsigned integer.
-/

open BinaryCoding List

open LLBuild.Subprocess (ControlProtocolState)

namespace LLBuild3.LocalExecutor

/-! ### The output -/

/-- A successful read: the bytes put into the buffer, and the memory that follows them. -/
structure Read where
  data : Bytes
  rest : Bytes

namespace Read

variable (r : Read)

/-- The buffer as a C string. -/
def text : Bytes := (r.data ++ r.rest).takeWhile (· ≠ 0)

/-- `std::string_view(buf).substr(0, numBytes)`. -/
def view : Bytes := r.text.take r.data.length

/-- How many bytes are accessed for the view: those of the string, and the one that ends it. -/
def accessed : ℕ := r.text.length + 1

theorem text_of_not_mem (h : 0 ∉ r.data) :
  r.text = r.data ++ r.rest.takeWhile (· ≠ 0)
  := takeWhile_append_of_pos (fun _ hc => decide_eq_true (ne_of_mem_of_not_mem hc h))

theorem view_of_not_mem (h : 0 ∉ r.data) :
  r.view = r.data
  := by
  rw [view, text_of_not_mem r h, take_left]

theorem zero_not_mem_view :
  0 ∉ r.view
  := by
  intro h
  have hall := all_eq_true.mp (all_takeWhile (p := (· ≠ 0)) (l := r.data ++ r.rest))
  simpa using hall 0 (mem_of_mem_take h)

theorem accessed_le_iff :
  r.accessed ≤ r.data.length ↔ 0 ∈ r.data
  := by
  constructor
  · intro h
    by_contra hmem
    rw [accessed, text_of_not_mem r hmem, length_append] at h
    omega
  · intro h
    obtain ⟨a, b, hdata⟩ := append_of_mem h
    have htext : r.text <+: a := by
      rw [text, hdata, append_assoc, takeWhile_append]
      split
      · simp
      · exact List.takeWhile_prefix _
    have hle := htext.length_le
    simp only [accessed, hdata, length_append, length_cons]
    omega

end Read

/-- What the delegate is told. -/
inductive Event
  | hadOutput (buf : Bytes)
  | hadError (err : ℕ)

/-- The loops that read the output, the one that polls and `captureExecutedProcessOutput`: they
end at the first read that fails or has no bytes. -/
def readOutput : List (Except ℕ Read) → List Event
  | [] => []
  | .error err :: _ => [.hadError err]
  | .ok r :: reads => if r.data = [] then [] else .hadOutput r.view :: readOutput reads

/-- The reads of such a loop that have bytes. -/
def taken : List (Except ℕ Read) → List Read
  | .ok r :: reads => if r.data = [] then [] else r :: taken reads
  | _ => []

/-- The data passed to `processHadOutput`. -/
def delivered (events : List Event) : Bytes :=
  events.flatMap (fun | .hadOutput buf => buf | .hadError _ => [])

theorem delivered_readOutput (reads : List (Except ℕ Read)) :
  delivered (readOutput reads) = (taken reads).flatMap Read.view
  := by
  fun_induction readOutput reads with
  | case1 => rfl
  | case2 => rfl
  | case3 r reads hdata => simp [taken, hdata, delivered]
  | case4 r reads hdata ih => simp_all [taken, delivered]

theorem flatMap_view_eq_iff (rs : List Read) :
  rs.flatMap Read.view = rs.flatMap Read.data ↔ ∀ r ∈ rs, 0 ∉ r.data
  := by
  constructor
  · intro h r hr hmem
    have hzero := mem_flatMap.mpr ⟨r, hr, hmem⟩
    rw [← h] at hzero
    obtain ⟨r', -, hview⟩ := mem_flatMap.mp hzero
    exact r'.zero_not_mem_view hview
  · intro h
    rw [flatMap_def, flatMap_def, map_congr_left fun r hr => r.view_of_not_mem (h r hr)]

/-- Before and after the release of its lane a process's output is delivered as it was read
exactly if it has no zero byte, and within the bytes read exactly if each read has one. -/
theorem output_verbatim_iff (before after : List (Except ℕ Read)) :
  let rs := taken before ++ taken after
  (delivered (readOutput before ++ readOutput after) = rs.flatMap Read.data
      ↔ ∀ r ∈ rs, 0 ∉ r.data)
    ∧ ((∀ r ∈ rs, r.accessed ≤ r.data.length) ↔ ∀ r ∈ rs, 0 ∈ r.data)
    ∧ (delivered (readOutput before ++ readOutput after) = rs.flatMap Read.data
        ∧ (∀ r ∈ rs, r.accessed ≤ r.data.length)
      ↔ rs = [])
  := by
  intro rs
  have hviews : delivered (readOutput before ++ readOutput after) = rs.flatMap Read.view := by
    rw [flatMap_append, ← delivered_readOutput, ← delivered_readOutput]
    apply flatMap_append
  have haccessed : (∀ r ∈ rs, r.accessed ≤ r.data.length) ↔ ∀ r ∈ rs, 0 ∈ r.data :=
    forall₂_congr fun r _ => r.accessed_le_iff
  rw [hviews, flatMap_view_eq_iff, haccessed]
  refine ⟨Iff.rfl, Iff.rfl, ?_⟩
  constructor
  · rintro ⟨hnot, hmem⟩
    apply eq_nil_iff_forall_not_mem.mpr
    intro r hr
    exact hnot r hr (hmem r hr)
  · intro h
    simp [h]

/-- Of three bytes with a zero byte in the middle one is delivered; for a letter without a zero
byte behind it memory behind the read is delivered from. -/
theorem output_with_zero_byte_is_cut :
  delivered (readOutput [.ok ⟨[65, 0, 66], []⟩]) = [65] ∧ Read.accessed ⟨[65], [66, 0]⟩ = 3
  := by
  decide

/-! ### The control channel -/

/-- A value returned as a `size_t`. -/
def sizeT (value : ℤ) : ℕ := (value % 2 ^ 64).toNat

/-- The control callback: the errors reported, and whether more is to be read. -/
def controlCallback (control : ControlProtocolState) (buf : Bytes) :
    ControlProtocolState × List Bytes × Bool :=
  let (control, value, errstr) := control.read [] buf
  let ret := sizeT value
  (control, if ret < 0 then [errstr] else [], ret = 0)

/-- The control protocol errors that are reported for the data the callback is called with. -/
def controlErrors (control : ControlProtocolState) : List Bytes → List Bytes
  | [] => []
  | buf :: bufs =>
    let (control, errors, more) := controlCallback control buf
    errors ++ if more && !control.releaseSeen then controlErrors control bufs else []

/-- A stream violates the protocol if its first line is not the version, or if it ends with too
long a part of the first or the second line. -/
def Violates (stream : Bytes) : Prop :=
  (∃ line rest, stream = line ++ 10 :: rest ∧ 10 ∉ line ∧ line ≠ ascii "llbuild.1")
    ∨ ∃ msg, (stream = msg ∨ stream = ascii "llbuild.1" ++ 10 :: msg) ∧ 10 ∉ msg
      ∧ 16 < msg.length

theorem controlErrors_eq_nil (control : ControlProtocolState) (bufs : List Bytes) :
  controlErrors control bufs = []
  := by
  fun_induction controlErrors control bufs with
  | case1 => rfl
  | case2 control buf bufs control' errors more heq ih =>
    have herrors : errors = [] := by
      cases heq
      exact if_neg (Nat.not_lt_zero _)
    rw [herrors]
    split
    · exact ih
    · rfl

/-- In whatever parts a stream is read, an error is reported for a violation only if there is no
violation. -/
theorem violation_reported_iff (controlID : Bytes) (rs : List Read) :
  (Violates (rs.flatMap Read.data)
      → controlErrors { controlID } (rs.map Read.view) ≠ [])
    ↔ ¬ Violates (rs.flatMap Read.data)
  := by
  rw [controlErrors_eq_nil]
  simp

/-- Another version is a violation, and it is not reported. -/
theorem other_version_not_reported :
  Violates (Read.data ⟨ascii "llbuild.2\n", [0]⟩)
    ∧ controlErrors { controlID := [] } [Read.view ⟨ascii "llbuild.2\n", [0]⟩] = []
  := by
  refine ⟨Or.inl ⟨ascii "llbuild.2", [], ?_⟩, ?_⟩ <;> decide +kernel

end LLBuild3.LocalExecutor

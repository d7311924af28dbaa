import LLBuild.Basic.BinaryCoding

/-!
# String lists

`StringList` packs a list of strings as a sequence of C strings: each string is followed
by a NUL byte, and `size` counts the packed bytes.  A list of NUL-free strings is read
back from its packed form (`StringList.getValues_ofValues`), also after the packed form
has been encoded and decoded (`StringList.decode_encode`).
-/

namespace LLBuild

open List

open BinaryCoding Decoder

/-- The bytes of a list of strings, each followed by a NUL byte. -/
def packed (values : List Bytes) : Bytes :=
  values.flatMap (· ++ [0])

/-- A list of strings held in memory, none of which contains a NUL byte.  The strings and
their terminators are addressable, so their sizes add up to a 64-bit number. -/
structure CStrings where
  values : List Bytes
  nulFree : ∀ value ∈ values, 0 ∉ value
  addressable : (packed values).length < 2 ^ 64

def CStrings.empty : CStrings := ⟨[], by simp, by decide⟩

/-- A list of strings, packed as a sequence of C strings. -/
structure StringList where
  contents : Bytes := []
  size : UInt64 := 0
deriving DecidableEq

namespace StringList

variable (strings : CStrings)

/-- Pack a list of strings; one more NUL byte than `size` counts is allocated. -/
def ofValues : StringList where
  contents := packed strings.values ++ [0]
  size := UInt64.ofNat (packed strings.values).length

/-- Pack a single string. -/
def ofString (value : Bytes) : StringList where
  contents := value ++ [0]
  size := .ofNat (value.length + 1)

/-- The C strings that start at the positions `i` and up to `size`. -/
def valuesFrom (contents : Bytes) (size i : ℕ) : List Bytes :=
  if i < size then
    let value := (contents.drop i).takeWhile (· ≠ 0)
    value :: valuesFrom contents size (i + value.length + 1)
  else
    []
termination_by size - i

/-- The strings of a list. -/
def getValues (list : StringList) : List Bytes :=
  valuesFrom list.contents list.size.toNat 0

def encode (list : StringList) : Bytes :=
  write64 list.size ++ list.contents.take list.size.toNat

def decode : Decoder StringList := do
  let size ← read64
  let contents ← readBytes size.toNat
  return { contents := contents, size := size }

/-- A NUL-free string followed by a NUL byte is the C string at its start. -/
theorem takeWhile_nulFree {value : Bytes} (h : 0 ∉ value) (rest : Bytes) :
  (value ++ 0 :: rest).takeWhile (· ≠ 0) = value
  := by
  rw [takeWhile_append_of_pos]
  · simp
  · intro byte hbyte
    simp only [decide_not, Bool.not_eq_eq_eq_not, Bool.not_true, decide_eq_false_iff_not]
    rintro rfl
    exact h hbyte

/-- Reading the C strings of a packed list, from the position where it starts, gives the
strings back. -/
theorem valuesFrom_packed
    (values : List Bytes) (h : ∀ value ∈ values, 0 ∉ value) (before after : Bytes) :
  valuesFrom (before ++ (packed values ++ after))
      (before.length + (packed values).length) before.length = values
  := by
  induction values generalizing before with
  | nil =>
    rw [valuesFrom]
    simp [packed]
  | cons value values ih =>
    have hsplit : before ++ (packed (value :: values) ++ after)
        = (before ++ (value ++ [0])) ++ (packed values ++ after) := by
      simp [packed]
    have hsize : before.length + (packed (value :: values)).length
        = (before ++ (value ++ [0])).length + (packed values).length := by
      simp only [packed, flatMap_cons, length_append]
      omega
    have hvalue : ((before ++ (packed (value :: values) ++ after)).drop
        before.length).takeWhile (· ≠ 0) = value := by
      rw [drop_left, packed, flatMap_cons, append_assoc, append_assoc]
      apply takeWhile_nulFree (h value (by simp))
    have hlt : before.length < before.length + (packed (value :: values)).length := by
      simp only [packed, flatMap_cons, length_append, length_singleton]
      omega
    rw [valuesFrom, if_pos hlt]
    simp only [hvalue]
    congr 1
    have hnext : before.length + value.length + 1 = (before ++ (value ++ [0])).length := by
      simp [Nat.add_assoc]
    rw [hsplit, hsize, hnext]
    apply ih (fun v hv => h v (by simp [hv]))

theorem toNat_size_ofValues :
  (ofValues strings).size.toNat = (packed strings.values).length
  := UInt64.toNat_ofNat_of_lt' strings.addressable

theorem getValues_ofValues :
  (ofValues strings).getValues = strings.values
  := by
  have h := valuesFrom_packed strings.values strings.nulFree [] [0]
  rw [getValues, toNat_size_ofValues]
  simpa [ofValues] using h

/-- Decoding an encoded list yields a list of the same size and with the contents that
`size` counts. -/
theorem decode_encode :
  ∃ list, Reads decode (ofValues strings).encode list ∧ list.getValues = strings.values
  := by
  have htake : (ofValues strings).contents.take (ofValues strings).size.toNat
      = packed strings.values := by
    rw [toNat_size_ofValues, ofValues, take_left]
  use ⟨packed strings.values, (ofValues strings).size⟩
  constructor
  · rw [encode, htake]
    apply (reads_read64 _).bind
    intro rest
    have hread := reads_readBytes (packed strings.values) rest
    rw [← toNat_size_ofValues] at hread
    rw [StateT.run_bind, hread]
    rfl
  · have h := valuesFrom_packed strings.values strings.nulFree [] []
    rw [getValues, toNat_size_ofValues]
    simpa using h

end StringList

end LLBuild

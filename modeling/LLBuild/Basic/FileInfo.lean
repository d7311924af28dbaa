import LLBuild.Basic.BinaryCoding

/-!
# File information

`FileInfo` is the record of a file's state that is compared to decide whether the file
has changed, together with its binary coding.
-/

namespace LLBuild

open List

open BinaryCoding Decoder

/-- The time a file was modified. -/
structure FileTimestamp where
  seconds : UInt64
  nanoseconds : UInt64
deriving DecidableEq

/-- Whether a time is before another one. -/
def FileTimestamp.lt (a b : FileTimestamp) : Bool :=
  a.seconds < b.seconds || (a.seconds == b.seconds && a.nanoseconds < b.nanoseconds)

/-- Whether a time is not after another one. -/
def FileTimestamp.le (a b : FileTimestamp) : Bool :=
  a.seconds < b.seconds || (a.seconds == b.seconds && a.nanoseconds ≤ b.nanoseconds)

variable {a b : FileTimestamp}

/-- The times are ordered as the pairs of their numbers, one after the other. -/
theorem FileTimestamp.lt_iff :
  a.lt b ↔ a.seconds < b.seconds ∨ a.seconds = b.seconds ∧ a.nanoseconds < b.nanoseconds
  := by
  simp [lt]

theorem FileTimestamp.le_iff :
  a.le b ↔ a.seconds < b.seconds ∨ a.seconds = b.seconds ∧ a.nanoseconds ≤ b.nanoseconds
  := by
  simp [le]

theorem FileTimestamp.not_lt :
  a.lt b = false ↔ b.le a = true
  := by
  rw [← Bool.not_eq_true, lt_iff, le_iff]
  simp only [UInt64.lt_iff_toNat_lt, UInt64.le_iff_toNat_le, ← UInt64.toNat_inj]
  omega

theorem FileTimestamp.le_refl (a : FileTimestamp) :
  a.le a = true
  := by
  rw [le_iff]
  exact Or.inr ⟨rfl, UInt64.le_refl _⟩

variable {c : FileTimestamp}

theorem FileTimestamp.le_trans (hab : a.le b = true) (hbc : b.le c = true) :
  a.le c = true
  := by
  rw [le_iff] at *
  simp only [UInt64.lt_iff_toNat_lt, UInt64.le_iff_toNat_le, ← UInt64.toNat_inj] at *
  omega

theorem FileTimestamp.lt_of_lt_of_le (hab : a.lt b = true) (hbc : b.le c = true) :
  a.lt c = true
  := by
  rw [lt_iff, le_iff] at *
  simp only [UInt64.lt_iff_toNat_lt, UInt64.le_iff_toNat_le, ← UInt64.toNat_inj] at *
  omega

/-- The checksum of a file: 32 bytes. -/
structure FileChecksum where
  bytes : Bytes
  length_bytes : bytes.length = 32
deriving DecidableEq

/-- The checksum whose bytes are all zero. -/
def FileChecksum.zero : FileChecksum := ⟨replicate 32 0, rfl⟩

/-- What is recorded about a file to tell when it has changed. -/
structure FileInfo where
  device : UInt64
  inode : UInt64
  mode : UInt64
  size : UInt64
  modTime : FileTimestamp
  checksum : FileChecksum
deriving DecidableEq

/-- The value of a `FileInfo` that has not been assigned. -/
def FileInfo.zero : FileInfo := ⟨0, 0, 0, 0, ⟨0, 0⟩, .zero⟩

/-- The record of a file that does not exist has every number zero. -/
def FileInfo.isMissing (info : FileInfo) : Bool :=
  info.device == 0 && info.inode == 0 && info.mode == 0 && info.size == 0 &&
    info.modTime.seconds == 0 && info.modTime.nanoseconds == 0

variable (value : FileTimestamp)

def FileTimestamp.encode : Bytes :=
  write64 value.seconds ++ write64 value.nanoseconds

def FileTimestamp.decode : Decoder FileTimestamp := do
  let seconds ← read64
  let nanoseconds ← read64
  return ⟨seconds, nanoseconds⟩

def FileChecksum.encode (value : FileChecksum) : Bytes :=
  value.bytes.flatMap write8

/-- Read 32 bytes, one at a time. -/
def FileChecksum.decode : Decoder FileChecksum := do
  let bytes ← readMany read8 32
  if h : bytes.length = 32 then return ⟨bytes, h⟩ else failure

def FileInfo.encode (value : FileInfo) : Bytes :=
  write64 value.device ++ (write64 value.inode ++ (write64 value.mode ++
    (write64 value.size ++ (value.modTime.encode ++ value.checksum.encode))))

def FileInfo.decode : Decoder FileInfo := do
  let device ← read64
  let inode ← read64
  let mode ← read64
  let size ← read64
  let modTime ← FileTimestamp.decode
  let checksum ← FileChecksum.decode
  return ⟨device, inode, mode, size, modTime, checksum⟩

theorem FileTimestamp.reads_decode :
  Reads decode value.encode value
  := (reads_read64 value.seconds).pair (reads_read64 value.nanoseconds) mk

theorem FileChecksum.reads_decode (value : FileChecksum) :
  Reads decode value.encode value
  := by
  obtain ⟨bytes, hbytes⟩ := value
  intro rest
  have hread := reads_readMany reads_read8 bytes rest
  rw [hbytes] at hread
  rw [decode, StateT.run_bind, encode, hread]
  simp only [Option.bind_eq_bind, Option.bind_some, dif_pos hbytes]
  rfl

theorem FileInfo.reads_decode (value : FileInfo) :
  Reads decode value.encode value
  := by
  apply (reads_read64 value.device).bind
  apply (reads_read64 value.inode).bind
  apply (reads_read64 value.mode).bind
  apply (reads_read64 value.size).bind
  apply value.modTime.reads_decode.pair value.checksum.reads_decode

/-! ### Checksums of files -/

/-- A digest of `llvm::MD5`. -/
abbrev MD5Result : Type := { bytes : Bytes // bytes.length = 16 }

/-- The hasher of a file, with the bytes its `llvm::MD5` was fed.  Nothing is assigned to
`output` when it is made. -/
structure FileChecksumHasherMD5 where
  hasher : Bytes := []
  output : MD5Result

namespace FileChecksumHasherMD5

variable (md5 : Bytes → MD5Result) (h : FileChecksumHasherMD5)

def update (buffer : Bytes) : FileChecksumHasherMD5 :=
  { h with hasher := h.hasher ++ buffer }

/-- The digest goes into a variable of the function, which hides the member of its name. -/
def finalize : MD5Result × FileChecksumHasherMD5 := (md5 h.hasher, h)

/-- Feed what the reads of the file give, up to the first that gives nothing. -/
def readAndDigest (h : FileChecksumHasherMD5) : List Bytes → MD5Result × FileChecksumHasherMD5
  | [] => h.finalize md5
  | buffer :: reads =>
      if buffer = [] then h.finalize md5 else (h.update buffer).readAndDigest reads

/-- Copy the member into the first bytes of a checksum. -/
def copy (result : FileChecksum) : FileChecksum where
  bytes := h.output.1 ++ result.bytes.drop 16
  length_bytes := by rw [length_append, h.output.2, length_drop, result.length_bytes]

theorem readAndDigest_eq {chunks : List Bytes} (hchunks : ∀ chunk ∈ chunks, chunk ≠ []) :
  (h.readAndDigest md5 chunks).1 = md5 (h.hasher ++ chunks.flatten)
    ∧ (h.readAndDigest md5 chunks).2.output = h.output
  := by
  induction chunks generalizing h with
  | nil => simp [readAndDigest, finalize]
  | cons chunk chunks ih =>
    obtain ⟨hchunk, hchunks⟩ := forall_mem_cons.mp hchunks
    rw [readAndDigest, if_neg hchunk, flatten_cons, ← append_assoc]
    exact ih (h.update chunk) hchunks

end FileChecksumHasherMD5

variable (md5 : Bytes → MD5Result)

/-- The checksum of what stands at a path, of which `file` gives the reads, if it can be
opened; `memory` is what the hasher's `output` holds when nothing was assigned to it. -/
def FileChecksum.getChecksumForPath (memory : MD5Result)
    (fileInfo : FileInfo) (file : Option (List Bytes)) : FileChecksum :=
  if fileInfo.isMissing then .zero
  else if fileInfo.mode &&& 0x4000 ≠ 0 then ⟨1 :: replicate 31 0, rfl⟩
  else match file with
    | none => .zero
    | some reads =>
        (FileChecksumHasherMD5.readAndDigest md5 { output := memory } reads).2.copy .zero

/-- Whatever the reads, what `finalize` computes for a regular file is the digest of the whole
content, but the checksum is what the memory of the hasher held before.  So it is the digest for no
content whatever the memory holds, and files of any two contents have the same checksum. -/
theorem FileChecksum.getChecksumForPath_regular
    (fileInfo : FileInfo) (chunks : List Bytes) (hregular : fileInfo.mode &&& 0xF000 = 0x8000)
    (hchunks : ∀ chunk ∈ chunks, chunk ≠ []) :
  (∀ memory, (FileChecksumHasherMD5.readAndDigest md5 { output := memory } chunks).1
      = md5 chunks.flatten
    ∧ (getChecksumForPath md5 memory fileInfo (some chunks)).bytes = memory.1 ++ replicate 16 0)
    ∧ ¬ ∀ memory, (getChecksumForPath md5 memory fileInfo (some chunks)).bytes
      = (md5 chunks.flatten).1 ++ replicate 16 0
  := by
  have hdirectory : fileInfo.mode &&& 0x4000 = 0 := by
    rw [show (0x4000 : UInt64) = 0xF000 &&& 0x4000 from rfl, ← UInt64.and_assoc, hregular]
    rfl
  have hmode : fileInfo.mode ≠ 0 := by
    intro hmode
    rw [hmode] at hregular
    exact absurd hregular (by decide)
  have hbytes (memory : MD5Result) : (getChecksumForPath md5 memory fileInfo (some chunks)).bytes
      = memory.1 ++ replicate 16 0 := by
    obtain ⟨-, houtput⟩ := FileChecksumHasherMD5.readAndDigest_eq md5 { output := memory } hchunks
    simp [getChecksumForPath, FileInfo.isMissing, hmode, hdirectory, FileChecksumHasherMD5.copy,
      zero, houtput]
  refine ⟨fun memory => ⟨?_, hbytes memory⟩, fun hdigest => ?_⟩
  · exact (FileChecksumHasherMD5.readAndDigest_eq md5 { output := memory } hchunks).1
  · -- The memory cannot hold the digest, whatever it holds.
    have hmemory (memory : MD5Result) : memory = md5 chunks.flatten :=
      Subtype.ext (append_cancel_right ((hbytes memory).symm.trans (hdigest memory)))
    have hsame : (⟨replicate 16 0, rfl⟩ : MD5Result) = ⟨replicate 16 1, rfl⟩ :=
      (hmemory _).trans (hmemory _).symm
    exact absurd hsame (by decide)

/-- The first 16 bytes of a text, as a digest. -/
def headDigest (text : Bytes) : MD5Result := ⟨(text ++ replicate 16 0).take 16, by simp⟩

/-- A file that is read in two pieces. -/
theorem FileChecksum.getChecksumForPath_regular_pieces :
  ¬ ∀ memory, (getChecksumForPath headDigest memory { FileInfo.zero with mode := 0x8000 }
      (some [[1, 2], [3]])).bytes = (headDigest [1, 2, 3]).1 ++ replicate 16 0
  := (getChecksumForPath_regular headDigest _ [[1, 2], [3]] rfl (by decide)).2

/-- In a memory of zeros a file has the same checksum as one of another content, and it is the
digest of neither. -/
theorem FileChecksum.getChecksumForPath_of_memory :
  (getChecksumForPath headDigest ⟨replicate 16 0, rfl⟩ { FileInfo.zero with mode := 0x8000 }
      (some [[1]])).bytes = replicate 32 0
    ∧ (getChecksumForPath headDigest ⟨replicate 16 0, rfl⟩ { FileInfo.zero with mode := 0x8000 }
      (some [[2]])).bytes = replicate 32 0
    ∧ (headDigest [1]).1 = 1 :: replicate 15 0 ∧ (headDigest [2]).1 = 2 :: replicate 15 0
  := by decide

end LLBuild
